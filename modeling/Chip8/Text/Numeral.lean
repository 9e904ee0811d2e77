/-!
Numerals. Numbers are written in upper case hexadecimal, padded with zeros to a width; the sign
counts towards the width, so a negative number gets one zero less. They are read in decimal: blanks
around the numeral, one sign, digits of any script, and single underscores between digits.
-/

namespace Chip8.Hex

def digit (d : Nat) : Char :=
  if d < 10 then Char.ofNat (48 + d) else Char.ofNat (55 + d)

def digits (n : Nat) : List Char :=
  if n < 16 then [digit n] else digits (n / 16) ++ [digit (n % 16)]
termination_by n

def zeroPad (width : Nat) (ds : List Char) : List Char :=
  List.replicate (width - ds.length) '0' ++ ds

def padded (width : Nat) (z : Int) : List Char :=
  if z < 0 then '-' :: zeroPad (width - 1) (digits z.natAbs)
  else zeroPad width (digits z.natAbs)

def text (width : Nat) (z : Int) : String :=
  String.ofList (padded width z)

end Chip8.Hex

namespace Chip8.Digit

/-- The code points of the zeros, in ascending order. The digits of a script are ten consecutive code
points, so a script is known by its zero. -/
def zeros : List Nat := [
  0x0030, 0x0660, 0x06F0, 0x07C0, 0x0966, 0x09E6, 0x0A66, 0x0AE6, 0x0B66, 0x0BE6, 0x0C66, 0x0CE6,
  0x0D66, 0x0DE6, 0x0E50, 0x0ED0, 0x0F20, 0x1040, 0x1090, 0x17E0, 0x1810, 0x1946, 0x19D0, 0x1A80,
  0x1A90, 0x1B50, 0x1BB0, 0x1C40, 0x1C50, 0xA620, 0xA8D0, 0xA900, 0xA9D0, 0xA9F0, 0xAA50, 0xABF0,
  0xFF10, 0x104A0, 0x10D30, 0x11066, 0x110F0, 0x11136, 0x111D0, 0x112F0, 0x11450, 0x114D0,
  0x11650, 0x116C0, 0x11730, 0x118E0, 0x11950, 0x11C50, 0x11D50, 0x11DA0, 0x16A60, 0x16AC0,
  0x16B50, 0x1D7CE, 0x1D7D8, 0x1D7E2, 0x1D7EC, 0x1D7F6, 0x1E140, 0x1E2F0, 0x1E950, 0x1FBF0]

/-- The value of a decimal digit of any script. -/
def value? (c : Char) : Option Nat :=
  (zeros.find? fun z => z ≤ c.toNat && c.toNat < z + 10).map (c.toNat - ·)

end Chip8.Digit

namespace Chip8.Integer

/-- Spaces and line breaks. Beside the ASCII ones these are the separators of the other scripts. -/
def isBlank (c : Char) : Bool :=
  let n := c.toNat
  n == 0x20 || (0x09 ≤ n && n ≤ 0x0D) || n == 0x85 || n == 0xA0 || n == 0x1680
  || (0x2000 ≤ n && n ≤ 0x200A) || n == 0x2028 || n == 0x2029 || n == 0x202F || n == 0x205F
  || n == 0x3000

def digitLimit : Nat := 4300

/-- Digits, most significant first; an underscore must stand between two of them. -/
def digits? : List Char → Option (List Nat)
  | [] => none
  | [c] => (Digit.value? c).map ([·])
  | c :: '_' :: rest => do return (← Digit.value? c) :: (← digits? rest)
  | c :: rest => do return (← Digit.value? c) :: (← digits? rest)

def ofDigits (ds : List Nat) : Nat := ds.foldl (fun n d => 10 * n + d) 0

def magnitude? (cs : List Char) : Option Nat :=
  match digits? cs with
  | some ds => if ds.length ≤ digitLimit then some (ofDigits ds) else none
  | none => none

def trim (cs : List Char) : List Char :=
  ((cs.dropWhile isBlank).reverse.dropWhile isBlank).reverse

def read? (s : String) : Option Int :=
  match trim s.toList with
  | '-' :: rest => (magnitude? rest).map fun n => -(n : Int)
  | '+' :: rest => (magnitude? rest).map Int.ofNat
  | cs => (magnitude? cs).map Int.ofNat

end Chip8.Integer
