/-!
The screen of 64 by 32 cells, one byte each. Zero is dark and anything else is lit. Coordinates
are arbitrary integers and wrap around both edges. `dirty` is raised by every operation that may
change the picture and is lowered by whoever presents it.
-/

namespace Chip8

structure Display where
  cells : Vector UInt8 2048
  dirty : Bool
  deriving DecidableEq

namespace Display

def width : Nat := 64
def height : Nat := 32
def lit : UInt8 := 0xFF
def dark : UInt8 := 0

def blank : Display := ⟨Vector.replicate 2048 dark, true⟩

def index (x y : Int) : Fin 2048 :=
  ⟨((y % 32) * 64 + x % 64).toNat, by omega⟩

def get (d : Display) (x y : Int) : UInt8 := d.cells.get (index x y)

def isOn (d : Display) (x y : Int) : Bool := d.get x y != dark

def set (d : Display) (x y value : Int) : Display :=
  ⟨d.cells.set (index x y) (UInt8.ofInt value), true⟩

def clear (_ : Display) : Display := blank

/-- The columns of the set bits of one sprite row, counted from its leftmost bit. -/
def columns (row : UInt8) : List Nat :=
  (List.range 8).filter fun c => row.toNat.testBit (7 - c)

/-- The cells that a sprite falls on, one entry for each of its set bits. -/
def stamps (x y : Int) (rows : List UInt8) : List (Fin 2048) :=
  rows.zipIdx.flatMap fun (row, r) => (columns row).map fun (c : Nat) => index (x + c) (y + r)

/-- Flips cells one after the other; the flag rises when a fully lit cell is switched off. -/
def flipAll (cells : Vector UInt8 2048) (hit : Bool) : List (Fin 2048) → Vector UInt8 2048 × Bool
  | [] => (cells, hit)
  | k :: rest => flipAll (cells.set k (cells.get k ^^^ lit)) (hit || cells.get k == lit) rest

def draw (d : Display) (x y : Int) (rows : List UInt8) : Display × Bool :=
  let (cells, hit) := flipAll d.cells false (stamps x y rows)
  (⟨cells, true⟩, hit)

def toBytes (d : Display) : List UInt8 := d.cells.toList

def rows (d : Display) : List (List UInt8) :=
  (List.range height).map fun y => (d.toBytes.drop (y * width)).take width

/-- The rows turned into columns, so that the first index runs along the width. -/
def toColumns (d : Display) : List (List UInt8) :=
  let rows := d.rows
  (List.range width).map fun x => rows.map fun row => row.getD x dark

def line (d : Display) (y : Nat) : String :=
  String.ofList <| (List.range width).map fun (x : Nat) => if d.isOn x y then '#' else '.'

def text (d : Display) : String :=
  "\n".intercalate <| (List.range height).map d.line

end Display

inductive DisplayOp where
  | set (x y value : Int)
  | clear
  | draw (x y : Int) (rows : List UInt8)
  deriving DecidableEq, Repr

def Display.apply (d : Display) : DisplayOp → Display
  | .set x y value => d.set x y value
  | .clear => d.clear
  | .draw x y rows => (d.draw x y rows).1

end Chip8
