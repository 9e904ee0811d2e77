/-!
Numbers by their bits. Registers, keys and stack slots are numbered by four bits, and a long word has
64. The bitwise operations are for integers of any size: a negative number is read in two's
complement without an end, so its bits are those of `-z - 1`, turned over, and each operation on signs
comes down to one on natural numbers.
-/

namespace Chip8

abbrev Nibble := Fin 16

def Nibble.ofInt (z : Int) : Nibble := ⟨(z % 16).toNat, by omega⟩

def Word.fitsLong (z : Int) : Bool := -0x8000000000000000 ≤ z && z < 0x8000000000000000

namespace Bits

/-- The bits of the first number that the second does not have. -/
def without (m n : Nat) : Nat := m ^^^ (m &&& n)

def or : Int → Int → Int
  | .ofNat m, .ofNat n => .ofNat (m ||| n)
  | .ofNat m, .negSucc n => .negSucc (without n m)
  | .negSucc m, .ofNat n => .negSucc (without m n)
  | .negSucc m, .negSucc n => .negSucc (m &&& n)

def and : Int → Int → Int
  | .ofNat m, .ofNat n => .ofNat (m &&& n)
  | .ofNat m, .negSucc n => .ofNat (without m n)
  | .negSucc m, .ofNat n => .ofNat (without n m)
  | .negSucc m, .negSucc n => .negSucc (m ||| n)

def xor : Int → Int → Int
  | .ofNat m, .ofNat n => .ofNat (m ^^^ n)
  | .ofNat m, .negSucc n => .negSucc (m ^^^ n)
  | .negSucc m, .ofNat n => .negSucc (m ^^^ n)
  | .negSucc m, .negSucc n => .ofNat (m ^^^ n)

end Bits

end Chip8
