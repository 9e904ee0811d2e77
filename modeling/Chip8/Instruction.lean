import Chip8.Bits

/-!
The instruction set. An instruction is one of 34 forms with its operands; `word` is the sixteen bit
word that stands for it. Some forms have an operand that plays no part in what they do; it is kept,
so that a word and its instruction determine each other.
-/

namespace Chip8

inductive Instruction where
  | clearScreen
  | ret
  | jump (address : Fin 4096)
  | call (address : Fin 4096)
  | skipEqByte (x : Nibble) (kk : UInt8)
  | skipNeByte (x : Nibble) (kk : UInt8)
  | skipEq (x y : Nibble)
  | loadByte (x : Nibble) (kk : UInt8)
  | addByte (x : Nibble) (kk : UInt8)
  | copy (x y : Nibble)
  | bitOr (x y : Nibble)
  | bitAnd (x y : Nibble)
  | bitXor (x y : Nibble)
  | add (x y : Nibble)
  | subtract (x y : Nibble)
  | shiftRight (x y : Nibble)
  | subtractFrom (x y : Nibble)
  | shiftLeft (x y : Nibble)
  | skipNe (x y : Nibble)
  | loadIndex (address : Fin 4096)
  | jumpOffset (address : Fin 4096)
  | random (x : Nibble) (kk : UInt8)
  | draw (x y n : Nibble)
  | skipDown (x : Nibble)
  | skipUp (x : Nibble)
  | readDelay (x : Nibble)
  | awaitKey (x : Nibble)
  | setDelay (x : Nibble)
  | setSound (x : Nibble)
  | addIndex (x : Nibble)
  | glyph (x : Nibble)
  | decimal (x : Nibble)
  | saveBlock (x : Nibble)
  | loadBlock (x : Nibble)
  deriving DecidableEq, Repr

namespace Instruction

def nibbles (a b c d : Nat) : Nat := 4096 * a + 256 * b + 16 * c + d

def word : Instruction → Nat
  | .clearScreen => 0x00E0
  | .ret => 0x00EE
  | .jump a => 0x1000 + a
  | .call a => 0x2000 + a
  | .skipEqByte x kk => 0x3000 + 256 * x + kk.toNat
  | .skipNeByte x kk => 0x4000 + 256 * x + kk.toNat
  | .skipEq x y => nibbles 5 x y 0
  | .loadByte x kk => 0x6000 + 256 * x + kk.toNat
  | .addByte x kk => 0x7000 + 256 * x + kk.toNat
  | .copy x y => nibbles 8 x y 0
  | .bitOr x y => nibbles 8 x y 1
  | .bitAnd x y => nibbles 8 x y 2
  | .bitXor x y => nibbles 8 x y 3
  | .add x y => nibbles 8 x y 4
  | .subtract x y => nibbles 8 x y 5
  | .shiftRight x y => nibbles 8 x y 6
  | .subtractFrom x y => nibbles 8 x y 7
  | .shiftLeft x y => nibbles 8 x y 0xE
  | .skipNe x y => nibbles 9 x y 0
  | .loadIndex a => 0xA000 + a
  | .jumpOffset a => 0xB000 + a
  | .random x kk => 0xC000 + 256 * x + kk.toNat
  | .draw x y n => nibbles 0xD x y n
  | .skipDown x => nibbles 0xE x 9 0xE
  | .skipUp x => nibbles 0xE x 0xA 1
  | .readDelay x => nibbles 0xF x 0 7
  | .awaitKey x => nibbles 0xF x 0 0xA
  | .setDelay x => nibbles 0xF x 1 5
  | .setSound x => nibbles 0xF x 1 8
  | .addIndex x => nibbles 0xF x 1 0xE
  | .glyph x => nibbles 0xF x 2 9
  | .decimal x => nibbles 0xF x 3 3
  | .saveBlock x => nibbles 0xF x 5 5
  | .loadBlock x => nibbles 0xF x 6 5

end Instruction

end Chip8
