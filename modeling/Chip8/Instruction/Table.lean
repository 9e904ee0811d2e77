import Chip8.Instruction
import Chip8.Text.Numeral

/-!
The decode table. An entry accepts an opcode when the masked opcode is its pattern; opcodes are
arbitrary integers, of which the low sixteen bits count. Each entry has a text template for the
disassembly and builds the instruction from the operand fields. No opcode is accepted twice, so the
order of the entries has no meaning.
-/

namespace Chip8

structure Operands where
  address : Fin 4096
  n : Nibble
  x : Nibble
  y : Nibble
  kk : UInt8
  deriving DecidableEq, Repr

def lowWord (opcode : Int) : Nat := (opcode % 65536).toNat

def Operands.ofOpcode (opcode : Int) : Operands where
  address := Fin.ofNat 4096 (lowWord opcode)
  n := Fin.ofNat 16 (lowWord opcode)
  x := Fin.ofNat 16 (lowWord opcode / 256)
  y := Fin.ofNat 16 (lowWord opcode / 16)
  kk := UInt8.ofNat (lowWord opcode)

/-- A template is text with places for operands. -/
inductive Piece where
  | text (s : String)
  | address
  | n
  | x
  | y
  | kk
  deriving DecidableEq, Repr

namespace Piece

/-- Operands are written in hexadecimal, save for `n`. -/
def fill (o : Operands) : Piece → String
  | .text s => s
  | .address => Hex.text 3 o.address
  | .n => Nat.repr o.n
  | .x => Hex.text 1 o.x
  | .y => Hex.text 1 o.y
  | .kk => Hex.text 2 o.kk.toNat

/-- The written form of the template itself: name and width of each place stand in braces. -/
def pattern : Piece → String
  | .text s => s
  | .address => "\x7baddr:03X\x7d"
  | .n => "\x7bn\x7d"
  | .x => "\x7bx:X\x7d"
  | .y => "\x7by:X\x7d"
  | .kk => "\x7bkk:02X\x7d"

end Piece

structure Entry where
  mask : Nat
  pattern : Nat
  template : List Piece
  build : Operands → Instruction

namespace Entry

def accepts (e : Entry) (opcode : Int) : Bool := lowWord opcode &&& e.mask == e.pattern

def mnemonic (e : Entry) (o : Operands) : String :=
  String.join (e.template.map (Piece.fill o))

def templateText (e : Entry) : String :=
  String.join (e.template.map Piece.pattern)

end Entry

namespace Instruction

def onTwo (name : String) : List Piece := [.text (name ++ " V"), .x, .text ", V", .y]

def onByte (name : String) : List Piece := [.text (name ++ " V"), .x, .text ", 0x", .kk]

def onAddress (name : String) : List Piece := [.text (name ++ " 0x"), .address]

def onOne (head tail : String) : List Piece :=
  if tail = "" then [.text (head ++ " V"), .x] else [.text (head ++ " V"), .x, .text tail]

def table : List Entry := [
  ⟨0xFFFF, 0x00E0, [.text "CLS"], fun _ => .clearScreen⟩,
  ⟨0xFFFF, 0x00EE, [.text "RET"], fun _ => .ret⟩,
  ⟨0xF000, 0x1000, onAddress "JP", fun o => .jump o.address⟩,
  ⟨0xF000, 0x2000, onAddress "CALL", fun o => .call o.address⟩,
  ⟨0xF000, 0x3000, onByte "SE", fun o => .skipEqByte o.x o.kk⟩,
  ⟨0xF000, 0x4000, onByte "SNE", fun o => .skipNeByte o.x o.kk⟩,
  ⟨0xF00F, 0x5000, onTwo "SE", fun o => .skipEq o.x o.y⟩,
  ⟨0xF000, 0x6000, onByte "LD", fun o => .loadByte o.x o.kk⟩,
  ⟨0xF000, 0x7000, onByte "ADD", fun o => .addByte o.x o.kk⟩,
  ⟨0xF00F, 0x8000, onTwo "LD", fun o => .copy o.x o.y⟩,
  ⟨0xF00F, 0x8001, onTwo "OR", fun o => .bitOr o.x o.y⟩,
  ⟨0xF00F, 0x8002, onTwo "AND", fun o => .bitAnd o.x o.y⟩,
  ⟨0xF00F, 0x8003, onTwo "XOR", fun o => .bitXor o.x o.y⟩,
  ⟨0xF00F, 0x8004, onTwo "ADD", fun o => .add o.x o.y⟩,
  ⟨0xF00F, 0x8005, onTwo "SUB", fun o => .subtract o.x o.y⟩,
  ⟨0xF00F, 0x8006, onOne "SHR" "", fun o => .shiftRight o.x o.y⟩,
  ⟨0xF00F, 0x8007, onTwo "SUBN", fun o => .subtractFrom o.x o.y⟩,
  ⟨0xF00F, 0x800E, onOne "SHL" "", fun o => .shiftLeft o.x o.y⟩,
  ⟨0xF00F, 0x9000, onTwo "SNE", fun o => .skipNe o.x o.y⟩,
  ⟨0xF000, 0xA000, onAddress "LD I,", fun o => .loadIndex o.address⟩,
  ⟨0xF000, 0xB000, onAddress "JP V0,", fun o => .jumpOffset o.address⟩,
  ⟨0xF000, 0xC000, onByte "RND", fun o => .random o.x o.kk⟩,
  ⟨0xF000, 0xD000, onTwo "DRW" ++ [.text ", ", .n], fun o => .draw o.x o.y o.n⟩,
  ⟨0xF0FF, 0xE09E, onOne "SKP" "", fun o => .skipDown o.x⟩,
  ⟨0xF0FF, 0xE0A1, onOne "SKNP" "", fun o => .skipUp o.x⟩,
  ⟨0xF0FF, 0xF007, onOne "LD" ", DT", fun o => .readDelay o.x⟩,
  ⟨0xF0FF, 0xF00A, onOne "LD" ", K", fun o => .awaitKey o.x⟩,
  ⟨0xF0FF, 0xF015, onOne "LD DT," "", fun o => .setDelay o.x⟩,
  ⟨0xF0FF, 0xF018, onOne "LD ST," "", fun o => .setSound o.x⟩,
  ⟨0xF0FF, 0xF01E, onOne "ADD I," "", fun o => .addIndex o.x⟩,
  ⟨0xF0FF, 0xF029, onOne "LD F," "", fun o => .glyph o.x⟩,
  ⟨0xF0FF, 0xF033, onOne "LD B," "", fun o => .decimal o.x⟩,
  ⟨0xF0FF, 0xF055, onOne "LD [I]," "", fun o => .saveBlock o.x⟩,
  ⟨0xF0FF, 0xF065, onOne "LD" ", [I]", fun o => .loadBlock o.x⟩]

def lookupIn (entries : List Entry) (opcode : Int) : Option Entry :=
  entries.find? (·.accepts opcode)

def lookup (opcode : Int) : Option Entry := lookupIn table opcode

def decode? (opcode : Int) : Option Instruction :=
  (lookup opcode).map fun e => e.build (Operands.ofOpcode opcode)

def disassemble (opcode : Int) : String :=
  match lookup opcode with
  | none => "???"
  | some e => e.mnemonic (Operands.ofOpcode opcode)

end Instruction

end Chip8
