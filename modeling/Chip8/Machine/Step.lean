import Chip8.Bits
import Chip8.Instruction.Table
import Chip8.Log
import Chip8.Machine

/-!
One step: fetch the word at the program counter, decode it, and carry it out. An instruction is an
action on the machine that ends in a fault or without one, and gives the machine back in either case.
A step that is begun lowers `awaitingKey` first.
-/

namespace Chip8

inductive Progress where
  | executed
  | awaitingKey
  deriving DecidableEq, Repr

inductive Note where
  | begins (pc : Int) (opcode : Nat)
  | waits (pc : Int)
  deriving DecidableEq, Repr

def Note.line : Note → LogLine
  | .begins pc opcode =>
    .debug (Hex.text 3 pc ++ ": " ++ Hex.text 4 opcode ++ "  " ++ Instruction.disassemble opcode)
  | .waits pc => .debug ("Waiting for key press at " ++ Hex.text 3 pc)

structure Report where
  outcome : Except Fault Progress
  notes : List Note

structure Step where
  report : Report
  machine : Machine

namespace Machine

def jump (m : Machine) (address : Int) : Machine :=
  { m with registers := { m.registers with pc := address } }

def advance (m : Machine) : Machine := m.jump (m.registers.pc + 2)

def skipIf (m : Machine) (condition : Bool) : Machine :=
  if condition then m.jump (m.registers.pc + 4) else m.advance

def setV (m : Machine) (x : Nibble) (value : Int) : Machine :=
  { m with registers := m.registers.setV x value }

def setFlagged (m : Machine) (x : Nibble) (value f : Int) : Machine :=
  { m with registers := m.registers.setFlagged x value f }

def setIndex (m : Machine) (value : Int) : Machine :=
  { m with registers := { m.registers with i := value } }

def combine (m : Machine) (x y : Nibble) (f : Int → Int → Int) : Machine :=
  m.setV x (f (m.v x) (m.v y))

def keyDown (m : Machine) (x : Nibble) : Bool := m.keypad.isDown (m.v x % 16)

def fillV (v : Vector Int 16) (k : Nat) : List UInt8 → Vector Int 16
  | [] => v
  | b :: rest => fillV (v.setIfInBounds k b.toNat) (k + 1) rest

/-- After a block transfer the index register stays or moves behind the block. -/
def passBlock (m : Machine) (x : Nibble) : Machine :=
  if m.legacyStore then m.setIndex ((m.registers.i + x + 1) % 65536) else m

def decimalDigits (value : Int) : List Int := [value / 100, value / 10 % 10, value % 10]

def handle : Instruction → EStateM Fault Machine Unit
  | .clearScreen => modify fun m => { m with display := m.display.clear }.advance
  | .ret => do
    let address ← inRegisters Registers.pop
    modify (·.jump (address + 2))
  | .jump address => modify (·.jump address)
  | .call address => do
    let m ← get
    inRegisters (Registers.push m.registers.pc)
    modify (·.jump address)
  | .skipEqByte x kk => modify fun m => m.skipIf (m.v x == kk.toNat)
  | .skipNeByte x kk => modify fun m => m.skipIf (m.v x != kk.toNat)
  | .skipEq x y => modify fun m => m.skipIf (m.v x == m.v y)
  | .loadByte x kk => modify fun m => (m.setV x kk.toNat).advance
  | .addByte x kk => modify fun m => (m.setV x ((m.v x + kk.toNat) % 256)).advance
  | .copy x y => modify fun m => (m.setV x (m.v y)).advance
  | .bitOr x y => modify fun m => (m.combine x y Bits.or).advance
  | .bitAnd x y => modify fun m => (m.combine x y Bits.and).advance
  | .bitXor x y => modify fun m => (m.combine x y Bits.xor).advance
  | .add x y => modify fun m =>
    let total := m.v x + m.v y
    (m.setFlagged x total (if total > 255 then 1 else 0)).advance
  | .subtract x y => modify fun m =>
    (m.setFlagged x (m.v x - m.v y) (if m.v x ≥ m.v y then 1 else 0)).advance
  | .shiftRight x _ => modify fun m => (m.setFlagged x (m.v x / 2) (m.v x % 2)).advance
  | .subtractFrom x y => modify fun m =>
    (m.setFlagged x (m.v y - m.v x) (if m.v y ≥ m.v x then 1 else 0)).advance
  | .shiftLeft x _ => modify fun m => (m.setFlagged x (2 * m.v x) (m.v x / 128 % 2)).advance
  | .skipNe x y => modify fun m => m.skipIf (m.v x != m.v y)
  | .loadIndex address => modify fun m => (m.setIndex address).advance
  | .jumpOffset address => modify fun m => m.jump (address + m.v Registers.base)
  | .random x kk => modify fun m =>
    let (random, b) := m.random.nextByte
    ({ m with random := random }.setV x (b &&& kk).toNat).advance
  | .draw x y n => do
    let m ← get
    let rows ← MonadExcept.ofExcept (m.memory.readBlock m.registers.i n)
    let (display, hit) := m.display.draw (m.v x) (m.v y) rows
    set ({ m with display := display }.setV Registers.flag (if hit then 1 else 0)).advance
  | .skipDown x => modify fun m => m.skipIf (m.keyDown x)
  | .skipUp x => modify fun m => m.skipIf (!m.keyDown x)
  | .readDelay x => modify fun m => (m.setV x m.registers.delay).advance
  | .awaitKey x => modify fun m =>
    match m.keypad.latched with
    | none => { m with awaitingKey := true }
    | some k => ({ m with keypad := m.keypad.clearLatch }.setV x k).advance
  | .setDelay x => modify fun m =>
    { m with registers := { m.registers with delay := m.v x } }.advance
  | .setSound x => modify fun m =>
    { m with registers := { m.registers with sound := m.v x } }.advance
  | .addIndex x => modify fun m => (m.setIndex ((m.registers.i + m.v x) % 65536)).advance
  | .glyph x => modify fun m => (m.setIndex (Font.address + Font.glyphSize * m.v x)).advance
  | .decimal x => do
    let m ← get
    inMemory (Memory.writeBlock m.registers.i (decimalDigits (m.v x)))
    modify advance
  | .saveBlock x => do
    let m ← get
    inMemory (Memory.writeBlock m.registers.i (m.registers.v.toList.take (x + 1)))
    modify fun m => (m.passBlock x).advance
  | .loadBlock x => do
    let m ← get
    let bs ← MonadExcept.ofExcept (m.memory.readBlock m.registers.i (x + 1))
    let r := { m.registers with v := fillV m.registers.v 0 bs }
    set ({ m with registers := r }.passBlock x).advance

def execute (m : Machine) (i : Instruction) : EStateM.Result Fault Machine Unit := handle i m

/-- An instruction that waits is begun once, however many steps it stalls. -/
def step (m : Machine) : Step :=
  let pc := m.registers.pc
  match m.memory.fetch pc with
  | .error fault => ⟨⟨.error fault, []⟩, m⟩
  | .ok opcode =>
    match Instruction.decode? opcode with
    | none => ⟨⟨.error (.unknownInstruction opcode pc), []⟩, m⟩
    | some instruction =>
      let begins := if m.awaitingKey then [] else [Note.begins pc opcode]
      let ready := { m with awaitingKey := false }
      match ready.execute instruction with
      | .error fault left => ⟨⟨.error fault, begins⟩, left⟩
      | .ok _ after =>
        let after := { after with cycles := after.cycles + 1 }
        if after.awaitingKey then
          let waits := if m.awaitingKey then [] else [Note.waits pc]
          ⟨⟨.ok .awaitingKey, begins ++ waits⟩, after⟩
        else ⟨⟨.ok .executed, begins⟩, after⟩

/-- Steps until the budget is used up, a key is awaited, or a fault is met. -/
def burst (m : Machine) : Nat → List Report × Machine
  | 0 => ([], m)
  | n + 1 =>
    let ⟨report, after⟩ := m.step
    match report.outcome with
    | .ok .executed =>
      let (reports, last) := after.burst n
      (report :: reports, last)
    | _ => ([report], after)

end Machine

end Chip8
