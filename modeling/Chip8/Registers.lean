import Chip8.Fault
import Chip8.Bits

/-!
The register file: sixteen data registers, the index register, the program counter, the call
stack and the two timers. Every register holds an arbitrary integer; the instructions keep them in
range, and that is a theorem about runs rather than a property of the type.
-/

namespace Chip8

def monus (value : Int) (amount : Int := 1) : Int :=
  if value > amount then value - amount else 0

structure Registers where
  v : Vector Int 16
  i : Int
  pc : Int
  sp : Int
  stack : Vector Int 16
  delay : Int
  sound : Int
  deriving DecidableEq

namespace Registers

def count : Nat := 16
def stackDepth : Nat := 16

def flag : Nibble := ⟨15, by decide⟩

def base : Nibble := ⟨0, by decide⟩

def initial : Registers where
  v := Vector.replicate 16 0
  i := 0
  pc := 0x200
  sp := 0
  stack := Vector.replicate 16 0
  delay := 0
  sound := 0

/-- The one of sixteen places that a position names. Negative positions count from the end, and
what is further out than the first or the last place names none. -/
def slot? (position : Int) : Option Nibble :=
  if -16 ≤ position ∧ position < 16 then some (Nibble.ofInt position) else none

def push (address : Int) : EStateM Fault Registers Unit := do
  let r ← get
  if r.sp ≥ 16 then throw (.stackOverflow r.pc)
  else
    match slot? r.sp with
    | none => throw (.noSlot .push r.sp)
    | some k => set { r with stack := r.stack.set k address, sp := r.sp + 1 }

/-- The stack pointer is lowered before the slot is looked for, and the entry stays behind in it. -/
def pop : EStateM Fault Registers Int := do
  let r ← get
  if r.sp = 0 then throw (.stackUnderflow r.pc)
  else
    set { r with sp := r.sp - 1 }
    match slot? (r.sp - 1) with
    | none => throw (.noSlot .pop (r.sp - 1))
    | some k => return r.stack.get k

def setV (r : Registers) (x : Nibble) (value : Int) : Registers :=
  { r with v := r.v.set x value }

/-- The result is stored first and reduced to a byte, so a flag wins over it. -/
def setFlagged (r : Registers) (x : Nibble) (value : Int) (f : Int) : Registers :=
  (r.setV x (value % 256)).setV flag f

def tickTimers (r : Registers) : Registers :=
  { r with delay := monus r.delay, sound := monus r.sound }

def dumpLines (r : Registers) : List String :=
  (r.v.toList.zipIdx.map fun (value, x) =>
    "V" ++ Hex.text 1 x ++ ": 0x" ++ Hex.text 2 value)
  ++ ["PC: 0x" ++ Hex.text 4 r.pc, "I : 0x" ++ Hex.text 4 r.i, "SP: 0x" ++ Hex.text 2 r.sp]

def dump (r : Registers) : String := "\n".intercalate r.dumpLines

end Registers

end Chip8
