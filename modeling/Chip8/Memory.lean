import Chip8.Fault

/-!
The flat store of 4096 bytes. The font lies at its start and programs are placed at `0x200`.
Addresses and values given by callers are arbitrary integers: values are reduced to their low
eight bits, and an access that leaves the store is refused before anything is written.
-/

namespace Chip8

namespace Font

def address : Nat := 0
def glyphSize : Nat := 5

def bytes : List UInt8 :=
  [0xF0, 0x90, 0x90, 0x90, 0xF0,
   0x20, 0x60, 0x20, 0x20, 0x70,
   0xF0, 0x10, 0xF0, 0x80, 0xF0,
   0xF0, 0x10, 0xF0, 0x10, 0xF0,
   0x90, 0x90, 0xF0, 0x10, 0x10,
   0xF0, 0x80, 0xF0, 0x10, 0xF0,
   0xF0, 0x80, 0xF0, 0x90, 0xF0,
   0xF0, 0x10, 0x20, 0x40, 0x40,
   0xF0, 0x90, 0xF0, 0x90, 0xF0,
   0xF0, 0x90, 0xF0, 0x10, 0xF0,
   0xF0, 0x90, 0xF0, 0x90, 0x90,
   0xE0, 0x90, 0xE0, 0x90, 0xE0,
   0xF0, 0x80, 0x80, 0x80, 0xF0,
   0xE0, 0x90, 0x90, 0x90, 0xE0,
   0xF0, 0x80, 0xF0, 0x80, 0xF0,
   0xF0, 0x80, 0xF0, 0x80, 0x80]

end Font

structure Memory where
  bytes : Vector UInt8 4096
  deriving DecidableEq

namespace Memory

def size : Nat := 4096
def programStart : Nat := 0x200
def programLimit : Nat := size - programStart

/-- The byte at an address; there are only zeros past the end. -/
def byte (m : Memory) (address : Nat) : UInt8 :=
  m.bytes[address]?.getD 0

/-- Places consecutive bytes from an address on; what would lie past the end is dropped. -/
def put (m : Memory) (address : Nat) : List UInt8 → Memory
  | [] => m
  | b :: rest => put ⟨m.bytes.setIfInBounds address b⟩ (address + 1) rest

theorem byte_put (m : Memory) (address : Nat) (bs : List UInt8) (a : Nat) :
    (m.put address bs).byte a =
      if address ≤ a ∧ a < address + bs.length ∧ a < 4096 then bs.getD (a - address) 0
      else m.byte a := by
  induction bs generalizing m address with
  | nil =>
    have : ¬ (address ≤ a ∧ a < address + 0 ∧ a < 4096) := by omega
    simp [put]; intros; omega
  | cons b rest ih =>
    rw [put, ih]
    simp only [byte, Vector.getElem?_setIfInBounds, List.length_cons]
    by_cases e : address = a
    · subst e
      have : ¬ (address + 1 ≤ address ∧ address < address + 1 + rest.length ∧ address < 4096) := by
        omega
      rw [if_neg this]
      by_cases h : address < 4096 <;> simp [h]
    · have step : a - address = a - (address + 1) + 1 ∨ a < address := by omega
      rcases step with step | step
      · rw [step]
        by_cases h : address + 1 ≤ a ∧ a < address + 1 + rest.length ∧ a < 4096
        · have : address ≤ a ∧ a < address + (rest.length + 1) ∧ a < 4096 := by omega
          simp [h, this]
        · have : ¬ (address ≤ a ∧ a < address + (rest.length + 1) ∧ a < 4096) := by omega
          rw [if_neg h, if_neg this]; simp [e]
      · have h : ¬ (address + 1 ≤ a ∧ a < address + 1 + rest.length ∧ a < 4096) := by omega
        have : ¬ (address ≤ a ∧ a < address + (rest.length + 1) ∧ a < 4096) := by omega
        rw [if_neg h, if_neg this]; simp [e]

def fresh : Memory :=
  put ⟨Vector.replicate 4096 0⟩ Font.address Font.bytes

def load (program : List UInt8) : EStateM LoadError Memory Unit :=
  if programLimit < program.length then
    throw (.tooLarge program.length programLimit none)
  else
    modify (·.put programStart program)

/-- An access from `address` to `address + length` stays inside when its start is not below zero and
its end is not past the end of the store; otherwise this is the first byte outside. -/
def firstOutside? (address length : Int) : Option Int :=
  if address < 0 ∨ 4096 < address + length then
    some (if address < 0 ∨ 4096 ≤ address then address else 4096)
  else none

def check (use : Access) (address length : Int) : Except Fault Unit :=
  match firstOutside? address length with
  | some outside => .error (.memory use outside)
  | none => .ok ()

def fetch (m : Memory) (address : Int) : Except Fault Nat := do
  check .fetch address 2
  return 256 * (m.byte address.toNat).toNat + (m.byte (address.toNat + 1)).toNat

def read (m : Memory) (address : Int) : Except Fault UInt8 := do
  check .data address 1
  return m.byte address.toNat

/-- The end of a block is a position of its own: one below zero counts back from the end of the
store, as far as its start. -/
def blockEnd (address length : Int) : Int :=
  let stop := address + length
  if stop < 0 then stop + 4096 else stop

def readBlock (m : Memory) (address length : Int) : Except Fault (List UInt8) := do
  check .data address length
  let start := address.toNat
  return (List.range ((blockEnd address length).toNat - start)).map fun k => m.byte (start + k)

def write (address value : Int) : EStateM Fault Memory Unit := do
  MonadExcept.ofExcept (check .data address 1)
  modify (·.put address.toNat [UInt8.ofInt value])

def writeBlock (address : Int) (values : List Int) : EStateM Fault Memory Unit := do
  MonadExcept.ofExcept (check .data address values.length)
  modify (·.put address.toNat (values.map UInt8.ofInt))

end Memory

end Chip8
