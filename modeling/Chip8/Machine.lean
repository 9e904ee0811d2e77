import Chip8.Display
import Chip8.Keypad
import Chip8.Memory
import Chip8.Random
import Chip8.Registers

/-!
The complete machine state. `awaitingKey` is raised while an instruction waits for a key, and
`cycles` counts the steps that met no fault. `legacyStore` chooses whether the block transfers
leave the index register behind the block, and never changes.
-/

namespace Chip8

structure Machine where
  registers : Registers
  memory : Memory
  display : Display
  keypad : Keypad
  random : Random
  awaitingKey : Bool
  cycles : Nat
  legacyStore : Bool
  deriving DecidableEq

namespace Machine

def fresh (legacyStore : Bool) (seed : Int) : Machine where
  registers := Registers.initial
  memory := Memory.fresh
  display := Display.blank
  keypad := Keypad.released
  random := Random.ofSeed seed
  awaitingKey := false
  cycles := 0
  legacyStore := legacyStore

/-- An action on a part of the machine. What becomes of the part is put back, even if the action
fails. -/
def within {ε ρ α : Type} (part : Machine → ρ) (put : Machine → ρ → Machine)
    (act : EStateM ε ρ α) : EStateM ε Machine α := fun m =>
  match act (part m) with
  | .ok a p => .ok a (put m p)
  | .error e p => .error e (put m p)

def inMemory {ε α : Type} : EStateM ε Memory α → EStateM ε Machine α :=
  within (·.memory) fun m memory => { m with memory := memory }

def inRegisters {ε α : Type} : EStateM ε Registers α → EStateM ε Machine α :=
  within (·.registers) fun m registers => { m with registers := registers }

def load (m : Machine) (program : List UInt8) : EStateM.Result LoadError Machine Unit :=
  inMemory (Memory.load program) m

def tick (m : Machine) : Machine := { m with registers := m.registers.tickTimers }

def keyed (m : Machine) (op : KeyOp) : Machine := { m with keypad := m.keypad.apply op }

def v (m : Machine) (x : Nibble) : Int := m.registers.v.get x

def presented (m : Machine) : Machine := { m with display := { m.display with dirty := false } }

end Machine

end Chip8
