import Chip8.Proofs.Machine.Account
import Chip8.Proofs.Machine.RegisterEffect

/-!
# Arithmetic with a flag

Five instructions leave a byte and a flag that together say exactly what they computed. The operands
are read before anything is written, and the flag is written last: so the flag is right whichever
registers are named, and the byte is lost only where the flag takes its place.
-/
namespace Chip8

inductive Flagged where
  | add
  | subtract
  | subtractFrom
  | shiftRight
  | shiftLeft
  deriving DecidableEq, Repr

namespace Flagged

def digit : Flagged → Nat
  | .add => 0x4
  | .subtract => 0x5
  | .subtractFrom => 0x7
  | .shiftRight => 0x6
  | .shiftLeft => 0xE

def instruction (x y : Nibble) : Flagged → Instruction
  | .add => .add x y
  | .subtract => .subtract x y
  | .subtractFrom => .subtractFrom x y
  | .shiftRight => .shiftRight x y
  | .shiftLeft => .shiftLeft x y

/-- What a byte `r` and a flag `f` say exactly of the operands `a` and `b`. A borrow is reported by
a flag of zero. -/
def Exact (a b r f : Int) : Flagged → Prop
  | .add => r + 256 * f = a + b
  | .subtract => r = a - b + 256 * (1 - f)
  | .subtractFrom => r = b - a + 256 * (1 - f)
  | .shiftRight => 2 * r + f = a
  | .shiftLeft => r + 256 * f = 2 * a

def value (a b : Int) : Flagged → Int
  | .add => a + b
  | .subtract => a - b
  | .subtractFrom => b - a
  | .shiftRight => a / 2
  | .shiftLeft => 2 * a

def carry (a b : Int) : Flagged → Int
  | .add => if a + b > 255 then 1 else 0
  | .subtract => if a ≥ b then 1 else 0
  | .subtractFrom => if b ≥ a then 1 else 0
  | .shiftRight => a % 2
  | .shiftLeft => a / 128 % 2

variable {a b : Int}

theorem carry_bit (op : Flagged) (a b : Int) : op.carry a b = 0 ∨ op.carry a b = 1 := by
  cases op with
  | add | subtract | subtractFrom =>
    simp only [carry]
    split
    · exact Or.inr rfl
    · exact Or.inl rfl
  | shiftRight | shiftLeft =>
    simp only [carry]
    omega

theorem exact_value (op : Flagged) (ha : 0 ≤ a ∧ a ≤ 255) (hb : 0 ≤ b ∧ b ≤ 255) :
    op.Exact a b (op.value a b % 256) (op.carry a b) := by
  cases op with
  | add | subtract | subtractFrom =>
    simp only [Exact, value, carry]
    split <;> omega
  | shiftRight | shiftLeft =>
    simp only [Exact, value, carry]
    omega

end Flagged

namespace Machine

variable {m : Machine} {x y : Nibble}

theorem execute_flagged (m : Machine) (op : Flagged) (x y : Nibble) :
    m.execute (op.instruction x y) =
      .ok () (m.setFlagged x (op.value (m.v x) (m.v y)) (op.carry (m.v x) (m.v y))).advance := by
  cases op with
  | add | subtract | subtractFrom | shiftRight | shiftLeft => rfl

theorem step_flagged (op : Flagged)
    (hw : m.memory.fetch m.registers.pc = .ok (Instruction.nibbles 8 x y op.digit)) :
    m.step.report.outcome = .ok .executed ∧
      m.step.machine = (m.begun.setFlagged x (op.value (m.v x) (m.v y))
        (op.carry (m.v x) (m.v y))).advance.counted := by
  have hword : (op.instruction x y).word = Instruction.nibbles 8 x y op.digit := by
    cases op with
    | add | subtract | subtractFrom | shiftRight | shiftLeft => rfl
  rw [← hword] at hw
  rw [step_completed hw (Instruction.decode_word _) (m.begun.execute_flagged op x y)]
  exact ⟨rfl, rfl⟩

/-- The words `8xy4`, `8xy5`, `8xy7`, `8xy6` and `8xyE` never fault. They leave an exact byte and
flag, computed from the registers as they were, whichever of `x`, `y` and the flag are the same
register. The flag is always left, and the byte where it is not overwritten by the flag; all the
other registers are as before. -/
theorem flagged_arithmetic (h : m.WellFormed) (op : Flagged) (x y : Nibble)
    (hw : m.memory.fetch m.registers.pc = .ok (Instruction.nibbles 8 x y op.digit)) :
    m.step.report.outcome = .ok .executed ∧
    ∃ r f : Int, (0 ≤ r ∧ r ≤ 255) ∧ (f = 0 ∨ f = 1) ∧ op.Exact (m.v x) (m.v y) r f ∧
      m.step.machine.v Registers.flag = f ∧
      (x ≠ Registers.flag → m.step.machine.v x = r) ∧
      (∀ z, z ≠ x → z ≠ Registers.flag → m.step.machine.v z = m.v z) ∧
      m.step.machine.registers = { m.registers with
        v := m.step.machine.registers.v
        pc := m.registers.pc + 2 } := by
  obtain ⟨hout, hs⟩ := step_flagged op hw
  refine ⟨hout, op.value (m.v x) (m.v y) % 256, op.carry (m.v x) (m.v y), ?_, op.carry_bit _ _,
    op.exact_value (h.v_byte x) (h.v_byte y), ?_⟩
  · omega
  · rw [hs]
    refine ⟨m.begun.v_setFlagged_flag x _ _, ?_, ?_, rfl⟩
    · intro hx
      exact m.begun.v_setFlagged_self hx _ _
    · intro z hz hf
      exact m.begun.v_setFlagged_of_ne hz hf _ _

/-- The flag register is added to itself: the carry takes the place of the sum. -/
theorem flagged_arithmetic_on_flag :
    let m : Machine := { fresh false 0 with
      memory := Memory.fresh.put 0x200 [0x8F, 0xF4]
      registers := Registers.initial.setV Registers.flag 200 }
    m.WellFormed ∧ m.v Registers.flag = 200 ∧ m.step.machine.v Registers.flag = 1 := by
  intro m
  have hbytes : ∀ z, 0 ≤ m.v z ∧ m.v z ≤ 255 := by decide +kernel
  have hm : m.WellFormed := by
    constructor
    · exact hbytes
    all_goals decide +kernel
  have hv : m.v Registers.flag = 200 := by decide +kernel
  have hp : m.pending? = some (.add Registers.flag Registers.flag) := by decide +kernel
  obtain ⟨-, r, f, hr, -, hexact, hflag, -⟩ :=
    flagged_arithmetic hm .add Registers.flag Registers.flag (pending?_eq_some_iff.mp hp)
  refine ⟨hm, hv, ?_⟩
  rw [hflag]
  simp only [Flagged.Exact, hv] at hexact
  omega

end Machine

end Chip8
