import Chip8.Proofs.Machine.Execution
import Chip8.Proofs.Vector

/-!
# What an instruction does to the registers

Calls and returns move the stack, two instructions set a timer, and all the others work on the data
registers, the index register and the program counter alone.
-/
namespace Chip8

def Instruction.isWork : Instruction → Bool
  | .call _ | .ret | .setDelay _ | .setSound _ => false
  | _ => true

namespace Machine

variable {m m' : Machine} {i : Instruction}

section DataRegisters

variable {x z : Nibble}

theorem v_setV_self (m : Machine) (x : Nibble) (value : Int) : (m.setV x value).v x = value :=
  (get_set m.registers.v x x value).trans (if_pos rfl)

theorem v_setV_of_ne (m : Machine) (h : z ≠ x) (value : Int) : (m.setV x value).v z = m.v z :=
  (get_set m.registers.v x z value).trans (if_neg h.symm)

/-- The flag is written last. -/
theorem v_setFlagged_flag (m : Machine) (x : Nibble) (value f : Int) :
    (m.setFlagged x value f).v Registers.flag = f :=
  (m.setV x (value % 256)).v_setV_self Registers.flag f

theorem v_setFlagged_self (m : Machine) (h : x ≠ Registers.flag) (value f : Int) :
    (m.setFlagged x value f).v x = value % 256 :=
  ((m.setV x (value % 256)).v_setV_of_ne h f).trans (m.v_setV_self x (value % 256))

theorem v_setFlagged_of_ne (m : Machine) (h : z ≠ x) (h' : z ≠ Registers.flag) (value f : Int) :
    (m.setFlagged x value f).v z = m.v z :=
  ((m.setV x (value % 256)).v_setV_of_ne h' f).trans (m.v_setV_of_ne h (value % 256))

end DataRegisters

inductive RegisterEffect (r : Registers) : Instruction → Registers → Prop where
  | called (a : Fin 4096) : RegisterEffect r (.call a) { r with
      stack := r.stack.set (Nibble.ofInt r.sp) r.pc (Nibble.ofInt r.sp).isLt, sp := r.sp + 1,
      pc := a }
  | returned : RegisterEffect r .ret { r with
      sp := r.sp - 1, pc := r.stack.get (Nibble.ofInt (r.sp - 1)) + 2 }
  | delaySet (x : Nibble) :
      RegisterEffect r (.setDelay x) { r with delay := r.v.get x, pc := r.pc + 2 }
  | soundSet (x : Nibble) :
      RegisterEffect r (.setSound x) { r with sound := r.v.get x, pc := r.pc + 2 }
  | worked {i : Instruction} (hi : i.isWork = true) (v : Vector Int 16) (index pc : Int) :
      RegisterEffect r i { r with v := v, i := index, pc := pc }

namespace RegisterEffect

variable {r r' : Registers}

theorem call {a : Fin 4096} (he : RegisterEffect r (.call a) r') :
    r'.sp = r.sp + 1 ∧
      r'.stack = r.stack.set (Nibble.ofInt r.sp) r.pc (Nibble.ofInt r.sp).isLt ∧ r'.pc = a := by
  cases he with
  | called => exact ⟨rfl, rfl, rfl⟩
  | worked hi => cases hi

theorem ret (he : RegisterEffect r .ret r') :
    r'.sp = r.sp - 1 ∧ r'.stack = r.stack ∧
      r'.pc = r.stack.get (Nibble.ofInt (r.sp - 1)) + 2 := by
  cases he with
  | returned => exact ⟨rfl, rfl, rfl⟩
  | worked hi => cases hi

theorem stack (he : RegisterEffect r i r') (hret : i ≠ .ret) (hcall : ∀ a, i ≠ .call a) :
    r'.sp = r.sp ∧ r'.stack = r.stack := by
  cases he with
  | called a => exact absurd rfl (hcall a)
  | returned => exact absurd rfl hret
  | delaySet => exact ⟨rfl, rfl⟩
  | soundSet => exact ⟨rfl, rfl⟩
  | worked => exact ⟨rfl, rfl⟩

end RegisterEffect

theorem registerEffect_of_execute (h : 0 ≤ m.registers.sp) (h' : m.registers.sp ≤ 16)
    (hx : m.execute i = .ok () m') : RegisterEffect m.registers i m'.registers := by
  have hc := obstacle_eq_none_of_ok hx
  cases i with
  | call a =>
    have hroom : ¬ 16 ≤ m.registers.sp := by simpa [obstacle_call] using hc
    rw [execute_call a h (by omega)] at hx
    cases hx
    exact .called a
  | ret =>
    have hentry : m.registers.sp ≠ 0 := by simpa [obstacle_ret] using hc
    rw [execute_ret (by omega) h'] at hx
    cases hx
    exact .returned
  | setDelay x =>
    cases hx
    exact .delaySet x
  | setSound x =>
    cases hx
    exact .soundSet x
  | draw | decimal | saveBlock | loadBlock =>
    rw [execute_of_block rfl hc] at hx
    cases hx
    exact .worked rfl _ _ _
  | random x kk =>
    rw [execute_random] at hx
    cases hx
    exact .worked rfl _ _ _
  | awaitKey x =>
    cases hl : m.keypad.latched with
    | none =>
      rw [execute_awaitKey_none x hl] at hx
      cases hx
      exact .worked rfl _ _ _
    | some k =>
      rw [execute_awaitKey_some x hl] at hx
      cases hx
      exact .worked rfl _ _ _
  | skipEqByte | skipNeByte | skipEq | skipNe | skipDown | skipUp =>
    change EStateM.Result.ok () (m.skipIf _) = _ at hx
    rw [skipIf_eq] at hx
    cases hx
    exact .worked rfl _ _ _
  | _ =>
    cases hx
    exact .worked rfl _ _ _

end Machine

end Chip8
