import Chip8.Proofs.Machine.Account

/-!
# Bursts

A burst steps within a budget. Every step of it but the last is carried out, and when the budget is
not used up the last one is not: it stalls or it faults.
-/
namespace Chip8

def Report.succeeded (r : Report) : Bool := r.outcome.isOk

theorem Report.succeeded_of_executed {r : Report} (h : r.outcome = .ok .executed) :
    r.succeeded = true := by
  simp [Report.succeeded, h, Except.isOk, Except.toBool]

theorem Report.succeeded_eq_false_iff {r : Report} :
    r.succeeded = false ↔ ∃ fault, r.outcome = .error fault := by
  unfold Report.succeeded
  cases r.outcome <;> simp [Except.isOk, Except.toBool]

namespace Machine

inductive Burst : Machine → Nat → List Report → Machine → Prop where
  | spent {m} : Burst m 0 [] m
  | ended {m n} (h : m.step.report.outcome ≠ .ok .executed) :
      Burst m (n + 1) [m.step.report] m.step.machine
  | executed {m n reports m'} (h : m.step.report.outcome = .ok .executed)
      (rest : Burst m.step.machine n reports m') : Burst m (n + 1) (m.step.report :: reports) m'

variable {m m' : Machine} {n : Nat} {i : Instruction} {reports : List Report} {r : Report}

theorem burst_spec (m : Machine) (n : Nat) : Burst m n (m.burst n).1 (m.burst n).2 := by
  induction n generalizing m with
  | zero => exact .spent
  | succ n ih =>
    by_cases hout : m.step.report.outcome = .ok .executed
    · rw [burst_of_executed hout]
      exact .executed hout (ih m.step.machine)
    · rw [burst_of_ended hout]
      exact .ended hout

namespace Burst

theorem burst_eq (h : Burst m n reports m') : m.burst n = (reports, m') := by
  induction h with
  | spent => rfl
  | ended hout => exact burst_of_ended hout _
  | executed hout _ ih => rw [burst_of_executed hout, ih]

theorem replay (h : Burst m n reports m') :
    m' = m.replay (List.replicate reports.length .step) := by
  have hreplay := m.burst_replay n
  rw [h.burst_eq] at hreplay
  exact hreplay

theorem length_le (h : Burst m n reports m') : reports.length ≤ n := by
  induction h with
  | spent => exact Nat.le_refl 0
  | ended => exact Nat.succ_le_succ (Nat.zero_le _)
  | executed _ _ ih => exact Nat.succ_le_succ ih

theorem ne_nil (h : Burst m n reports m') (hn : 0 < n) : reports ≠ [] := by
  cases h with
  | spent => cases hn
  | ended | executed => exact List.cons_ne_nil _ _

/-- A step that stalls or faults is the last one of its burst. -/
theorem executed_of_mem_dropLast (h : Burst m n reports m') (hr : r ∈ reports.dropLast) :
    r.outcome = .ok .executed := by
  induction h with
  | spent => cases hr
  | ended => cases hr
  | @executed m n rest m' hout _ ih =>
    cases rest with
    | nil => cases hr
    | cons next rest =>
      rcases List.mem_cons.mp hr with rfl | hr
      · exact hout
      · exact ih hr

theorem getLast?_of_short (h : Burst m n reports m') (hshort : reports.length < n) :
    ∃ r, reports.getLast? = some r ∧ r.outcome ≠ .ok .executed := by
  induction h with
  | spent => cases hshort
  | @ended m n hout => exact ⟨m.step.report, rfl, hout⟩
  | @executed m n rest m' _ _ ih =>
    obtain ⟨r, hlast, hr⟩ := ih (Nat.lt_of_succ_lt_succ hshort)
    refine ⟨r, ?_, hr⟩
    rw [List.getLast?_cons, hlast]
    rfl

end Burst

theorem Effect.cycles (he : Effect m i m') : m'.cycles = m.cycles := by
  cases he with
  | registers | cleared | drawn | decimal | saved | random | keyTaken | keyMissing => rfl

/-- Cycles count the steps that met no fault. -/
theorem step_cycles (m : Machine) :
    m.step.machine.cycles = m.cycles + [m.step.report].countP Report.succeeded := by
  have hp := step_passage m
  generalize m.step = s at hp
  cases hp with
  | unfetched | undecoded => rfl
  | failed _ _ hx => exact congrArg (·.cycles) (left_of_fault hx)
  | completed _ _ hx => exact congrArg (· + 1) (effect_of_execute hx).cycles

theorem Burst.cycles (h : Burst m n reports m') :
    m'.cycles = m.cycles + reports.countP Report.succeeded := by
  induction h with
  | spent => rfl
  | ended => exact step_cycles _
  | @executed m n reports m' _ _ ih =>
    rw [ih, step_cycles, Nat.add_assoc, ← List.countP_append]
    rfl

/-- A fault leaves the program counter at the instruction that met it. -/
theorem step_pc_of_error {fault : Fault} (h : m.step.report.outcome = .error fault) :
    m.step.machine.registers.pc = m.registers.pc := by
  have hp := step_passage m
  generalize m.step = s at h hp
  cases hp with
  | unfetched | undecoded => rfl
  | failed _ _ hx => exact congrArg (·.registers.pc) (left_of_fault hx)
  | completed => cases h

end Machine

end Chip8
