import Chip8.Proofs.Machine.Faults
import Chip8.Proofs.Machine.KeyWait

/-!
# What a fault leaves behind

A fault leaves the machine as it was, but a machine that waited and begins an instruction in vain
waits no longer. A founded wait rules this out. A program that is loaded into a waiting machine can
bring it about.
-/
namespace Chip8.Machine

variable {m : Machine} {x : Nibble}

/-- The next step begins an instruction and meets its obstacle. -/
def BeginsInVain (m : Machine) : Prop :=
  ∃ fault, m.nextFault? = some fault ∧ fault.early = false

theorem begun_of_not_waiting (h : m.awaitingKey = false) : m.begun = m := by
  unfold begun
  rw [← h]

theorem WellFormed.nextFault_at_wait (h : m.WellFormed) (hx : m.AtWait x) :
    m.nextFault? = none :=
  h.nextFault_of_decoded hx (Instruction.decode_word _)

theorem WellFormed.not_vain_of_founded (h : m.WellFormed) (hw : m.WaitFounded)
    (hk : m.awaitingKey = true) : ¬ m.BeginsInVain := by
  rintro ⟨fault, hf, _⟩
  obtain ⟨x, hx⟩ := hw hk
  rw [h.nextFault_at_wait hx] at hf
  cases hf

theorem WellFormed.fault_leaves_machine (h : m.WellFormed) {fault : Fault}
    (hout : m.step.report.outcome = .error fault)
    (hnot : ¬ (m.awaitingKey = true ∧ m.BeginsInVain)) : m.step.machine = m := by
  rw [h.machine_of_fault hout]
  cases he : fault.early with
  | true => rfl
  | false =>
    cases hk : m.awaitingKey with
    | false => exact begun_of_not_waiting hk
    | true => exact absurd ⟨hk, fault, (h.step_fault_iff fault).mp hout, he⟩ hnot

theorem WellFormed.vain_step_drops_wait (h : m.WellFormed) (hv : m.BeginsInVain) :
    (∃ fault, m.step.report.outcome = .error fault) ∧ m.step.machine = m.begun := by
  obtain ⟨fault, hf, hlate⟩ := hv
  have hout := (h.step_fault_iff fault).mpr hf
  refine ⟨⟨fault, hout⟩, ?_⟩
  rw [h.machine_of_fault hout, hlate]
  rfl

theorem begun_ne_of_waiting (hk : m.awaitingKey = true) : m.begun ≠ m := by
  intro he
  have := congrArg awaitingKey he
  rw [hk] at this
  cases this

theorem WellFormed.step_atomic_iff (h : m.WellFormed) :
    (∀ fault, m.step.report.outcome = .error fault → m.step.machine = m) ↔
      ¬ (m.awaitingKey = true ∧ m.BeginsInVain) := by
  constructor
  · rintro hatomic ⟨hk, hv⟩
    obtain ⟨⟨fault, hout⟩, hleft⟩ := h.vain_step_drops_wait hv
    exact begun_ne_of_waiting hk (hleft.symm.trans (hatomic fault hout))
  · intro hnot fault hout
    exact h.fault_leaves_machine hout hnot

/-- Over every history a failing step is atomic, except for a machine that waits and begins an
instruction in vain. It has then been given a program while it was waiting, and it loses the wait
and nothing else. -/
theorem reachable_step_atomic_iff (legacy : Bool) (seed : Int) (ops : List Operation) :
    let m := (fresh legacy seed).replay ops
    ((∀ fault, m.step.report.outcome = .error fault → m.step.machine = m) ↔
      ¬ (m.awaitingKey = true ∧ ∃ fault, m.nextFault? = some fault ∧ fault.early = false)) ∧
    (∀ fault, m.step.report.outcome = .error fault → m.step.machine ≠ m →
      m.step.machine = { m with awaitingKey := false } ∧
      ∃ before program after, ops = before ++ .load program :: after ∧
        ((fresh legacy seed).replay before).awaitingKey = true ∧ program.length ≤ 3584) := by
  intro m
  have h : m.WellFormed := (reachable_inRange legacy seed ops).toWellFormed
  refine ⟨h.step_atomic_iff, fun fault hout htrace => ?_⟩
  by_cases hvain : m.awaitingKey = true ∧ m.BeginsInVain
  · refine ⟨(h.vain_step_drops_wait hvain.2).2, ?_⟩
    have hfresh : (fresh legacy seed).WaitFounded := .of_not_waiting rfl
    rcases replay_founded_or_load (.of_initial rfl) hfresh ops with hw | hload
    · exact absurd hvain.2 (h.not_vain_of_founded hw hvain.1)
    · exact hload
  · exact absurd (h.fault_leaves_machine hout hvain) htrace

/-- A return that is loaded under a wait faults, and the wait is gone. -/
theorem step_not_atomic_after_load :
    let m := (fresh false 0).replay [.load [0xF0, 0x0A], .step, .load [0x00, 0xEE]]
    m.step.report.outcome = .error (.stackUnderflow 0x200) ∧ m.step.machine ≠ m := by
  intro m
  have h : m.WellFormed := (reachable_inRange false 0 _).toWellFormed
  have hk : m.awaitingKey = true := by decide +kernel
  have hf : m.nextFault? = some (.stackUnderflow 0x200) := by decide +kernel
  refine ⟨(h.step_fault_iff _).mpr hf, ?_⟩
  rw [(h.vain_step_drops_wait ⟨_, hf, rfl⟩).2]
  exact begun_ne_of_waiting hk

end Chip8.Machine
