import Chip8.Proofs.Machine.Reachable

/-!
# Waiting for a key

A machine waits on the word of the instruction that made it wait. Stores, jumps and faults end the
waiting before they can touch that word, so only a program that is loaded meanwhile can replace it.
-/
namespace Chip8

def Operation.isLoad : Operation → Bool
  | .load _ => true
  | _ => false

namespace Machine

variable {m m' : Machine} {i : Instruction} {op : Operation} {x k : Nibble}

def AtWait (m : Machine) (x : Nibble) : Prop :=
  m.memory.fetch m.registers.pc = .ok (Instruction.awaitKey x).word

def WaitFounded (m : Machine) : Prop := m.awaitingKey = true → ∃ x, m.AtWait x

theorem WaitFounded.of_not_waiting (h : m.awaitingKey = false) : m.WaitFounded := by
  intro hm
  rw [h] at hm
  cases hm

theorem step_preserves_founded (hr : m.InRange) (h : m.WaitFounded) :
    m.step.machine.WaitFounded := by
  refine step_preserves hr.sp_nonneg hr.sp_le h (.of_not_waiting rfl) ?_
  intro w i m' hw hi hx hk
  have he := effect_of_execute hx
  obtain ⟨⟨x, rfl⟩, rfl⟩ := he.waiting rfl hk
  rw [← word_of_fetched hw hi] at hw
  exact ⟨x, hw⟩

/-- An operation keeps the waiting founded, unless it loads a program into a waiting machine. -/
theorem perform_founded_or_load (hr : m.InRange) (h : m.WaitFounded) (op : Operation) :
    (m.perform op).WaitFounded ∨
      m.awaitingKey = true ∧ ∃ program, op = .load program ∧ program.length ≤ 3584 := by
  cases op with
  | load program =>
    refine load_preserves (P := fun m' => m'.WaitFounded ∨ _) (Or.inl h) fun hl => ?_
    by_cases hk : m.awaitingKey = true
    · exact Or.inr ⟨hk, program, rfl, hl⟩
    · exact Or.inl fun hm => absurd hm hk
  | step => exact Or.inl (step_preserves_founded hr h)
  | tick => exact Or.inl h
  | key => exact Or.inl h
  | display => exact Or.inl h
  | render => exact Or.inl h

theorem replay_founded_or_load (hr : m.InRange) (h : m.WaitFounded) (ops : List Operation) :
    (m.replay ops).WaitFounded ∨ ∃ before program after, ops = before ++ .load program :: after ∧
      (m.replay before).awaitingKey = true ∧ program.length ≤ 3584 := by
  induction ops generalizing m with
  | nil => exact Or.inl h
  | cons op rest ih =>
    rcases perform_founded_or_load hr h op with hop | ⟨hk, program, rfl, hl⟩
    · rcases ih (hr.perform op) hop with hrest | ⟨before, program, after, rfl, hk, hl⟩
      · exact Or.inl hrest
      · exact Or.inr ⟨op :: before, program, after, rfl, hk, hl⟩
    · exact Or.inr ⟨[], program, rest, rfl, hk, hl⟩

theorem perform_not_waiting (h : m.awaitingKey = false) (hop : op ≠ .step) :
    (m.perform op).awaitingKey = false := by
  cases op with
  | load program =>
    exact load_preserves (P := fun m => m.awaitingKey = false) h fun _ => h
  | step => exact absurd rfl hop
  | tick => exact h
  | key => exact h
  | display => exact h
  | render => exact h

theorem replay_not_waiting (h : m.awaitingKey = false) {ops : List Operation}
    (hops : .step ∉ ops) : (m.replay ops).awaitingKey = false := by
  refine replay_preserves (P := fun m => m.awaitingKey = false) ?_ h
  intro op hop m hm
  exact perform_not_waiting hm fun hstep => hops (hstep ▸ hop)

theorem step_at_wait_none (h : m.AtWait x) (hl : m.keypad.latched = none) :
    m.step.report.outcome = .ok .awaitingKey ∧
      m.step.machine = { m with awaitingKey := true, cycles := m.cycles + 1 } := by
  have hx := execute_awaitKey_none (m := m.begun) x hl
  rw [step_completed h (Instruction.decode_word _) hx]
  exact ⟨rfl, rfl⟩

theorem step_at_wait_some (h : m.AtWait x) (hl : m.keypad.latched = some k) :
    m.step.report.outcome = .ok .executed ∧
      m.step.machine = { m with
        registers := { m.registers with
          v := m.registers.v.set x k x.isLt
          pc := m.registers.pc + 2 }
        keypad := { m.keypad with latched := none }
        awaitingKey := false
        cycles := m.cycles + 1 } := by
  have hx := execute_awaitKey_some (m := m.begun) x hl
  rw [step_completed h (Instruction.decode_word _) hx]
  exact ⟨rfl, rfl⟩

theorem step_progress_iff (hr : m.InRange) {p : Progress}
    (hp : m.step.report.outcome = .ok p) :
    p = .awaitingKey ↔ m.step.machine.awaitingKey = true := by
  have hc := step_course hr.sp_nonneg hr.sp_le
  generalize m.step = s at hc hp
  cases hc with
  | unfetched hw => cases hp
  | undecoded hw hi => cases hp
  | obstructed hw hi ho => cases hp
  | @completed w i m' hw hi hx =>
    cases hp
    change m'.progress = .awaitingKey ↔ m'.awaitingKey = true
    unfold progress
    cases m'.awaitingKey <;> simp

/-- Programs that are loaded before the first step cannot unfound a wait. -/
theorem reachable_founded (legacy : Bool) (seed : Int) {before after : List Operation}
    (hbefore : .step ∉ before) (hafter : ∀ op ∈ after, op.isLoad = false) :
    ((fresh legacy seed).replay (before ++ after)).WaitFounded := by
  rw [replay_append]
  have hk : ((fresh legacy seed).replay before).awaitingKey = false :=
    replay_not_waiting rfl hbefore
  rcases replay_founded_or_load (reachable_inRange legacy seed before) (.of_not_waiting hk) after
    with h | ⟨_, program, _, rfl, _⟩
  · exact h
  · cases hafter (.load program) (by simp)

/-- As long as no program is loaded after the first step, a waiting machine stalls on the word
`Fx0A` until a key is latched, and then takes the key; nothing else changes. -/
theorem key_wait_protocol (legacy : Bool) (seed : Int) (before after : List Operation)
    (hbefore : .step ∉ before) (hafter : ∀ op ∈ after, op.isLoad = false) :
    let m := (fresh legacy seed).replay (before ++ after)
    (m.awaitingKey = true → ∃ x : Nibble,
      m.memory.fetch m.registers.pc = .ok (Instruction.nibbles 0xF x 0x0 0xA) ∧
      (m.keypad.latched = none →
        m.step.report.outcome = .ok .awaitingKey ∧
          m.step.machine = { m with cycles := m.cycles + 1 }) ∧
      (∀ k, m.keypad.latched = some k →
        m.step.report.outcome = .ok .executed ∧
          m.step.machine = { m with
            registers := { m.registers with
              v := m.registers.v.set x k x.isLt
              pc := m.registers.pc + 2 }
            keypad := { m.keypad with latched := none }
            awaitingKey := false
            cycles := m.cycles + 1 })) ∧
    (∀ p, m.step.report.outcome = .ok p →
      (p = .awaitingKey ↔ m.step.machine.awaitingKey = true)) := by
  intro m
  refine ⟨fun hk => ?_, fun p hp => step_progress_iff (reachable_inRange legacy seed _) hp⟩
  obtain ⟨x, hx⟩ := reachable_founded legacy seed hbefore hafter hk
  refine ⟨x, hx, fun hl => ?_, fun k hl => step_at_wait_some hx hl⟩
  obtain ⟨hout, hleft⟩ := step_at_wait_none hx hl
  refine ⟨hout, ?_⟩
  rw [hleft, ← hk]

/-- A tap ends a wait that has lasted three steps. -/
theorem key_wait_protocol_tapped :
    let m := (fresh false 0).replay ([.load [0xF3, 0x0A]] ++
      [.step, .tick, .step, .step, .key (.press 5), .key (.release 5)])
    m.awaitingKey = true ∧ m.keypad.latched = some 5 ∧
      m.step.report.outcome = .ok .executed ∧ m.step.machine.awaitingKey = false := by
  intro m
  have hk : m.awaitingKey = true := by decide +kernel
  have hl : m.keypad.latched = some 5 := by decide +kernel
  obtain ⟨x, _, _, htaken⟩ := (key_wait_protocol false 0 [.load [0xF3, 0x0A]]
    [.step, .tick, .step, .step, .key (.press 5), .key (.release 5)] (by decide) (by decide)).1 hk
  obtain ⟨hout, hleft⟩ := htaken 5 hl
  refine ⟨hk, hl, ?_, ?_⟩
  · rw [hout]
  · rw [hleft]

end Machine

end Chip8
