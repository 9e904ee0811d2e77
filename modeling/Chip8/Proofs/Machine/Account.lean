import Chip8.Machine.History
import Chip8.Proofs.Machine.Course

/-!
# Histories and accounts

A step carries an instruction out, or it faults or stalls. The trace of a history is the list of its
operations, each with the machine that it met. An account is a value that is kept beside the
machine and read off the trace; what one operation preserves between the two holds of a whole
history.
-/
namespace Chip8.Machine

variable {m m' : Machine} {i : Instruction} {σ : Type}

def pending? (m : Machine) : Option Instruction :=
  match m.memory.fetch m.registers.pc with
  | .ok w => Instruction.decode? w
  | .error _ => none

/-- The instruction that the next step carries out. A step that faults or stalls carries out none. -/
def executed? (m : Machine) : Option Instruction :=
  match m.step.report.outcome with
  | .ok .executed => m.pending?
  | _ => none

theorem pending?_eq_some_iff :
    m.pending? = some i ↔ m.memory.fetch m.registers.pc = .ok i.word := by
  unfold pending?
  constructor
  · intro h
    split at h
    · rename_i w hw
      rw [hw, word_of_fetched hw h]
    · cases h
  · intro h
    rw [h]
    exact Instruction.decode_word i

theorem pending?_of_fetched {w : Nat} (hw : m.memory.fetch m.registers.pc = .ok w) :
    m.pending? = Instruction.decode? w := by
  simp only [pending?, hw]

/-- What a step leaves. Without an instruction carried out only the wait and the count of cycles
can change, as long as the stack pointer is in range. -/
inductive Turn (m : Machine) : Machine → Prop where
  | idle (h : m.executed? = none) (r : Registers) (waiting : Bool) (cycles : Nat)
      (hr : 0 ≤ m.registers.sp → m.registers.sp ≤ 16 → r = m.registers) :
      Turn m { m with registers := r, awaitingKey := waiting, cycles := cycles }
  | carried {i : Instruction} {m' : Machine} (h : m.executed? = some i)
      (hx : m.begun.execute i = .ok () m') (hk : m'.awaitingKey = false) : Turn m m'.counted

theorem executed?_of_error {fault : Fault} (h : m.step.report.outcome = .error fault) :
    m.executed? = none := by
  simp only [executed?, h]

theorem executed?_of_stall (h : m.step.report.outcome = .ok .awaitingKey) :
    m.executed? = none := by
  simp only [executed?, h]

theorem executed?_of_executed (h : m.step.report.outcome = .ok .executed) :
    m.executed? = m.pending? := by
  simp only [executed?, h]

theorem executed?_eq_some_iff :
    m.executed? = some i ↔ m.step.report.outcome = .ok .executed ∧ m.pending? = some i := by
  constructor
  · intro h
    unfold executed? at h
    split at h
    · rename_i hout
      exact ⟨hout, h⟩
    · cases h
  · rintro ⟨hout, hp⟩
    rw [executed?_of_executed hout, hp]

theorem progress_eq_executed_iff : m.progress = .executed ↔ m.awaitingKey = false := by
  unfold progress
  cases m.awaitingKey <;> simp

theorem step_turn (m : Machine) : Turn m m.step.machine := by
  cases hw : m.memory.fetch m.registers.pc with
  | error fault =>
    have hs := step_unfetched hw
    have hn : m.executed? = none := executed?_of_error (congrArg (·.report.outcome) hs)
    rw [hs]
    exact .idle hn m.registers m.awaitingKey m.cycles fun _ _ => rfl
  | ok w =>
    cases hi : Instruction.decode? w with
    | none =>
      have hs := step_undecoded hw hi
      have hn : m.executed? = none := executed?_of_error (congrArg (·.report.outcome) hs)
      rw [hs]
      exact .idle hn m.registers m.awaitingKey m.cycles fun _ _ => rfl
    | some i =>
      cases hx : m.begun.execute i with
      | error fault left =>
        have hs := step_obstructed hw hi hx
        have hn : m.executed? = none := executed?_of_error (congrArg (·.report.outcome) hs)
        rw [hs, left_of_fault hx]
        refine .idle hn { m.registers with sp := left.registers.sp } false m.cycles fun h h' => ?_
        have hleft := ((execute_eq_error_iff (m := m.begun) h h' i fault).mp hx).2
        rw [hleft]
        rfl
      | ok _ m' =>
        have hs := step_completed hw hi hx
        cases hk : m'.awaitingKey with
        | false =>
          have hout : m.step.report.outcome = .ok .executed := by
            rw [hs]
            exact congrArg Except.ok (progress_eq_executed_iff.mpr hk)
          have hp : m.pending? = some i := (pending?_of_fetched hw).trans hi
          rw [hs]
          exact .carried ((executed?_of_executed hout).trans hp) hx hk
        | true =>
          have hout : m.step.report.outcome = .ok .awaitingKey := by
            rw [hs]
            simp only [progress, hk, if_true]
          rw [hs]
          obtain ⟨_, rfl⟩ := (effect_of_execute hx).waiting rfl hk
          exact .idle (executed?_of_stall hout) m.registers true (m.cycles + 1) fun _ _ => rfl

theorem step_of_executed (h : m.executed? = some i) : ∃ m', m.begun.execute i = .ok () m' ∧
    m'.awaitingKey = false ∧ m.step.machine = m'.counted := by
  have ht := step_turn m
  generalize m.step.machine = after at ht
  cases ht with
  | idle hn =>
    rw [h] at hn
    cases hn
  | @carried i' m' hi hx hk =>
    obtain rfl : i = i' := Option.some.inj (h.symm.trans hi)
    exact ⟨m', hx, hk, rfl⟩

/-- An instruction without an obstacle is carried out, unless it is a key wait. -/
theorem executed?_of_clear (h : 0 ≤ m.registers.sp) (h' : m.registers.sp ≤ 16)
    (hp : m.pending? = some i) (hc : m.obstacle? i = none) (hi : ∀ x, i ≠ .awaitKey x) :
    m.executed? = some i := by
  have hw := pending?_eq_some_iff.mp hp
  obtain ⟨m', hx⟩ := execute_of_clear (m := m.begun) h h' hc
  have hs := step_completed hw (Instruction.decode_word i) hx
  have hk : m'.awaitingKey = false := by
    cases hk : m'.awaitingKey with
    | false => rfl
    | true =>
      obtain ⟨⟨x, hx'⟩, _⟩ := (effect_of_execute hx).waiting rfl hk
      exact absurd hx' (hi x)
  refine executed?_eq_some_iff.mpr ⟨?_, hp⟩
  rw [hs]
  exact congrArg Except.ok (progress_eq_executed_iff.mpr hk)

/-- A load looks at the memory alone, and it changes nothing else. -/
theorem perform_load (m : Machine) (program : List UInt8) : m.perform (.load program) =
    { m with memory := stateOf (Memory.load program m.memory) } := by
  change stateOf (inMemory (Memory.load program) m) = _
  cases hl : Memory.load program m.memory with
  | error e memory => rw [inMemory_of_error hl]; rfl
  | ok _ memory => rw [inMemory_of_ok hl]; rfl

/-- The operations of a history, each with the machine that it met. -/
def trace (m : Machine) : List Operation → List (Machine × Operation)
  | [] => []
  | op :: rest => (m, op) :: (m.perform op).trace rest

theorem trace_append (m : Machine) (before after : List Operation) :
    m.trace (before ++ after) = m.trace before ++ (m.replay before).trace after := by
  induction before generalizing m with
  | nil => rfl
  | cons op rest ih => exact congrArg ((m, op) :: ·) (ih (m.perform op))

theorem trace_take (m : Machine) (ops : List Operation) (n : Nat) :
    m.trace (ops.take n) = (m.trace ops).take n := by
  induction ops generalizing m n with
  | nil => simp [trace]
  | cons op rest ih =>
    cases n with
    | zero => rfl
    | succ n => exact congrArg ((m, op) :: ·) (ih (m.perform op) n)

theorem getElem?_trace (m : Machine) (ops : List Operation) (n : Nat) :
    (m.trace ops)[n]? = ops[n]?.map fun op => (m.replay (ops.take n), op) := by
  induction ops generalizing m n with
  | nil => rfl
  | cons op rest ih =>
    cases n with
    | zero => rfl
    | succ n => exact ih (m.perform op) n

theorem replay_take_succ (m : Machine) {ops : List Operation} {n : Nat} {op : Operation}
    (h : ops[n]? = some op) :
    m.replay (ops.take (n + 1)) = (m.replay (ops.take n)).perform op := by
  unfold replay
  rw [List.take_add_one, h, List.foldl_append]
  rfl

theorem burst_of_executed (h : m.step.report.outcome = .ok .executed) (n : Nat) :
    m.burst (n + 1) =
      (m.step.report :: (m.step.machine.burst n).1, (m.step.machine.burst n).2) := by
  simp only [burst, h]

theorem burst_of_ended (h : m.step.report.outcome ≠ .ok .executed) (n : Nat) :
    m.burst (n + 1) = ([m.step.report], m.step.machine) := by
  cases hout : m.step.report.outcome with
  | error fault => simp only [burst, hout]
  | ok progress =>
    cases progress with
    | executed => exact absurd hout h
    | awaitingKey => simp only [burst, hout]

/-- A burst is as many steps as it reports. -/
theorem burst_replay (m : Machine) (n : Nat) :
    (m.burst n).2 = m.replay (List.replicate (m.burst n).1.length .step) := by
  induction n generalizing m with
  | zero => rfl
  | succ n ih =>
    by_cases hout : m.step.report.outcome = .ok .executed
    · rw [burst_of_executed hout]
      exact ih m.step.machine
    · rw [burst_of_ended hout]
      rfl

/-- The induction over histories: an account and the machine stay related if each operation keeps
them so. -/
theorem account_invariant {R : Machine → σ → Prop} {f : σ → Machine × Operation → σ}
    {ops : List Operation} {s : σ}
    (hop : ∀ op ∈ ops, ∀ m s, R m s → R (m.perform op) (f s (m, op))) (h : R m s) :
    R (m.replay ops) ((m.trace ops).foldl f s) := by
  induction ops generalizing m s with
  | nil => exact h
  | cons op rest ih =>
    obtain ⟨hfirst, hrest⟩ := List.forall_mem_cons.mp hop
    exact ih hrest (hfirst m s h)

end Chip8.Machine
