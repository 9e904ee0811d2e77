import Chip8.Proofs.Machine.Course

/-!
# Machines in lockstep

Two machines may differ in something that a step does not look at. If the next instruction leaves
them related as they were, then both steps report the same and leave the machines related again.
-/
namespace Chip8

/-- Both actions meet the same fault, or both succeed with the same value. They leave related states
in either case. -/
inductive Matched {σ α : Type} (R S : σ → σ → Prop) :
    EStateM.Result Fault σ α → EStateM.Result Fault σ α → Prop where
  | error {s t : σ} (fault : Fault) (h : R s t) : Matched R S (.error fault s) (.error fault t)
  | ok {s t : σ} (a : α) (h : S s t) : Matched R S (.ok a s) (.ok a t)

theorem Matched.refl {σ α : Type} (x : EStateM.Result Fault σ α) : Matched Eq Eq x x := by
  cases x with
  | error fault s => exact .error fault rfl
  | ok a s => exact .ok a rfl

namespace Registers

/-- A change that calls and returns do not see, and that does not see them. -/
structure OffStack (change : Registers → Registers) : Prop where
  sp : ∀ r, (change r).sp = r.sp
  pc : ∀ r, (change r).pc = r.pc
  stack : ∀ r, (change r).stack = r.stack
  comm : ∀ r stack sp, { change r with pc := r.pc, stack := stack, sp := sp } =
    change { r with stack := stack, sp := sp }

namespace OffStack

variable {change : Registers → Registers}

theorem push (h : OffStack change) (r : Registers) (address : Int) :
    Matched (fun r r' => r' = change r) (fun r r' => r' = change r)
      (Registers.push address r) (Registers.push address (change r)) := by
  rw [push_eq, push_eq, h.sp, h.pc, h.stack]
  by_cases hfull : r.sp ≥ 16
  · rw [if_pos hfull, if_pos hfull]
    exact .error _ rfl
  · rw [if_neg hfull, if_neg hfull]
    cases slot? r.sp with
    | none => exact .error _ rfl
    | some k => exact .ok () (h.comm r _ _)

theorem pop (h : OffStack change) (r : Registers) :
    Matched (fun r r' => r' = change r) (fun r r' => r' = change r)
      (Registers.pop r) (Registers.pop (change r)) := by
  rw [pop_eq, pop_eq, h.sp, h.pc, h.stack]
  by_cases hempty : r.sp = 0
  · rw [if_pos hempty, if_pos hempty]
    exact .error _ rfl
  · rw [if_neg hempty, if_neg hempty]
    cases slot? (r.sp - 1) with
    | none => exact .error _ (h.comm r r.stack _)
    | some k => exact .ok _ (h.comm r r.stack _)

end OffStack

end Registers

namespace Machine

variable {R S : Machine → Machine → Prop} {m n : Machine}

/-- What the registers are related by, the machines are after a push or a pop. -/
theorem matched_call {Q : Registers → Registers → Prop} {a : Fin 4096}
    (hp : Matched Q Q (Registers.push m.registers.pc m.registers)
      (Registers.push n.registers.pc n.registers))
    (hR : ∀ r r', Q r r' → R { m with registers := r } { n with registers := r' })
    (hS : ∀ r r', Q r r' →
      S ({ m with registers := r }.jump a) ({ n with registers := r' }.jump a)) :
    Matched R S (m.execute (.call a)) (n.execute (.call a)) := by
  rw [execute_call_eq, execute_call_eq]
  generalize Registers.push m.registers.pc m.registers = x at hp
  generalize Registers.push n.registers.pc n.registers = y at hp
  cases hp with
  | error fault h => exact .error fault (hR _ _ h)
  | ok _ h => exact .ok () (hS _ _ h)

theorem matched_ret {Q : Registers → Registers → Prop}
    (hp : Matched Q Q (Registers.pop m.registers) (Registers.pop n.registers))
    (hR : ∀ r r', Q r r' → R { m with registers := r } { n with registers := r' })
    (hS : ∀ r r' (address : Int), Q r r' →
      S ({ m with registers := r }.jump address) ({ n with registers := r' }.jump address)) :
    Matched R S (m.execute .ret) (n.execute .ret) := by
  rw [execute_ret_eq, execute_ret_eq]
  generalize Registers.pop m.registers = x at hp
  generalize Registers.pop n.registers = y at hp
  cases hp with
  | error fault h => exact .error fault (hR _ _ h)
  | ok address h => exact .ok () (hS _ _ _ h)

theorem matched_call_of_eq {a : Fin 4096} (h : n.registers = m.registers)
    (hR : ∀ r, R { m with registers := r } { n with registers := r })
    (hS : ∀ r, S ({ m with registers := r }.jump a) ({ n with registers := r }.jump a)) :
    Matched R S (m.execute (.call a)) (n.execute (.call a)) := by
  have hp : Matched Eq Eq (Registers.push m.registers.pc m.registers)
      (Registers.push n.registers.pc n.registers) := by
    rw [h]
    exact .refl _
  apply matched_call hp
  · rintro r - rfl
    exact hR r
  · rintro r - rfl
    exact hS r

theorem matched_ret_of_eq (h : n.registers = m.registers)
    (hR : ∀ r, R { m with registers := r } { n with registers := r })
    (hS : ∀ r (address : Int),
      S ({ m with registers := r }.jump address) ({ n with registers := r }.jump address)) :
    Matched R S (m.execute .ret) (n.execute .ret) := by
  have hp : Matched Eq Eq (Registers.pop m.registers) (Registers.pop n.registers) := by
    rw [h]
    exact .refl _
  apply matched_ret hp
  · rintro r - rfl
    exact hR r
  · rintro r - address rfl
    exact hS r address

/-- Related machines with the same obstacles are matched by what they do without one. -/
theorem matched_of_clear {i : Instruction} (h : R m n) (ho : n.obstacle? i = m.obstacle? i)
    (hx : m.obstacle? i = none → n.obstacle? i = none →
      Matched R S (m.execute i) (n.execute i)) :
    Matched R S (m.execute i) (n.execute i) := by
  cases hm : m.obstacle? i with
  | none => exact hx hm (ho.trans hm)
  | some fault =>
    rw [execute_of_obstacle hm, execute_of_obstacle (ho.trans hm)]
    exact .error fault h

theorem matched_block {i : Instruction} {k : Nat} (hb : i.blockLength? = some k)
    (ho : m.obstacle? i = none) (ho' : n.obstacle? i = none)
    (h : S (m.afterBlock i) (n.afterBlock i)) : Matched R S (m.execute i) (n.execute i) := by
  rw [execute_of_block hb ho, execute_of_block hb ho']
  exact .ok () h

theorem matched_awaitKey {x : Nibble} (hl : n.keypad.latched = m.keypad.latched)
    (hnone : S { m with awaitingKey := true } { n with awaitingKey := true })
    (hsome : ∀ k : Nibble, S ({ m with keypad := m.keypad.clearLatch }.setV x k).advance
      ({ n with keypad := n.keypad.clearLatch }.setV x k).advance) :
    Matched R S (m.execute (.awaitKey x)) (n.execute (.awaitKey x)) := by
  cases hm : m.keypad.latched with
  | none =>
    rw [execute_awaitKey_none x hm, execute_awaitKey_none x (hl.trans hm)]
    exact .ok () hnone
  | some k =>
    rw [execute_awaitKey_some x hm, execute_awaitKey_some x (hl.trans hm)]
    exact .ok () (hsome k)

theorem matched_skipIf {condition : Bool}
    (h : ∀ pc : Int, S (m.jump (m.registers.pc + pc)) (n.jump (n.registers.pc + pc))) :
    Matched R S (.ok () (m.skipIf condition)) (.ok () (n.skipIf condition)) := by
  rw [skipIf_eq, skipIf_eq]
  exact .ok () (h _)

/-- A difference between machines that a step does not see before it carries its instruction out. -/
structure Unseen (R : Machine → Machine → Prop) : Prop where
  memory : ∀ {m n}, R m n → n.memory = m.memory
  pc : ∀ {m n}, R m n → n.registers.pc = m.registers.pc
  awaitingKey : ∀ {m n}, R m n → n.awaitingKey = m.awaitingKey
  begun : ∀ {m n}, R m n → R m.begun n.begun
  counted : ∀ {m n}, R m n → R m.counted n.counted

/-- Both steps end in the same way. After a fault the machines are related as they were, and after an
instruction as it leaves them. -/
inductive Paired (R : Machine → Machine → Prop) (S : Instruction → Machine → Machine → Prop)
    (m n : Machine) : Prop where
  | faulted {fault} (hout : m.step.report.outcome = .error fault)
      (h : R m.step.machine n.step.machine) : Paired R S m n
  | carried {i m'} (hw : m.memory.fetch m.registers.pc = .ok i.word)
      (hx : m.begun.execute i = .ok () m') (hs : m.step.machine = m'.counted)
      (hout : m.step.report.outcome = .ok m'.progress)
      (h : S i m.step.machine n.step.machine) : Paired R S m n

namespace Unseen

theorem fetch (hR : Unseen R) (h : R m n) :
    n.memory.fetch n.registers.pc = m.memory.fetch m.registers.pc := by
  rw [hR.memory h, hR.pc h]

theorem opening (hR : Unseen R) (h : R m n) (w : Nat) : n.opening w = m.opening w := by
  unfold Machine.opening
  rw [hR.awaitingKey h, hR.pc h]

theorem progress (hR : Unseen R) (h : R m n) : n.progress = m.progress := by
  unfold Machine.progress
  rw [hR.awaitingKey h]

/-- The instruction at the program counter alone decides how the machines are related next. -/
theorem step_paired {S : Instruction → Machine → Machine → Prop} (hR : Unseen R)
    (hS : ∀ i, Unseen (S i)) (h : R m n)
    (hx : ∀ i : Instruction, m.memory.fetch m.registers.pc = .ok i.word →
      Matched R (S i) (m.begun.execute i) (n.begun.execute i)) :
    n.step.report = m.step.report ∧ Paired R S m n := by
  have hfetch := hR.fetch h
  cases hw : m.memory.fetch m.registers.pc with
  | error fault =>
    rw [hw] at hfetch
    have hm := step_unfetched hw
    have hn := step_unfetched hfetch
    refine ⟨by rw [hm, hn], .faulted (congrArg (·.report.outcome) hm) ?_⟩
    rw [hm, hn]
    exact h
  | ok w =>
    rw [hw] at hfetch
    cases hi : Instruction.decode? w with
    | none =>
      have hm := step_undecoded hw hi
      have hn := step_undecoded hfetch hi
      refine ⟨by rw [hm, hn, hR.pc h], .faulted (congrArg (·.report.outcome) hm) ?_⟩
      rw [hm, hn]
      exact h
    | some i =>
      have hword : m.memory.fetch m.registers.pc = .ok i.word := by
        rw [word_of_fetched hw hi]
        exact hw
      have hmatched := hx i hword
      generalize hxm : m.begun.execute i = result at hmatched
      generalize hxn : n.begun.execute i = result' at hmatched
      cases hmatched with
      | error fault h' =>
        have hm := step_obstructed hw hi hxm
        have hn := step_obstructed hfetch hi hxn
        refine ⟨by rw [hm, hn, hR.opening h], .faulted (congrArg (·.report.outcome) hm) ?_⟩
        rw [hm, hn]
        exact h'
      | @ok m' n' _ h' =>
        have hm := step_completed hw hi hxm
        have hn := step_completed hfetch hi hxn
        have hwait := (hS i).awaitingKey h'
        have hstalling : n.stalling n' = m.stalling m' := by
          unfold Machine.stalling
          rw [hR.awaitingKey h, hwait, hR.pc h]
        constructor
        · rw [hm, hn, hR.opening h, hstalling, (hS i).progress h']
        · refine .carried hword hxm (congrArg (·.machine) hm)
            (congrArg (·.report.outcome) hm) ?_
          rw [hm, hn]
          exact (hS i).counted h'

/-- Only the instruction at the program counter has to keep the machines related. -/
theorem step (hR : Unseen R) (h : R m n)
    (hx : ∀ i : Instruction, m.memory.fetch m.registers.pc = .ok i.word →
      Matched R R (m.begun.execute i) (n.begun.execute i)) :
    n.step.report = m.step.report ∧ R m.step.machine n.step.machine := by
  obtain ⟨hreport, hpaired⟩ := hR.step_paired (S := fun _ => R) (fun _ => hR) h hx
  cases hpaired with
  | faulted _ h' => exact ⟨hreport, h'⟩
  | carried _ _ _ _ h' => exact ⟨hreport, h'⟩

end Unseen

end Machine

end Chip8
