import Chip8.Proofs.Machine.Account
import Chip8.Proofs.Machine.Faults
import Chip8.Proofs.Machine.Reachable
import Chip8.Proofs.Machine.RegisterEffect

/-!
# Calls and returns

The account of a history is the list of the calls that no return has answered yet, each by the place
it was made from, the oldest first. The stack of a machine has sixteen slots, and entries stay
behind in slots that are free again; up to the stack pointer it is that list.
-/
namespace Chip8

theorem prefix_set {α : Type} {p l : List α} (h : p <+: l) (hlt : p.length < l.length) (a : α) :
    p ++ [a] <+: l.set p.length a := by
  obtain ⟨rest, rfl⟩ := h
  cases rest with
  | nil => simp at hlt
  | cons b rest =>
    refine ⟨rest, ?_⟩
    simp

namespace Machine

variable {m m' : Machine} {i : Instruction} {calls : List Int} {op : Operation}

/-- A call opens one call, and a return closes the newest. -/
def callsAfter (m : Machine) (calls : List Int) : List Int :=
  match m.executed? with
  | none => calls
  | some i =>
    match i with
    | .call _ => calls ++ [m.registers.pc]
    | .ret => calls.dropLast
    | _ => calls

def track (calls : List Int) : Machine × Operation → List Int
  | (m, .step) => m.callsAfter calls
  | _ => calls

def openCalls (m : Machine) (ops : List Operation) : List Int := (m.trace ops).foldl track []

structure Nested (m : Machine) (calls : List Int) : Prop where
  depth : m.registers.sp = calls.length
  entries : calls <+: m.registers.stack.toList

theorem Nested.of_stack (h : m.Nested calls) (hsp : m'.registers.sp = m.registers.sp)
    (hstack : m'.registers.stack = m.registers.stack) : m'.Nested calls := by
  constructor
  · rw [hsp]
    exact h.depth
  · rw [hstack]
    exact h.entries

theorem Nested.length_le (h : m.Nested calls) : calls.length ≤ 16 := by
  have := h.entries.length_le
  rw [Vector.length_toList] at this
  exact this

theorem Nested.top {a : Int} (h : m.Nested (calls ++ [a])) :
    m.registers.stack.get (Nibble.ofInt (m.registers.sp - 1)) = a := by
  have hd := h.depth
  have hle := h.length_le
  simp only [List.length_append, List.length_singleton] at hd hle
  have hslot : (Nibble.ofInt (m.registers.sp - 1)).val = calls.length := by
    simp only [Nibble.ofInt]
    omega
  obtain ⟨rest, hrest⟩ := h.entries
  have htop : m.registers.stack.toList[calls.length]? = some a := by
    rw [← hrest]
    simp
  rw [← hslot, getElem?_toList] at htop
  exact Option.some.inj htop

theorem Nested.called {a : Fin 4096} (h : m.Nested calls) (hroom : m.registers.sp < 16)
    (he : RegisterEffect m.registers (.call a) m'.registers) :
    m'.Nested (calls ++ [m.registers.pc]) := by
  obtain ⟨hsp, hstack, _⟩ := he.call
  have hd := h.depth
  have hslot : (Nibble.ofInt m.registers.sp).val = calls.length := by
    simp only [Nibble.ofInt]
    omega
  constructor
  · rw [hsp, hd, List.length_append]
    rfl
  · rw [hstack, Vector.toList_set, hslot]
    refine prefix_set h.entries ?_ _
    rw [Vector.length_toList]
    omega

theorem Nested.returned (h : m.Nested calls) (hentry : m.registers.sp ≠ 0)
    (he : RegisterEffect m.registers .ret m'.registers) : m'.Nested calls.dropLast := by
  obtain ⟨hsp, hstack, _⟩ := he.ret
  have hd := h.depth
  constructor
  · rw [hsp, List.length_dropLast]
    omega
  · rw [hstack]
    exact (List.dropLast_prefix calls).trans h.entries

theorem callsAfter_of_call {a : Fin 4096} (h : m.executed? = some (.call a)) :
    m.callsAfter calls = calls ++ [m.registers.pc] := by
  simp only [callsAfter, h]

theorem callsAfter_of_ret (h : m.executed? = some .ret) :
    m.callsAfter calls = calls.dropLast := by
  simp only [callsAfter, h]

theorem callsAfter_of_other (hret : m.executed? ≠ some .ret)
    (hcall : ∀ a, m.executed? ≠ some (.call a)) : m.callsAfter calls = calls := by
  unfold callsAfter
  cases hx : m.executed? with
  | none => rfl
  | some i =>
    cases i with
    | call a => exact absurd hx (hcall a)
    | ret => exact absurd hx hret
    | _ => rfl

theorem step_registers (hr : m.InRange) (hi : m.executed? = some i) :
    RegisterEffect m.registers i m.step.machine.registers ∧ m.obstacle? i = none := by
  obtain ⟨m', hx, _, hs⟩ := step_of_executed hi
  have he : RegisterEffect m.begun.registers i m'.registers :=
    registerEffect_of_execute hr.sp_nonneg hr.sp_le hx
  rw [hs]
  exact ⟨he, obstacle_eq_none_of_ok (m := m.begun) hx⟩

/-- Whatever a step does but to call and to return, it leaves the stack alone. -/
theorem step_stack (hr : m.InRange) (hret : m.executed? ≠ some .ret)
    (hcall : ∀ a, m.executed? ≠ some (.call a)) :
    m.step.machine.registers.sp = m.registers.sp ∧
      m.step.machine.registers.stack = m.registers.stack := by
  have ht := step_turn m
  generalize m.step.machine = after at ht
  cases ht with
  | idle hn r waiting cycles hregs =>
    obtain rfl := hregs hr.sp_nonneg hr.sp_le
    exact ⟨rfl, rfl⟩
  | @carried i m' hi hx hk =>
    have he : RegisterEffect m.begun.registers i m'.registers :=
      registerEffect_of_execute hr.sp_nonneg hr.sp_le hx
    refine he.stack ?_ ?_
    · rintro rfl
      exact hret hi
    · rintro a rfl
      exact hcall a hi

theorem step_preserves_nested (hr : m.InRange) (h : m.Nested calls) :
    m.step.machine.Nested (m.callsAfter calls) := by
  by_cases hret : m.executed? = some .ret
  · obtain ⟨he, hc⟩ := step_registers hr hret
    have hentry : m.registers.sp ≠ 0 := by simpa [obstacle_ret] using hc
    rw [callsAfter_of_ret hret]
    exact h.returned hentry he
  · by_cases hcall : ∃ a, m.executed? = some (.call a)
    · obtain ⟨a, ha⟩ := hcall
      obtain ⟨he, hc⟩ := step_registers hr ha
      have hroom : ¬ 16 ≤ m.registers.sp := by simpa [obstacle_call] using hc
      rw [callsAfter_of_call ha]
      exact h.called (by omega) he
    · have hcall' : ∀ a, m.executed? ≠ some (.call a) := fun a ha => hcall ⟨a, ha⟩
      obtain ⟨hsp, hstack⟩ := step_stack hr hret hcall'
      rw [callsAfter_of_other hret hcall']
      exact h.of_stack hsp hstack

theorem perform_stack (hop : op ≠ .step) :
    (m.perform op).registers.sp = m.registers.sp ∧
      (m.perform op).registers.stack = m.registers.stack := by
  cases op with
  | load program =>
    exact load_preserves (P := fun m' => m'.registers.sp = m.registers.sp ∧
      m'.registers.stack = m.registers.stack) ⟨rfl, rfl⟩ fun _ => ⟨rfl, rfl⟩
  | step => exact absurd rfl hop
  | tick => exact ⟨rfl, rfl⟩
  | key => exact ⟨rfl, rfl⟩
  | display => exact ⟨rfl, rfl⟩
  | render => exact ⟨rfl, rfl⟩

theorem track_of_ne_step (hop : op ≠ .step) : track calls (m, op) = calls := by
  cases op with
  | step => exact absurd rfl hop
  | load | tick | key | display | render => rfl

theorem perform_preserves_nested (hr : m.InRange) (h : m.Nested calls) (op : Operation) :
    (m.perform op).Nested (track calls (m, op)) := by
  by_cases hop : op = .step
  · subst hop
    exact step_preserves_nested hr h
  · obtain ⟨hsp, hstack⟩ := perform_stack (m := m) hop
    rw [track_of_ne_step hop]
    exact h.of_stack hsp hstack

theorem reachable_nested (legacy : Bool) (seed : Int) (ops : List Operation) :
    ((fresh legacy seed).replay ops).Nested ((fresh legacy seed).openCalls ops) := by
  refine (account_invariant (R := fun m calls => m.InRange ∧ m.Nested calls) ?_ ?_).2
  · rintro op - m calls ⟨hr, h⟩
    exact ⟨hr.perform op, perform_preserves_nested hr h op⟩
  · exact ⟨.of_initial rfl, rfl, List.nil_prefix⟩

theorem openCalls_step (m : Machine) (ops : List Operation) :
    m.openCalls (ops ++ [.step]) = (m.replay ops).callsAfter (m.openCalls ops) := by
  unfold openCalls
  rw [trace_append, List.foldl_append]
  rfl

/-- A call finds the stack full, or it jumps. -/
theorem Nested.step_call (h : m.Nested calls) (hr : m.InRange) {a : Fin 4096}
    (hp : m.pending? = some (.call a)) :
    (m.step.report.outcome = .error (.stackOverflow m.registers.pc) ↔ calls.length = 16) ∧
      (calls.length ≠ 16 → m.step.report.outcome = .ok .executed ∧
        m.step.machine.registers.pc = a) := by
  have hd := h.depth
  have hle := h.length_le
  have hw := pending?_eq_some_iff.mp hp
  constructor
  · rw [hr.step_fault_iff, hr.nextFault_of_decoded hw (Instruction.decode_word _), obstacle_call]
    by_cases hfull : 16 ≤ m.registers.sp
    · rw [if_pos hfull]
      simp only [true_iff]
      omega
    · rw [if_neg hfull]
      simp only [reduceCtorEq, false_iff]
      omega
  · intro hroom
    have hc : m.obstacle? (.call a) = none := by
      rw [obstacle_call, if_neg (by omega)]
    have hx := executed?_of_clear hr.sp_nonneg hr.sp_le hp hc (by simp)
    obtain ⟨he, _⟩ := step_registers hr hx
    exact ⟨(executed?_eq_some_iff.mp hx).1, he.call.2.2⟩

/-- A return finds no open call, or it goes on behind the newest. -/
theorem Nested.step_ret (h : m.Nested calls) (hr : m.InRange) (hp : m.pending? = some .ret) :
    (m.step.report.outcome = .error (.stackUnderflow m.registers.pc) ↔ calls = []) ∧
      ∀ rest a, calls = rest ++ [a] → m.step.report.outcome = .ok .executed ∧
        m.step.machine.registers.pc = a + 2 ∧ m.callsAfter calls = rest := by
  have hd := h.depth
  have hw := pending?_eq_some_iff.mp hp
  constructor
  · rw [hr.step_fault_iff, hr.nextFault_of_decoded hw (Instruction.decode_word _), obstacle_ret,
      ← List.length_eq_zero_iff]
    by_cases hempty : m.registers.sp = 0
    · rw [if_pos hempty]
      simp only [true_iff]
      omega
    · rw [if_neg hempty]
      simp only [reduceCtorEq, false_iff]
      omega
  · rintro rest a rfl
    rw [List.length_append] at hd
    have hc : m.obstacle? .ret = none := by
      rw [obstacle_ret, if_neg (by simp only [List.length_singleton] at hd; omega)]
    have hx := executed?_of_clear hr.sp_nonneg hr.sp_le hp hc (by simp)
    obtain ⟨he, _⟩ := step_registers hr hx
    refine ⟨(executed?_eq_some_iff.mp hx).1, ?_, ?_⟩
    · rw [he.ret.2.2, h.top]
    · rw [callsAfter_of_ret hx, List.dropLast_concat]

/-- Over every history the stack is the list of the open calls, and the stack pointer is its length.
A call overflows when sixteen are open, and otherwise jumps. A return underflows when none is open,
and otherwise goes on behind the newest and closes it. Nothing else touches the stack, be it in use
or not. -/
theorem call_return_discipline (legacy : Bool) (seed : Int) (ops : List Operation) :
    let m := (fresh legacy seed).replay ops
    let calls := (fresh legacy seed).openCalls ops
    (m.registers.sp = calls.length ∧ m.registers.stack.toList.take calls.length = calls) ∧
    (∀ a : Fin 4096, m.memory.fetch m.registers.pc = .ok (0x2000 + a) →
      (m.step.report.outcome = .error (.stackOverflow m.registers.pc) ↔ calls.length = 16) ∧
      (calls.length ≠ 16 → m.step.report.outcome = .ok .executed ∧
        m.step.machine.registers.pc = a)) ∧
    (m.memory.fetch m.registers.pc = .ok 0x00EE →
      (m.step.report.outcome = .error (.stackUnderflow m.registers.pc) ↔ calls = []) ∧
      ∀ rest a, calls = rest ++ [a] → m.step.report.outcome = .ok .executed ∧
        m.step.machine.registers.pc = a + 2 ∧
        (fresh legacy seed).openCalls (ops ++ [.step]) = rest) ∧
    (∀ op, (op = .step → m.executed? ≠ some .ret ∧ ∀ a, m.executed? ≠ some (.call a)) →
      (m.perform op).registers.sp = m.registers.sp ∧
        (m.perform op).registers.stack = m.registers.stack) := by
  intro m calls
  have hr : m.InRange := reachable_inRange legacy seed ops
  have h : m.Nested calls := reachable_nested legacy seed ops
  refine ⟨⟨h.depth, (List.prefix_iff_eq_take.mp h.entries).symm⟩, fun a hw => ?_, fun hw => ?_, ?_⟩
  · exact h.step_call hr (pending?_eq_some_iff.mpr hw)
  · rw [openCalls_step]
    exact h.step_ret hr (pending?_eq_some_iff.mpr hw)
  · intro op hop
    by_cases hstep : op = .step
    · obtain ⟨hret, hcall⟩ := hop hstep
      subst hstep
      exact step_stack hr hret hcall
    · exact perform_stack hstep

/-- A subroutine is called, and returns at once. -/
theorem call_return_discipline_of_empty_subroutine :
    let before : List Operation := [.load [0x22, 0x04, 0x12, 0x00, 0x00, 0xEE]]
    let called := before ++ [.step]
    (((fresh false 0).replay before).step.report.outcome = .ok .executed ∧
      ((fresh false 0).replay before).step.machine.registers.pc = 0x204) ∧
    (fresh false 0).openCalls called = [0x200] ∧
    ((fresh false 0).replay called).step.report.outcome = .ok .executed ∧
      ((fresh false 0).replay called).step.machine.registers.pc = 0x202 ∧
      (fresh false 0).openCalls (called ++ [.step]) = [] := by
  intro before called
  have hnone : ((fresh false 0).openCalls before).length ≠ 16 := by decide +kernel
  have hcall : ((fresh false 0).replay before).pending? = some (.call 0x204) := by decide +kernel
  have hopen : (fresh false 0).openCalls called = [0x200] := by decide +kernel
  have hret : ((fresh false 0).replay called).pending? = some .ret := by decide +kernel
  obtain ⟨-, hcalls, -, -⟩ := call_return_discipline false 0 before
  obtain ⟨-, -, hreturns, -⟩ := call_return_discipline false 0 called
  refine ⟨?_, hopen, ?_⟩
  · exact (hcalls 0x204 (pending?_eq_some_iff.mp hcall)).2 hnone
  · exact (hreturns (pending?_eq_some_iff.mp hret)).2 [] 0x200 hopen

end Machine

end Chip8
