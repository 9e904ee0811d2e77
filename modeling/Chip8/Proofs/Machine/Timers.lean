import Chip8.Proofs.Machine.Account
import Chip8.Proofs.Machine.Reachable
import Chip8.Proofs.Machine.RegisterEffect

/-!
# The timers over a history

The account of a timer is the value that an instruction gave it last, with the ticks that have come
since. The timer shows what is left of that value. A tick takes one off until nothing is left, so
that late ticks do not count against the next value.
-/
namespace Chip8

inductive Timer where
  | delay
  | sound
  deriving DecidableEq, Repr

namespace Timer

def setter (x : Nibble) : Timer → Instruction
  | .delay => .setDelay x
  | .sound => .setSound x

def source? : Timer → Instruction → Option Nibble
  | .delay, .setDelay x => some x
  | .sound, .setSound x => some x
  | _, _ => none

theorem source?_eq_some_iff {t : Timer} {i : Instruction} {x : Nibble} :
    t.source? i = some x ↔ i = t.setter x := by
  cases t with
  | delay => cases i <;> simp [source?, setter]
  | sound => cases i <;> simp [source?, setter]

theorem source?_of_work {i : Instruction} (t : Timer) (hi : i.isWork = true) :
    t.source? i = none := by
  cases hs : t.source? i with
  | none => rfl
  | some x =>
    rw [source?_eq_some_iff] at hs
    subst hs
    cases t <;> cases hi

end Timer

def Registers.timer (r : Registers) : Timer → Int
  | .delay => r.delay
  | .sound => r.sound

theorem monus_max (z : Int) : monus (max 0 z) = max 0 (z - 1) := by
  unfold monus
  split <;> omega

structure Countdown where
  value : Int
  ticks : Nat
  deriving DecidableEq, Repr

namespace Countdown

def initial : Countdown := ⟨0, 0⟩

def remaining (s : Countdown) : Int := max 0 (s.value - s.ticks)

theorem remaining_of_new {value : Int} (h : 0 ≤ value) : remaining ⟨value, 0⟩ = value := by
  simp only [remaining]
  omega

theorem monus_remaining (s : Countdown) : monus s.remaining = remaining ⟨s.value, s.ticks + 1⟩ := by
  have hless : max 0 (s.value - s.ticks - 1) = max 0 (s.value - (s.ticks + 1 : Nat)) := by omega
  exact (monus_max (s.value - s.ticks)).trans hless

end Countdown

namespace Machine

variable {m : Machine} {i : Instruction} {t : Timer} {op : Operation} {s : Countdown}

/-- The value that an operation gives to a timer of the machine that meets it. -/
def timerSet? (t : Timer) : Machine × Operation → Option Int
  | (m, .step) => (m.executed?.bind t.source?).map m.v
  | _ => none

def runDown (t : Timer) (s : Countdown) (met : Machine × Operation) : Countdown :=
  match timerSet? t met with
  | some value => ⟨value, 0⟩
  | none => if met.2 = .tick then ⟨s.value, s.ticks + 1⟩ else s

def countdown (m : Machine) (t : Timer) (ops : List Operation) : Countdown :=
  (m.trace ops).foldl (runDown t) .initial

theorem RegisterEffect.timer {r r' : Registers} (he : RegisterEffect r i r') (t : Timer) :
    r'.timer t = ((t.source? i).map r.v.get).getD (r.timer t) := by
  cases he with
  | called => cases t <;> rfl
  | returned => cases t <;> rfl
  | delaySet => cases t <;> rfl
  | soundSet => cases t <;> rfl
  | worked hi =>
    rw [t.source?_of_work hi]
    cases t <;> rfl

theorem timerSet?_step_of_executed (h : m.executed? = some i) :
    timerSet? t (m, .step) = (t.source? i).map m.v := by
  simp only [timerSet?, h, Option.bind_some]

theorem timerSet?_step_of_idle (h : m.executed? = none) : timerSet? t (m, .step) = none := by
  simp only [timerSet?, h, Option.bind_none, Option.map_none]

theorem eq_step_of_timerSet? {value : Int} (h : timerSet? t (m, op) = some value) :
    op = .step := by
  cases op with
  | step => rfl
  | load | tick | key | display | render => cases h

theorem timerSet?_of_not_setter (h : op = .step → ∀ x, m.executed? ≠ some (t.setter x)) :
    timerSet? t (m, op) = none := by
  cases op with
  | step =>
    cases hx : m.executed? with
    | none => exact timerSet?_step_of_idle hx
    | some i =>
      rw [timerSet?_step_of_executed hx]
      cases hs : t.source? i with
      | none => rfl
      | some x =>
        rw [Timer.source?_eq_some_iff] at hs
        exact absurd (hs ▸ hx) (h rfl x)
  | load | tick | key | display | render => rfl

/-- A step moves a timer only by setting it. -/
theorem step_timer (hr : m.InRange) (t : Timer) : m.step.machine.registers.timer t =
    (timerSet? t (m, .step)).getD (m.registers.timer t) := by
  have ht := step_turn m
  generalize m.step.machine = after at ht
  cases ht with
  | idle hn r waiting cycles hregs =>
    obtain rfl := hregs hr.sp_nonneg hr.sp_le
    rw [timerSet?_step_of_idle hn]
    rfl
  | @carried i m' hi hx hk =>
    have he : RegisterEffect m.begun.registers i m'.registers :=
      registerEffect_of_execute hr.sp_nonneg hr.sp_le hx
    rw [timerSet?_step_of_executed hi]
    exact he.timer t

theorem perform_timer_of_unset (hr : m.InRange) (hset : timerSet? t (m, op) = none)
    (hop : op ≠ .tick) : (m.perform op).registers.timer t = m.registers.timer t := by
  cases op with
  | load program =>
    exact load_preserves (P := fun m' => m'.registers.timer t = m.registers.timer t) rfl
      fun _ => rfl
  | step =>
    change m.step.machine.registers.timer t = _
    rw [step_timer hr, hset]
    rfl
  | tick => exact absurd rfl hop
  | key => rfl
  | display => rfl
  | render => rfl

theorem tick_timer (m : Machine) (t : Timer) :
    m.tick.registers.timer t = monus (m.registers.timer t) := by
  cases t <;> rfl

theorem timerSet?_nonneg (hr : m.InRange) {value : Int}
    (h : timerSet? t (m, op) = some value) : 0 ≤ value := by
  cases op with
  | step =>
    obtain ⟨x, -, rfl⟩ := Option.map_eq_some_iff.mp h
    exact (hr.v_byte x).1
  | load | tick | key | display | render => cases h

/-- What one operation does to a timer, it does to the account of the timer. -/
theorem perform_preserves_remaining (hr : m.InRange) (h : m.registers.timer t = s.remaining)
    (op : Operation) : (m.perform op).registers.timer t = (runDown t s (m, op)).remaining := by
  unfold runDown
  cases hset : timerSet? t (m, op) with
  | some value =>
    obtain rfl := eq_step_of_timerSet? hset
    change m.step.machine.registers.timer t = _
    rw [step_timer hr, hset, Countdown.remaining_of_new (timerSet?_nonneg hr hset)]
    rfl
  | none =>
    by_cases hop : op = .tick
    · subst hop
      change m.tick.registers.timer t = _
      rw [tick_timer, h, Countdown.monus_remaining]
      rfl
    · rw [perform_timer_of_unset hr hset hop, h]
      simp only [if_neg hop]

theorem reachable_timer (legacy : Bool) (seed : Int) (ops : List Operation) (t : Timer) :
    ((fresh legacy seed).replay ops).registers.timer t =
      ((fresh legacy seed).countdown t ops).remaining := by
  refine (account_invariant
    (R := fun m s => m.InRange ∧ m.registers.timer t = Countdown.remaining s) ?_ ?_).2
  · rintro op - m s ⟨hr, h⟩
    exact ⟨hr.perform op, perform_preserves_remaining hr h op⟩
  · refine ⟨.of_initial rfl, ?_⟩
    cases t <;> rfl

/-- `V0` is loaded with 5 and given to the delay timer, and two ticks come after. -/
example :
    (fresh false 0).countdown .delay
      [.load [0x60, 0x05, 0xF0, 0x15], .tick, .step, .step, .tick, .tick] = ⟨5, 2⟩ := by
  decide +kernel

theorem step_readDelay {x : Nibble} (h : m.executed? = some (.readDelay x)) :
    m.step.machine.v x = m.registers.timer .delay := by
  obtain ⟨m', hx, _, hs⟩ := step_of_executed h
  rw [hs]
  cases hx
  exact (get_set m.registers.v x x m.registers.delay).trans (if_pos rfl)

/-- Over every history a timer shows the value that it was set to last, less the ticks since, and
nothing below zero; a timer that was never set shows zero. The instruction that reads the delay timer
loads that number. Only ticks and the instruction that sets a timer move it. -/
theorem timers_run_down (legacy : Bool) (seed : Int) (ops : List Operation) :
    let m := (fresh legacy seed).replay ops
    let last := fun t => (fresh legacy seed).countdown t ops
    (m.registers.delay = max 0 ((last .delay).value - (last .delay).ticks) ∧
      m.registers.sound = max 0 ((last .sound).value - (last .sound).ticks)) ∧
    (∀ x, m.executed? = some (.readDelay x) →
      m.step.machine.v x = max 0 ((last .delay).value - (last .delay).ticks)) ∧
    (∀ op, op ≠ .tick →
      ((op = .step → ∀ x, m.executed? ≠ some (.setDelay x)) →
        (m.perform op).registers.delay = m.registers.delay) ∧
      ((op = .step → ∀ x, m.executed? ≠ some (.setSound x)) →
        (m.perform op).registers.sound = m.registers.sound)) := by
  intro m last
  have hr : m.InRange := reachable_inRange legacy seed ops
  have hshown (t : Timer) : m.registers.timer t = (last t).remaining :=
    reachable_timer legacy seed ops t
  refine ⟨⟨hshown .delay, hshown .sound⟩, ?_, ?_⟩
  · intro x hx
    rw [step_readDelay hx]
    exact hshown .delay
  · intro op hop
    constructor
    · intro h
      exact perform_timer_of_unset (t := .delay) hr (timerSet?_of_not_setter h) hop
    · intro h
      exact perform_timer_of_unset (t := .sound) hr (timerSet?_of_not_setter h) hop

/-- A delay of five is read after three ticks. -/
theorem timers_run_down_until_read :
    let ops : List Operation :=
      [.load [0x60, 0x05, 0xF0, 0x15, 0xF1, 0x07], .step, .step, .tick, .tick, .tick]
    ((fresh false 0).replay ops).executed? = some (.readDelay 1) ∧
      ((fresh false 0).replay ops).step.machine.v 1 = 2 ∧
      (((fresh false 0).replay ops).perform .step).registers.delay = 2 := by
  intro ops
  have hread : ((fresh false 0).replay ops).executed? = some (.readDelay 1) := by decide +kernel
  have hset : ((fresh false 0).countdown .delay ops).value = 5 := by decide +kernel
  have hticks : ((fresh false 0).countdown .delay ops).ticks = 3 := by decide +kernel
  obtain ⟨⟨hdelay, -⟩, hloads, hkept⟩ := timers_run_down false 0 ops
  have hv := hloads 1 hread
  rw [hset, hticks] at hv hdelay
  have hunset : ∀ x, ((fresh false 0).replay ops).executed? ≠ some (.setDelay x) := by
    intro x hx
    rw [hread] at hx
    cases hx
  exact ⟨hread, hv, ((hkept .step nofun).1 fun _ => hunset).trans hdelay⟩

end Machine

end Chip8
