import Mathlib.Algebra.Order.Field.Rat
import Mathlib.Tactic.Linarith
import Mathlib.Tactic.Ring
import Chip8.Clock

/-!
# Polling the clock

Where seconds are exact, the ticks that a clock has handed out are the whole periods up to the
latest moment at which it was asked. A part of a period is kept for later, and a moment before the
last tick neither brings ticks nor takes any back. So it does not matter how often, or in which
order, the clock is asked on the way.
-/
namespace Chip8.Clock

/-- The ticks of some answers. A number below zero stands for no tick. -/
def handedOut {τ : Type} (answers : List (Int × Clock τ)) : Int :=
  ((answers.map Prod.fst).filter (0 < ·)).sum

def leftBy {τ : Type} (c : Clock τ) (answers : List (Int × Clock τ)) : Clock τ :=
  (answers.map Prod.snd).getLastD c

def latest (start : Rat) (times : List Rat) : Rat := times.foldl max start

/-- What holds of a clock that was started at one moment, has since been asked until another, and
has handed out so many ticks: less than a period is left over. -/
structure InStep (period start now : Rat) (total : Int) (c : Clock Rat) : Prop where
  period_eq : c.period = period
  last_eq : c.last = start + total * period
  last_le : c.last ≤ now
  lt_next : now < c.last + period

variable {period start now t : Rat} {total : Int} {c : Clock Rat} {times : List Rat}

theorem inStep_of_start (hp : 0 < period) : InStep period start start 0 ⟨period, start⟩ where
  period_eq := rfl
  last_eq := by simp
  last_le := le_rfl
  lt_next := by linarith

theorem InStep.total_eq (h : InStep period start now total c) (hp : 0 < period) :
    total = ((now - start) / period).floor := by
  have hlast := h.last_eq
  have hle := h.last_le
  have hlt := h.lt_next
  apply le_antisymm
  · rw [Rat.le_floor_iff, le_div_iff₀ hp]
    linarith
  · rw [← Int.lt_add_one_iff, Rat.floor_lt_iff, div_lt_iff₀ hp]
    push_cast
    linarith

theorem handedOut_cons {τ : Type} (ticks : Int) (c : Clock τ) (rest : List (Int × Clock τ)) :
    handedOut ((ticks, c) :: rest) = max 0 ticks + handedOut rest := by
  unfold handedOut
  rw [List.map_cons, List.filter_cons]
  by_cases h : 0 < ticks
  · rw [if_pos (by simpa using h), List.sum_cons, max_eq_right h.le]
  · rw [if_neg (by simpa using h), max_eq_left (not_lt.mp h), Int.zero_add]

/-- The whole periods of a lapse are taken off it if there are any, and the time goes on to the
later of the two moments. -/
theorem InStep.due (h : InStep period start now total c) (hp : 0 < period) (t : Rat) :
    ∃ ticks c', c.due t = .ok (ticks, c') ∧
      InStep period start (max now t) (total + max 0 ticks) c' := by
  let ticks := ((t - c.last) / c.period).floor
  have hfloor : (ticks : Rat) * period ≤ t - c.last := by
    rw [← le_div_iff₀ hp, ← h.period_eq]
    exact Rat.floor_le _
  have hnext : t - c.last < (ticks + 1) * period := by
    have hlt : (t - c.last) / c.period < ((ticks + 1 : Int) : Rat) := Rat.lt_floor_add_one _
    rw [h.period_eq, div_lt_iff₀ hp] at hlt
    exact_mod_cast hlt
  have hlast := h.last_eq
  have hle := h.last_le
  have hlt := h.lt_next
  refine ⟨ticks, c.pass ticks, rfl, ?_⟩
  by_cases hticks : 0 < ticks
  · -- At least one period has gone by since the last tick, so no moment so far was as late.
    have hone : period ≤ ticks * period :=
      le_mul_of_one_le_left hp.le (by exact_mod_cast hticks)
    have hpass : c.pass ticks = { c with last := c.last + ticks * c.period } := if_pos hticks
    rw [hpass, max_eq_right (by linarith), max_eq_right hticks.le]
    refine ⟨h.period_eq, ?_, ?_, ?_⟩
    · push_cast
      rw [h.period_eq, hlast]
      ring
    · rw [h.period_eq]
      linarith
    · rw [h.period_eq]
      linarith
  · have hnone : (ticks + 1 : Rat) * period ≤ period :=
      mul_le_of_le_one_left hp.le (by exact_mod_cast (show ticks + 1 ≤ 1 by omega))
    have hpass : c.pass ticks = c := if_neg hticks
    rw [hpass, max_eq_left (not_lt.mp hticks), Int.add_zero]
    refine ⟨h.period_eq, h.last_eq, le_max_of_le_left hle, max_lt hlt ?_⟩
    linarith

theorem InStep.dues (h : InStep period start now total c) (hp : 0 < period) (times : List Rat) :
    ∃ answers, c.dues times = .ok answers ∧
      InStep period start (latest now times) (total + handedOut answers) (c.leftBy answers) := by
  induction times generalizing now total c with
  | nil =>
    refine ⟨[], rfl, ?_⟩
    simpa [handedOut, leftBy, latest] using h
  | cons t rest ih =>
    obtain ⟨ticks, c', hdue, hc'⟩ := h.due hp t
    obtain ⟨answers, hdues, hrest⟩ := ih hc'
    refine ⟨(ticks, c') :: answers, ?_, ?_⟩
    · simp only [Clock.dues, hdue]
      change (c'.dues rest >>= _) = _
      rw [hdues]
      rfl
    · rw [handedOut_cons, ← Int.add_assoc, leftBy, List.map_cons, List.getLastD_cons]
      exact hrest

/-- A clock of any rate above zero, asked at any moments in any order, has handed out the whole
ticks between its start and the latest of them, and stands at the last tick. So another list of
moments that begins and ends there brings as many ticks. A clock built for a whole number of ticks
in a second is such a clock. -/
theorem ticks_independent_of_polling {hz : Rat} (hhz : 0 < hz) (start : Rat) (times : List Rat) :
    let c : Clock Rat := ⟨1 / hz, start⟩
    (∀ n : Int, (n : Rat) = hz → ofRate? n start = .ok c) ∧
    ∃ answers, c.dues times = .ok answers ∧
      handedOut answers = ((latest start times - start) * hz).floor ∧
      (c.leftBy answers).period = 1 / hz ∧
      (c.leftBy answers).last = start + handedOut answers * (1 / hz) ∧
      0 ≤ latest start times - (c.leftBy answers).last ∧
      latest start times - (c.leftBy answers).last < 1 / hz ∧
      ∀ others, latest start others = latest start times →
        ∃ answers', c.dues others = .ok answers' ∧ handedOut answers' = handedOut answers := by
  intro c
  have hp : 0 < 1 / hz := one_div_pos.mpr hhz
  have hstart : InStep (1 / hz) start start 0 c := inStep_of_start hp
  have hcount (times : List Rat) : ∃ answers, c.dues times = .ok answers ∧
      handedOut answers = ((latest start times - start) * hz).floor ∧
      InStep (1 / hz) start (latest start times) (handedOut answers) (c.leftBy answers) := by
    obtain ⟨answers, hdues, hleft⟩ := hstart.dues hp times
    rw [Int.zero_add] at hleft
    refine ⟨answers, hdues, ?_, hleft⟩
    rw [hleft.total_eq hp, div_div_eq_mul_div, div_one]
  obtain ⟨answers, hdues, htotal, hleft⟩ := hcount times
  refine ⟨?_, answers, hdues, htotal, hleft.period_eq, hleft.last_eq, ?_, ?_, ?_⟩
  · rintro n rfl
    have hn : n ≠ 0 := by
      rintro rfl
      simp at hhz
    rw [ofRate?, if_neg hn]
    rfl
  · have := hleft.last_le
    linarith
  · have := hleft.lt_next
    linarith
  · intro others hothers
    obtain ⟨answers', hdues', htotal', -⟩ := hcount others
    refine ⟨answers', hdues', ?_⟩
    rw [htotal', htotal, hothers]

/-- Six ticks of sixty in a second, at once or by and by, with a step back in time on the way. -/
theorem ticks_independent_of_polling_backwards :
    let c : Clock Rat := ⟨1 / 60, 0⟩
    let times : List Rat := [1 / 100, 1 / 50, -3, 11 / 100, 21 / 1000]
    let others : List Rat := [11 / 100]
    (0 : Rat) < 60 ∧ latest 0 others = latest 0 times ∧
      ∃ answers answers', c.dues times = .ok answers ∧ c.dues others = .ok answers' ∧
        handedOut answers = 6 ∧ handedOut answers' = 6 := by
  intro c times others
  have hrate : (0 : Rat) < 60 := by decide
  have hsame : latest 0 others = latest 0 times := by decide +kernel
  have hsix : ((latest 0 times - 0) * 60).floor = 6 := by decide +kernel
  obtain ⟨-, answers, hdues, htotal, -, -, -, -, hothers⟩ :=
    ticks_independent_of_polling hrate 0 times
  obtain ⟨answers', hdues', hequal⟩ := hothers others hsame
  have htotal : handedOut answers = 6 := htotal.trans hsix
  exact ⟨hrate, hsame, answers, answers', hdues, hdues', htotal, hequal.trans htotal⟩

end Chip8.Clock
