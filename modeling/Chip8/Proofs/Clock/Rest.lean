import Chip8.Clock.Double

/-!
# A clock at rest

While the same moment is read again and again no ticks are due, and the clock stays as it was
started. A double less itself is zero, unless it is infinite or no number, and then the clock has
no answer.
-/
namespace Chip8

/-- No whole tick goes into a lapse of nothing. -/
class StillSeconds (τ : Type) [Seconds τ] : Prop where
  wholes_still : ∀ (t : τ) {ticks : Int},
    Seconds.wholes (t - t) (Clock.ofRate Clock.timerRate t).period = .ok ticks → ticks = 0

instance : StillSeconds Rat where
  wholes_still t ticks h := by
    have hlapse : t - t = 0 := by grind
    have hzero : (0 / (Clock.ofRate Clock.timerRate t).period).floor = 0 := by
      rw [Rat.div_def, Rat.zero_mul]
      rfl
    rw [hlapse] at h
    exact (Except.ok.inj h).symm.trans hzero

namespace Double

open Float.Model

theorem unpacked_sub_self (format : Format) (u : UnpackedFloat) :
    u.sub format u = .zero .positive ∨ u.sub format u = .notANumber := by
  cases u with
  | notANumber => exact Or.inr rfl
  | infinity s => cases s <;> exact Or.inr rfl
  | zero s => cases s <;> exact Or.inl rfl
  | finite s m e hm =>
    let aligned := (UnpackedFloat.decreaseExponent m e (min e e)).1
    have hmantissa : s.apply aligned - s.apply aligned = 0 := Int.sub_self _
    apply Or.inl
    change UnpackedFloat.normalize format (s.apply aligned - s.apply aligned) _ _ = _
    rw [hmantissa]
    rfl

theorem sub_self (t : Float) : t - t = Float.ofBits 0 ∨ (t - t).isFinite = false := by
  cases t with
  | ofModel model =>
    change Float.ofModel (pack (UnpackedFloat.sub _ model.unpack model.unpack)) = _ ∨
      (Float.ofModel (pack (UnpackedFloat.sub _ model.unpack model.unpack))).isFinite = _
    rcases unpacked_sub_self .binary64 model.unpack with h | h
    · rw [h]
      exact Or.inl rfl
    · rw [h]
      exact Or.inr (by decide)

theorem wholes_nothing :
    wholes (Float.ofBits 0) (Clock.ofRate Clock.timerRate (0 : Float)).period = .ok 0 := by
  have hlapse : (Float.ofBits 0).isFinite = true := by decide
  have hcount :
      (floorQuotient (Float.ofBits 0) (ofInt 1 / ofInt Clock.timerRate)).isFinite = true := by
    decide +kernel
  have hzero : truncate (floorQuotient (Float.ofBits 0) (ofInt 1 / ofInt Clock.timerRate)) = 0 := by
    decide +kernel
  change wholes _ (ofInt 1 / ofInt Clock.timerRate) = _
  simp only [wholes, hlapse, hcount, hzero, if_true]

theorem wholes_of_not_finite {a b : Float} (h : a.isFinite = false) :
    wholes a b = .error .unmeasuredLapse := by
  simp only [wholes, h, Bool.false_eq_true, if_false]

instance : StillSeconds Float where
  wholes_still t ticks h := by
    -- The period is the same whenever the clock is started.
    change wholes (t - t) (Clock.ofRate Clock.timerRate (0 : Float)).period = _ at h
    rcases sub_self t with hzero | hbeyond
    · rw [hzero, wholes_nothing] at h
      exact (Except.ok.inj h).symm
    · rw [wholes_of_not_finite hbeyond] at h
      cases h

end Double

namespace Clock

variable {τ : Type} [Seconds τ]

theorem due_eq_ok {c c' : Clock τ} {now : τ} {ticks : Int} (h : c.due now = .ok (ticks, c')) :
    Seconds.wholes (now - c.last) c.period = .ok ticks ∧ c' = c.pass ticks := by
  unfold due at h
  cases hw : Seconds.wholes (now - c.last) c.period with
  | error e =>
    rw [hw] at h
    cases h
  | ok counted =>
    rw [hw] at h
    cases h
    exact ⟨rfl, rfl⟩

theorem due_still [StillSeconds τ] {t : τ} {ticks : Int} {c : Clock τ}
    (h : (ofRate timerRate t).due t = .ok (ticks, c)) : ticks = 0 ∧ c = ofRate timerRate t := by
  obtain ⟨hwholes, rfl⟩ := due_eq_ok h
  obtain rfl := StillSeconds.wholes_still t hwholes
  exact ⟨rfl, rfl⟩

end Clock

end Chip8
