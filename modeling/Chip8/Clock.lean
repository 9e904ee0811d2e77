/-!
The timer clock turns elapsed seconds into whole timer ticks. What is left over after the last tick
stays in `last`, so the timers keep their rate however irregularly the clock is asked. The clock is
written for any type of seconds: runs use double precision, exact rationals show its law. Seconds
of limited range may overflow, and then the clock has no answer; rationals never do.
-/

namespace Chip8

inductive ClockError where
  | zeroRate
  | rateTooLarge
  | unmeasuredLapse
  | endlessCount
  deriving DecidableEq, Repr

def ClockError.message : ClockError → String
  | .zeroRate => "float division by zero"
  | .rateTooLarge => "int too large to convert to float"
  | .unmeasuredLapse => "cannot convert float NaN to integer"
  | .endlessCount => "cannot convert float infinity to integer"

/-- What the clock asks of its seconds. `fits` tells which integers are within their range, and
`wholes a b` is how often `b` goes into `a`, rounded down. -/
class Seconds (τ : Type) extends Add τ, Sub τ, Mul τ, Div τ where
  ofInt : Int → τ
  fits : Int → Bool
  wholes : τ → τ → Except ClockError Int

instance : Seconds Rat where
  ofInt z := z
  fits _ := true
  wholes a b := .ok (a / b).floor

structure Clock (τ : Type) where
  period : τ
  last : τ

namespace Clock

def timerRate : Nat := 60

variable {τ : Type} [Seconds τ]

def ofRate (hz : Int) (now : τ) : Clock τ := ⟨Seconds.ofInt 1 / Seconds.ofInt hz, now⟩

def ofRate? (hz : Int) (now : τ) : Except ClockError (Clock τ) :=
  if hz = 0 then .error .zeroRate
  else if Seconds.fits τ hz then .ok (ofRate hz now)
  else .error .rateTooLarge

/-- Takes ticks off the lapse. A moment before the last tick gives a negative number, and then the
clock stays where it is. -/
def pass (c : Clock τ) (ticks : Int) : Clock τ :=
  if ticks > 0 then { c with last := c.last + Seconds.ofInt ticks * c.period } else c

def due (c : Clock τ) (now : τ) : Except ClockError (Int × Clock τ) := do
  let ticks ← Seconds.wholes (now - c.last) c.period
  return (ticks, c.pass ticks)

def dues (c : Clock τ) : List τ → Except ClockError (List (Int × Clock τ))
  | [] => .ok []
  | t :: rest => do
    let (ticks, c) ← c.due t
    return (ticks, c) :: (← c.dues rest)

end Clock

end Chip8
