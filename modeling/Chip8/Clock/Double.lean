import Chip8.Clock

/-!
Double precision seconds. Conversions go through exact integers: a finite double is `m * 2 ^ e`, a
quotient of naturals is rounded to the nearest double with ties to the even one, and the remainder
of a division is exact.
-/

namespace Chip8.Double

/-- A finite double is the first number times two to the power of the second. -/
def decode (f : Float) : Int × Int :=
  let bits := f.toBits.toNat
  let fraction : Nat := bits % (1 <<< 52)
  let exponent : Nat := (bits >>> 52) % (1 <<< 11)
  let magnitude : Nat := if exponent = 0 then fraction else (1 <<< 52) + fraction
  let least : Nat := if exponent = 0 then 1 else exponent
  (if bits < 1 <<< 63 then magnitude else -magnitude, (least : Int) - 1075)

/-- `num / (den * 2 ^ e)`, to the nearest integer, ties to the even one. -/
def roundScaled (num den : Nat) (e : Int) : Nat :=
  let num := num <<< (-e).toNat
  let den := den <<< e.toNat
  let q := num / den
  let twice := 2 * (num % den)
  if twice > den ∨ (twice = den ∧ q % 2 = 1) then q + 1 else q

def gridExponent (num den : Nat) : Int :=
  let e : Int := num.log2 - den.log2 - 52
  let e := if num <<< (-e).toNat < den <<< (52 + e.toNat) then e - 1 else e
  if e < -1074 then -1074 else e

/-- The double `m * 2 ^ e`, put together from its bits. The first number has 53 digits, or fewer at
the least exponent, or is the next power of two; what is beyond the range of doubles is infinite. -/
def ofGrid (m : Nat) (e : Int) : Float :=
  Float.ofBits (UInt64.ofNat (min ((e + 1074).toNat <<< 52 + m) (0x7FF <<< 52)))

def ofQuotient (num den : Nat) : Float :=
  if num = 0 then 0
  else
    let e := gridExponent num den
    ofGrid (roundScaled num den e) e

def ofInt (z : Int) : Float :=
  if z < 0 then -ofQuotient z.natAbs 1 else ofQuotient z.natAbs 1

def truncate (f : Float) : Int :=
  let (m, e) := decode f
  if 0 ≤ e then m * (1 <<< e.toNat : Nat) else m.tdiv (1 <<< (-e).toNat : Nat)

/-- The exact remainder of a finite `a` by a finite divisor other than zero, with the sign of `a`. -/
def remainder (a b : Float) : Float :=
  if a.abs < b.abs then a
  else
    let (m, e) := decode a
    let (n, f) := decode b
    let g := if e ≤ f then e else f
    let rest := (m.natAbs <<< (e - g).toNat) % (n.natAbs <<< (f - g).toNat)
    let r := ofQuotient (rest <<< g.toNat) (1 <<< (-g).toNat)
    if m < 0 then -r else r

def roundDown (f : Float) : Int :=
  let (m, e) := decode f
  if 0 ≤ e then m * (1 <<< e.toNat : Nat) else m / (1 <<< (-e).toNat : Nat)

def floor (f : Float) : Float := if f.isFinite then ofInt (roundDown f) else f

/-- How often `b` goes into `a`, rounded down. The quotient is taken of what is left when the
remainder is gone, which is within one rounding of an integer, and is then drawn to it. -/
def floorQuotient (a b : Float) : Float :=
  let rest := remainder a b
  let whole := (a - rest) / b
  let quotient := if rest != 0 && (rest < 0) != (b < 0) then whole - 1 else whole
  let below := floor quotient
  if quotient - below > 0.5 then below + 1 else below

/-- How often `b` goes into `a` as an integer. A lapse that is not finite has no answer, and a
finite one has none if the quotient is beyond the range of doubles. -/
def wholes (a b : Float) : Except ClockError Int :=
  if a.isFinite then
    let q := floorQuotient a b
    if q.isFinite then .ok (truncate q) else .error .endlessCount
  else .error .unmeasuredLapse

instance : Seconds Float where
  ofInt := ofInt
  fits z := (ofInt z).isFinite
  wholes := wholes

end Chip8.Double
