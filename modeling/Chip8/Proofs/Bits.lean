import Chip8.Bits
import Mathlib.Data.Nat.Bitwise

/-!
# Masking integers

A mask that is not negative looks at the low bits of an integer only, and those are the same for all
integers that differ by a multiple of a power of two.
-/
namespace Chip8.Bits

variable {k : Nat}

theorem testBit_without (m n i : Nat) :
    (without m n).testBit i = (m.testBit i && !n.testBit i) := by
  rw [without, Nat.testBit_xor, Nat.testBit_and]
  cases m.testBit i with
  | false => rfl
  | true => cases n.testBit i with
    | false => rfl
    | true => rfl

/-- Below zero, the low bits are those of the complement, turned over. -/
theorem toNat_negSucc_emod (k m : Nat) :
    (Int.negSucc m % (2 ^ k : Nat)).toNat = 2 ^ k - (m % 2 ^ k + 1) := by
  have hlt : m % 2 ^ k < 2 ^ k := Nat.mod_lt m (Nat.two_pow_pos k)
  rw [Int.negSucc_emod m (by exact_mod_cast Nat.two_pow_pos k)]
  omega

theorem and_low (z : Int) {n : Nat} (hn : n < 2 ^ k) :
    and z n = ((z % (2 ^ k : Nat)).toNat &&& n : Nat) := by
  cases z with
  | ofNat m =>
    change ((m &&& n : Nat) : Int) = ((m % 2 ^ k &&& n : Nat) : Int)
    rw [← Nat.mod_eq_of_lt (Nat.lt_of_le_of_lt Nat.and_le_right hn : m &&& n < 2 ^ k),
      Nat.and_mod_two_pow, Nat.mod_eq_of_lt hn]
  | negSucc m =>
    change ((without n m : Nat) : Int) = _
    rw [toNat_negSucc_emod]
    congr 1
    apply Nat.eq_of_testBit_eq
    intro i
    have hm : m % 2 ^ k < 2 ^ k := Nat.mod_lt m (Nat.two_pow_pos k)
    rw [testBit_without, Nat.testBit_and, Nat.testBit_two_pow_sub_succ hm, Nat.testBit_mod_two_pow]
    by_cases hi : i < k
    · simp [hi, Bool.and_comm]
    · -- The mask has no bits so far up.
      have hout : n.testBit i = false := Nat.testBit_lt_two_pow
        (Nat.lt_of_lt_of_le hn (Nat.pow_le_pow_right (by decide) (Nat.not_lt.mp hi)))
      simp [hout]

/-- What a byte keeps of an integer. -/
theorem toNat_ofInt_eq_and (z : Int) : ((UInt8.ofInt z).toNat : Int) = and z 0xFF := by
  have hmask : and z (255 : Nat) = _ := and_low (k := 8) z (by decide)
  have hlow : (z % (2 ^ 8 : Nat)).toNat &&& 255 = (z % (2 ^ 8 : Nat)).toNat % 2 ^ 8 :=
    Nat.and_two_pow_sub_one_eq_mod _ 8
  rw [show (0xFF : Int) = (255 : Nat) from rfl, hmask, hlow, UInt8.ofInt, UInt8.toNat_ofNat']
  omega

end Chip8.Bits
