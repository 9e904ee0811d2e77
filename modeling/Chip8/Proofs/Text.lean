import Chip8.Text.Numeral
import Mathlib.Algebra.Group.Nat.Defs

/-!
# Reading texts back

A text is cut at its line breaks, and lines without a break of their own are read as they were joined.

A hexadecimal numeral is read digit by digit, and a sign in front of it turns the number over. Padding
does not show in what is read, so numerals of one width tell all integers apart. In a longer text a
numeral stands behind a mark.
-/
namespace Chip8

namespace Text

def lines (text : String) : List (List Char) := text.toList.splitOn '\n'

theorem lines_intercalate {ls : List String} (hne : ls ≠ []) (h : ∀ l ∈ ls, '\n' ∉ l.toList) :
    lines ("\n".intercalate ls) = ls.map String.toList := by
  rw [lines, String.toList_intercalate]
  apply List.splitOn_intercalate
  · simpa using h
  · simpa using hne

end Text

namespace Hex

def value? (c : Char) : Option Nat :=
  if '0' ≤ c ∧ c ≤ '9' then some (c.toNat - 48)
  else if 'A' ≤ c ∧ c ≤ 'F' then some (c.toNat - 55)
  else none

def number (cs : List Char) : Nat := cs.foldl (fun n c => 16 * n + (value? c).getD 0) 0

def read : List Char → Int
  | '-' :: cs => -(number cs : Int)
  | cs => number cs

def digitsOnly (cs : List Char) : Bool := !cs.isEmpty && cs.all fun c => (value? c).isSome

def isNumeral : List Char → Bool
  | '-' :: cs => digitsOnly cs
  | cs => digitsOnly cs

def read? (cs : List Char) : Option Int := if isNumeral cs then some (read cs) else none

/-- What stands behind the first `0x`. -/
def behindMark? : List Char → Option (List Char)
  | '0' :: 'x' :: rest => some rest
  | _ :: rest => behindMark? rest
  | [] => none

def marked? (cs : List Char) : Option Int := (behindMark? cs).bind read?

variable {c : Char} {n : Nat} {a b z : Int}

theorem value?_digit {d : Nat} (h : d < 16) : value? (digit d) = some d := by
  have hall : ∀ d < 16, value? (digit d) = some d := by decide
  exact hall d h

theorem value?_lt {d : Nat} (h : value? c = some d) : d < 16 := by
  unfold value? at h
  split at h
  · rename_i hdecimal
    have hle : c.toNat ≤ 57 := hdecimal.2
    have := Option.some.inj h
    omega
  · obtain ⟨hletter, hvalue⟩ := Option.ite_none_right_eq_some.mp h
    have hle : c.toNat ≤ 70 := hletter.2
    have := Option.some.inj hvalue
    omega

theorem digit_ne_sign {d : Nat} (h : d < 16) : digit d ≠ '-' := by
  intro heq
  have hvalue := value?_digit h
  rw [heq] at hvalue
  cases hvalue

theorem number_concat (cs : List Char) (c : Char) :
    number (cs ++ [c]) = 16 * number cs + (value? c).getD 0 := by
  rw [number, List.foldl_append]
  rfl

theorem number_digits (n : Nat) : number (digits n) = n := by
  fun_induction digits n with
  | case1 n h =>
    change 16 * 0 + (value? (digit n)).getD 0 = n
    rw [value?_digit h, Option.getD_some, Nat.mul_zero, Nat.zero_add]
  | case2 n h ih =>
    rw [number_concat, ih, value?_digit (Nat.mod_lt n (by decide)), Option.getD_some]
    omega

theorem number_zeroPad (width : Nat) (ds : List Char) : number (zeroPad width ds) = number ds := by
  unfold zeroPad
  induction width - ds.length with
  | zero => rfl
  | succ k ih => exact ih

theorem digit_of_mem_digits (h : c ∈ digits n) : ∃ d < 16, c = digit d := by
  fun_induction digits n with
  | case1 n hn => exact ⟨n, hn, List.mem_singleton.mp h⟩
  | case2 n _ ih =>
    rcases List.mem_append.mp h with h | h
    · exact ih h
    · exact ⟨n % 16, Nat.mod_lt n (by decide), List.mem_singleton.mp h⟩

theorem digit_of_mem_zeroPad {width : Nat} (h : c ∈ zeroPad width (digits n)) :
    ∃ d < 16, c = digit d := by
  rcases List.mem_append.mp h with h | h
  · exact ⟨0, by decide, List.eq_of_mem_replicate h⟩
  · exact digit_of_mem_digits h

theorem ne_sign_of_mem_zeroPad {width : Nat} (h : c ∈ zeroPad width (digits n)) : c ≠ '-' := by
  obtain ⟨d, hd, rfl⟩ := digit_of_mem_zeroPad h
  exact digit_ne_sign hd

theorem read_unsigned {cs : List Char} (h : ∀ c ∈ cs, c ≠ '-') : read cs = number cs := by
  unfold read
  split
  · exact absurd rfl (h '-' List.mem_cons_self)
  · rfl

theorem read_padded (width : Nat) (z : Int) : read (padded width z) = z := by
  unfold padded
  by_cases hz : z < 0
  · rw [if_pos hz, read, number_zeroPad, number_digits]
    omega
  · rw [if_neg hz, read_unsigned fun c hc => ne_sign_of_mem_zeroPad hc, number_zeroPad,
      number_digits]
    omega

theorem read_text (width : Nat) (z : Int) : read (text width z).toList = z := by
  rw [text, String.toList_ofList, read_padded]

theorem text_injective {width : Nat} (h : text width a = text width b) : a = b := by
  rw [← read_text width a, h, read_text]

/-- A numeral is written with sixteen digits and the sign, and with nothing else. -/
theorem sign_or_digit_of_mem_text {width : Nat} (h : c ∈ (text width z).toList) :
    c = '-' ∨ ∃ d < 16, c = digit d := by
  rw [text, String.toList_ofList, padded] at h
  by_cases hz : z < 0
  · rw [if_pos hz] at h
    rcases List.mem_cons.mp h with h | h
    · exact Or.inl h
    · exact Or.inr (digit_of_mem_zeroPad h)
  · rw [if_neg hz] at h
    exact Or.inr (digit_of_mem_zeroPad h)

theorem not_mem_text {width : Nat} (hsign : c ≠ '-') (hdigit : value? c = none) :
    c ∉ (text width z).toList := by
  intro h
  rcases sign_or_digit_of_mem_text h with rfl | ⟨d, hd, rfl⟩
  · exact hsign rfl
  · rw [value?_digit hd] at hdigit
    cases hdigit

theorem digitsOnly_zeroPad (width n : Nat) : digitsOnly (zeroPad width (digits n)) = true := by
  have hsome : digits n ≠ [] := by
    rw [digits]
    split <;> simp
  rw [digitsOnly, Bool.and_eq_true, List.all_eq_true]
  constructor
  · simp [zeroPad, hsome]
  · intro c hc
    obtain ⟨d, hd, rfl⟩ := digit_of_mem_zeroPad hc
    rw [value?_digit hd]
    rfl

theorem isNumeral_padded (width : Nat) (z : Int) : isNumeral (padded width z) = true := by
  unfold padded
  by_cases hz : z < 0
  · rw [if_pos hz]
    exact digitsOnly_zeroPad _ _
  · rw [if_neg hz, isNumeral]
    · exact digitsOnly_zeroPad _ _
    -- Without a sign the first character is a digit.
    · intro cs hcs
      have hmem : '-' ∈ zeroPad width (digits z.natAbs) := by
        rw [hcs]
        exact List.mem_cons_self
      exact ne_sign_of_mem_zeroPad hmem rfl

theorem read?_text (width : Nat) (z : Int) : read? (text width z).toList = some z := by
  rw [text, String.toList_ofList, read?, if_pos (isNumeral_padded width z), read_padded]

theorem behindMark?_append {cs : List Char} (h : 'x' ∉ cs) (rest : List Char) :
    behindMark? (cs ++ '0' :: 'x' :: rest) = some rest := by
  induction cs with
  | nil => rfl
  | cons c cs ih =>
    rw [List.mem_cons, not_or] at h
    rw [List.cons_append, behindMark?]
    · exact ih h.2
    -- The mark cannot begin at `c`: what comes next is no `x`.
    · intro after _ hafter
      cases cs with
      | nil => cases hafter
      | cons d ds =>
        cases hafter
        exact h.2 List.mem_cons_self

theorem marked?_append {cs : List Char} (h : 'x' ∉ cs) (width : Nat) (z : Int) :
    marked? (cs ++ '0' :: 'x' :: (text width z).toList) = some z := by
  rw [marked?, behindMark?_append h, Option.bind_some, read?_text]

theorem length_digits_le {k : Nat} (h : n < 16 ^ (k + 1)) : (digits n).length ≤ k + 1 := by
  induction k generalizing n with
  | zero =>
    rw [digits, if_pos (by omega)]
    exact Nat.le_refl 1
  | succ k ih =>
    rw [digits]
    split
    · exact Nat.succ_le_succ (Nat.zero_le _)
    · have hshort := ih (n := n / 16) (Nat.div_lt_of_lt_mul (by rw [Nat.pow_succ] at h; omega))
      rw [List.length_append, List.length_singleton]
      omega

/-- A number that has no more digits than the width is padded to the width. -/
theorem length_text {k : Nat} (hz : 0 ≤ z) (h : z < (16 ^ (k + 1) : Nat)) :
    (text (k + 1) z).toList.length = k + 1 := by
  obtain ⟨n, rfl⟩ := Int.eq_ofNat_of_zero_le hz
  have hshort := length_digits_le (n := n) (k := k) (by omega)
  rw [text, String.toList_ofList, padded, if_neg (by omega), zeroPad, Int.natAbs_natCast,
    List.length_append, List.length_replicate]
  omega

end Hex

end Chip8
