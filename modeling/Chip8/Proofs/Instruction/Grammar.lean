import Chip8.Proofs.Bits
import Chip8.Proofs.Instruction.Decode
import Chip8.Proofs.Shape
import Chip8.Proofs.Text
import Mathlib.Data.List.Find

/-!
# The grammar of words

A form is written like a word, with letters where the operands stand. Mask and pattern of an entry
say of each digit whether it is fixed, so an entry accepts the words of its form and no others; and
no word has two forms, so the order of the table plays no part.
-/
namespace Chip8.Instruction

def forms : List String := [
  "00E0", "00EE", "1nnn", "2nnn", "3xkk", "4xkk", "5xy0", "6xkk", "7xkk", "8xy0", "8xy1", "8xy2",
  "8xy3", "8xy4", "8xy5", "8xy6", "8xy7", "8xyE", "9xy0", "Annn", "Bnnn", "Cxkk", "Dxyn", "Ex9E",
  "ExA1", "Fx07", "Fx0A", "Fx15", "Fx18", "Fx1E", "Fx29", "Fx33", "Fx55", "Fx65"]

/-- A character that is no hexadecimal digit stands for an operand. -/
def places (form : String) : Shape Nat := form.toList.map Hex.value?

def digitsOf (w : Nat) : List Nat := [w / 4096, w / 256 % 16, w / 16 % 16, w % 16]

def Fits (form : String) (w : Nat) : Prop := (places form).Begins (digitsOf w)

instance (form : String) (w : Nat) : Decidable (Fits form w) :=
  inferInstanceAs (Decidable ((places form).Begins (digitsOf w)))

section Digits

variable {a m p d f w : Nat} {s : Shape Nat} {ds : List Nat}

def extend (w : Nat) (ds : List Nat) : Nat := ds.foldl (fun w d => 16 * w + d) w

def maskOf (s : Shape Nat) : List Nat := s.map fun place => if place.isSome then 15 else 0

def patternOf (s : Shape Nat) : List Nat := s.map fun place => place.getD 0

theorem extend_digitsOf (hw : w < 65536) : extend 0 (digitsOf w) = w := by
  simp only [digitsOf, extend, List.foldl_cons, List.foldl_nil]
  omega

theorem and_digit (hd : d < 16) (hf : f < 16) :
    (16 * a + d) &&& (16 * m + f) = 16 * (a &&& m) + (d &&& f) := by
  have hlast : d &&& f < 16 := Nat.lt_of_le_of_lt Nat.and_le_left hd
  have hdiv : ((16 * a + d) &&& (16 * m + f)) / 2 ^ 4 = a &&& m := by
    rw [Nat.and_div_two_pow]
    congr 1
    · omega
    · omega
  have hmod : ((16 * a + d) &&& (16 * m + f)) % 2 ^ 4 = d &&& f := by
    rw [Nat.and_mod_two_pow]
    congr 1
    · omega
    · omega
  have := Nat.div_add_mod ((16 * a + d) &&& (16 * m + f)) (2 ^ 4)
  omega

theorem and_digit_eq_iff {place : Option Nat} (hd : d < 16)
    (hplace : ∀ c, place = some c → c < 16) :
    (16 * a + d) &&& (16 * m + if place.isSome then 15 else 0) = 16 * p + place.getD 0 ↔
      a &&& m = p ∧ (place = none ∨ place = some d) := by
  cases place with
  | none =>
    rw [Option.isSome_none, if_neg Bool.false_ne_true, and_digit hd (by decide), Nat.and_zero,
      Option.getD_none]
    simp only [true_or, and_true]
    omega
  | some c =>
    have hc := hplace c rfl
    have hall : d &&& 15 = d := (Nat.and_two_pow_sub_one_eq_mod d 4).trans (Nat.mod_eq_of_lt hd)
    rw [Option.isSome_some, if_pos rfl, and_digit hd (by decide), hall, Option.getD_some]
    simp only [reduceCtorEq, false_or, Option.some.injEq]
    omega

/-- A number under the mask of a shape is its pattern when its digits have the shape. -/
theorem and_extend_eq_iff (hl : s.length = ds.length) (hs : ∀ c, some c ∈ s → c < 16)
    (hds : ∀ d ∈ ds, d < 16) :
    extend a ds &&& extend m (maskOf s) = extend p (patternOf s) ↔ a &&& m = p ∧ s.Begins ds := by
  induction s generalizing ds a m p with
  | nil =>
    obtain rfl := List.length_eq_zero_iff.mp hl.symm
    exact (and_iff_left trivial).symm
  | cons place s ih =>
    cases ds with
    | nil => cases hl
    | cons d ds =>
      rw [List.forall_mem_cons] at hds
      have hplace : ∀ c, place = some c → c < 16 := fun c hc => hs c (hc ▸ List.mem_cons_self)
      have hrest := ih (a := 16 * a + d) (m := 16 * m + if place.isSome then 15 else 0)
        (p := 16 * p + place.getD 0) (Nat.succ.inj hl)
        (fun c hc => hs c (List.mem_cons_of_mem _ hc)) hds.2
      rw [and_digit_eq_iff hds.1 hplace, and_assoc] at hrest
      exact hrest

end Digits

section Forms

variable {form : String} {e : Entry} {opcode : Int}

/-- What an entry looks at is written in its form. -/
theorem entry_of_form : ∀ fe ∈ forms.zip table,
    (places fe.1).length = 4 ∧ fe.2.mask = extend 0 (maskOf (places fe.1)) ∧
      fe.2.pattern = extend 0 (patternOf (places fe.1)) := by decide

theorem mem_forms_zip_iff : e ∈ table ↔ ∃ form, (form, e) ∈ forms.zip table := by
  constructor
  · intro h
    have hlength : table.length ≤ forms.length := by decide
    rw [← List.map_snd_zip hlength] at h
    obtain ⟨⟨form, e'⟩, hmem, rfl⟩ := List.mem_map.mp h
    exact ⟨form, hmem⟩
  · rintro ⟨form, h⟩
    exact (List.of_mem_zip h).2

theorem lt_of_mem_places {c : Nat} (h : some c ∈ places form) : c < 16 := by
  obtain ⟨ch, -, hvalue⟩ := List.mem_map.mp h
  exact Hex.value?_lt hvalue

theorem digitsOf_lt {w : Nat} (hw : w < 65536) : ∀ d ∈ digitsOf w, d < 16 := by
  simp only [digitsOf, List.forall_mem_cons, List.not_mem_nil, false_implies, implies_true,
    and_true]
  omega

theorem accepted_iff_fits (h : (form, e) ∈ forms.zip table) :
    lowWord opcode &&& e.mask = e.pattern ↔ Fits form (lowWord opcode) := by
  obtain ⟨hlength, hmask, hpattern⟩ := entry_of_form (form, e) h
  have hlt := lowWord_lt opcode
  have hfour : (places form).length = (digitsOf (lowWord opcode)).length := hlength
  have hdigits := and_extend_eq_iff (a := 0) (m := 0) (p := 0) hfour
    (fun _ => lt_of_mem_places) (digitsOf_lt hlt)
  rw [extend_digitsOf hlt] at hdigits
  rw [hmask, hpattern, hdigits]
  exact and_iff_right rfl

theorem lookup_eq_some_iff_fits : lookup opcode = some e ↔
    ∃ form, (form, e) ∈ forms.zip table ∧ Fits form (lowWord opcode) := by
  constructor
  · intro h
    obtain ⟨form, hmem⟩ := mem_forms_zip_iff.mp (mem_of_lookup h)
    exact ⟨form, hmem, (accepted_iff_fits hmem).mp (accepted_of_lookup h)⟩
  · rintro ⟨form, hmem, hfits⟩
    exact lookup_of_accepted (List.of_mem_zip hmem).2 ((accepted_iff_fits hmem).mpr hfits)

theorem lookup_eq_none_iff_fits :
    lookup opcode = none ↔ ∀ form ∈ forms, ¬ Fits form (lowWord opcode) := by
  constructor
  · intro h form hform hfits
    have hlength : forms.length ≤ table.length := by decide
    rw [← List.map_fst_zip hlength] at hform
    obtain ⟨⟨form, e⟩, hmem, rfl⟩ := List.mem_map.mp hform
    have hfound := lookup_eq_some_iff_fits.mpr ⟨form, hmem, hfits⟩
    rw [h] at hfound
    cases hfound
  · intro h
    by_contra hsome
    obtain ⟨e, he⟩ := Option.ne_none_iff_exists'.mp hsome
    obtain ⟨form, hmem, hfits⟩ := lookup_eq_some_iff_fits.mp he
    exact h form (List.of_mem_zip hmem).1 hfits

end Forms

section Order

variable {e : Entry} {opcode opcode' : Int}

theorem accepts_iff : e.accepts opcode = true ↔ lowWord opcode &&& e.mask = e.pattern := by
  rw [Entry.accepts, beq_iff_eq]

theorem lookupIn_of_perm {entries : List Entry} (h : entries.Perm table) :
    lookupIn entries opcode = lookup opcode := by
  apply List.find?_eq_find?_of_perm h
  intro e he e' he'
  exact entry_unique (h.mem_iff.mp he.1) (h.mem_iff.mp he'.1) (accepts_iff.mp he.2)
    (accepts_iff.mp he'.2)

theorem countP_le_one {α : Type} {q : α → Bool} {l : List α}
    (h : l.Pairwise fun a b => q a = true → q b = false) : l.countP q ≤ 1 := by
  induction h with
  | nil => exact Nat.zero_le 1
  | @cons a l ha _ ih =>
    by_cases hq : q a = true
    · have hnone : l.countP q = 0 := List.countP_eq_zero.mpr fun b hb => by simp [ha b hb hq]
      rw [List.countP_cons_of_pos hq, hnone]
    · rw [List.countP_cons_of_neg hq]
      exact ih

theorem countP_accepts_le_one (opcode : Int) : table.countP (·.accepts opcode) ≤ 1 := by
  apply countP_le_one
  refine table_disjoint.imp ?_
  intro e e' hne he
  rw [accepts_iff] at he
  rw [← Bool.not_eq_true, accepts_iff]
  exact not_accepted_of_disjoint hne he

theorem lowWord_congr (h : opcode % 65536 = opcode' % 65536) :
    lowWord opcode = lowWord opcode' := by
  rw [lowWord, lowWord, h]

theorem lookup_congr (h : opcode % 65536 = opcode' % 65536) : lookup opcode = lookup opcode' := by
  have haccepts (e : Entry) : e.accepts opcode = e.accepts opcode' := by
    rw [Entry.accepts, Entry.accepts, lowWord_congr h]
  unfold lookup lookupIn
  simp only [haccepts]

theorem ofOpcode_congr (h : opcode % 65536 = opcode' % 65536) :
    Operands.ofOpcode opcode = Operands.ofOpcode opcode' := by
  unfold Operands.ofOpcode
  rw [lowWord_congr h]

end Order

section Wide

structure Operands.Masked (o : Operands) (opcode : Int) : Prop where
  address : (o.address : Int) = Bits.and opcode 0x0FFF
  n : (o.n : Int) = Bits.and opcode 0x000F
  x : (o.x : Int) = Bits.and opcode 0x0F00 / 256
  y : (o.y : Int) = Bits.and opcode 0x00F0 / 16
  kk : (o.kk.toNat : Int) = Bits.and opcode 0x00FF

variable {e : Entry}

theorem and_low (opcode : Int) {n : Nat} (hn : n < 65536) :
    Bits.and opcode n = (lowWord opcode &&& n : Nat) := Bits.and_low (k := 16) opcode hn

theorem mask_lt : ∀ e ∈ table, e.mask < 65536 := by decide

/-- Entries look at no bit beyond the low sixteen, whatever the opcode has there. -/
theorem accepts_eq_masked (he : e ∈ table) (opcode : Int) :
    e.accepts opcode = (Bits.and opcode e.mask == e.pattern) := by
  rw [and_low opcode (mask_lt e he), Entry.accepts, Bool.eq_iff_iff, beq_iff_eq, beq_iff_eq]
  exact Int.natCast_inj.symm

theorem field_masked (opcode : Int) (k j : Nat) (h : (2 ^ j - 1) * 2 ^ k < 65536) :
    Bits.and opcode ((2 ^ j - 1) * 2 ^ k : Nat) / (2 ^ k : Nat) =
      (lowWord opcode / 2 ^ k % 2 ^ j : Nat) := by
  rw [and_low opcode h, ← Int.natCast_ediv, Nat.and_div_two_pow,
    Nat.mul_div_cancel _ (Nat.two_pow_pos k), Nat.and_two_pow_sub_one_eq_mod]

theorem ofOpcode_masked (opcode : Int) : Operands.Masked (.ofOpcode opcode) opcode := by
  obtain ⟨ha, hn, hx, hy, hk⟩ := operands_of_opcode opcode
  have haddress : Bits.and opcode 0x0FFF / 1 = _ := field_masked opcode 0 12 (by decide)
  have hlast : Bits.and opcode 0x000F / 1 = _ := field_masked opcode 0 4 (by decide)
  have hsecond : Bits.and opcode 0x0F00 / 256 = _ := field_masked opcode 8 4 (by decide)
  have hthird : Bits.and opcode 0x00F0 / 16 = _ := field_masked opcode 4 4 (by decide)
  have hbyte : Bits.and opcode 0x00FF / 1 = _ := field_masked opcode 0 8 (by decide)
  constructor
  · omega
  · omega
  · omega
  · omega
  · omega

end Wide

structure ByGrammar (opcode : Int) : Prop where
  masks : ∀ e ∈ table, e.accepts opcode = (Bits.and opcode e.mask == e.pattern)
  fields : Operands.Masked (.ofOpcode opcode) opcode
  low : ∀ opcode' : Int, opcode' % 65536 = opcode % 65536 →
    lookup opcode' = lookup opcode ∧ Operands.ofOpcode opcode' = Operands.ofOpcode opcode
  unique : table.countP (·.accepts opcode) ≤ 1
  order : ∀ entries : List Entry, entries.Perm table → lookupIn entries opcode = lookup opcode
  found : ∀ e, lookup opcode = some e ↔
    ∃ form, (form, e) ∈ forms.zip table ∧ Fits form (lowWord opcode)
  unknown : lookup opcode = none ↔ ∀ form ∈ forms, ¬ Fits form (lowWord opcode)
  built : ∀ e, lookup opcode = some e → (e.build (.ofOpcode opcode)).word = lowWord opcode

theorem byGrammar (opcode : Int) : ByGrammar opcode where
  masks _ he := accepts_eq_masked he opcode
  fields := ofOpcode_masked opcode
  low _ h := ⟨lookup_congr h, ofOpcode_congr h⟩
  unique := countP_accepts_le_one opcode
  order _ h := lookupIn_of_perm h
  found _ := lookup_eq_some_iff_fits
  unknown := lookup_eq_none_iff_fits
  built _ := word_of_lookup

end Chip8.Instruction
