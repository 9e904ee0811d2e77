import Chip8.CommandLine

/-!
# The numbers of a command line

An option that takes a number has one, unless a double dash was dropped in its place. Where a double
dash is refused, no command line is accepted that lacks a number.
-/
namespace Chip8

def Options.LacksNumber (o : Options) : Prop :=
  o.seed = some .empty ∨ o.scale = .empty ∨ o.clock = .empty

namespace CommandLine

theorem exists_of_bind_ok {ε α β : Type} {x : Except ε α} {f : α → Except ε β} {b : β}
    (h : (x >>= f) = .ok b) : ∃ a, x = .ok a ∧ f a = .ok b := by
  cases x with
  | error e => cases h
  | ok a => exact ⟨a, rfl, h⟩

structure Taken.Numbered (t : Taken) : Prop where
  scale : t.scale ≠ .empty
  clock : t.clock ≠ .empty
  seed : t.seed ≠ some .empty

variable {t t' : Taken} {f : Flag}

theorem Taken.numbered_start : Taken.start.Numbered := ⟨nofun, nofun, nofun⟩

theorem Taken.Numbered.of_setFlag (h : t.Numbered) (hf : t.setFlag f = .ok t') : t'.Numbered := by
  cases f with
  | help => cases hf
  | scale | clock | seed | legacyStore | verbose => cases hf; exact ⟨h.scale, h.clock, h.seed⟩

theorem Taken.Numbered.of_setFlags {fs : List Flag} (h : t.Numbered)
    (hf : fs.foldlM Taken.setFlag t = .ok t') : t'.Numbered := by
  induction fs generalizing t with
  | nil => cases hf; exact h
  | cons f fs ih =>
    obtain ⟨t₁, hfirst, hrest⟩ := exists_of_bind_ok hf
    exact ih (h.of_setFlag hfirst) hrest

theorem number_of_read {given : String} {s : Setting}
    (h : Setting.read? .refused given = some s) : ∃ z, s = .number z := by
  have hread : (Integer.read? given).map Setting.number = some s := by
    rwa [Setting.read?, if_neg fun hdropped => nomatch hdropped.2] at h
  obtain ⟨z, -, hz⟩ := Option.map_eq_some_iff.mp hread
  exact ⟨z, hz.symm⟩

theorem Taken.Numbered.of_setValue {given : String} (h : t.Numbered)
    (hv : t.setValue .refused f given = .ok t') : t'.Numbered := by
  unfold Taken.setValue at hv
  cases hread : Setting.read? .refused given with
  | none => rw [hread] at hv; cases hv
  | some s =>
    obtain ⟨z, rfl⟩ := number_of_read hread
    rw [hread] at hv
    cases f with
    | scale => cases hv; exact ⟨nofun, h.clock, h.seed⟩
    | clock => cases hv; exact ⟨h.scale, nofun, h.seed⟩
    | seed => cases hv; exact ⟨h.scale, h.clock, nofun⟩
    | help | legacyStore | verbose => cases hv; exact h

theorem Taken.Numbered.of_option {short : Bool} {attached : Option (List Char)} (h : t.Numbered)
    (ho : t.option .refused f short attached = .ok t') : t'.Numbered := by
  unfold Taken.option at ho
  cases attached with
  | none => exact h.of_setFlag ho
  | some value =>
    simp only at ho
    split at ho
    · exact h.of_setValue ho
    · split at ho
      · cases hc : cluster f value with
        | error e => rw [hc] at ho; cases ho
        | ok fs => rw [hc] at ho; exact h.of_setFlags ho
      · cases ho

theorem Taken.Numbered.of_take {words : List Word} (h : t.Numbered)
    (ht : take .refused t words = .ok t') : t'.Numbered := by
  fun_induction take .refused t words with
  | case1 => cases ht; exact h
  | case2 _ _ _ _ _ ih | case3 _ _ _ _ ih | case4 _ _ _ _ _ ih | case5 _ _ _ _ ih
  | case6 _ _ _ ih | case7 _ _ _ ih =>
    exact ih ⟨h.scale, h.clock, h.seed⟩ ht
  | case8 t f _ _ _ s rest ih =>
    obtain ⟨t₁, hvalue, hrest⟩ := exists_of_bind_ok ht
    exact ih t₁ (h.of_setValue hvalue) hrest
  | case9 => cases ht
  | case10 t f short attached rest _ ih =>
    obtain ⟨t₁, hoption, hrest⟩ := exists_of_bind_ok ht
    exact ih t₁ (h.of_option hoption) hrest

/-- Where a double dash is refused, the options of an accepted command line have their numbers. -/
theorem not_lacksNumber_of_parse {argv : List String} {o : Options}
    (h : parse .refused argv = .ok o) : ¬ o.LacksNumber := by
  unfold parse at h
  cases hwords : classifyAll argv with
  | error e => rw [hwords] at h; cases h
  | ok words =>
    rw [hwords] at h
    obtain ⟨t, htake, hopts⟩ := exists_of_bind_ok h
    have ht : t.Numbered := Taken.numbered_start.of_take htake
    split at hopts
    · cases hopts
    · split at hopts
      · cases hopts
        rintro (hseed | hscale | hclock)
        · exact ht.seed hseed
        · exact ht.scale hscale
        · exact ht.clock hclock
      · cases hopts

end CommandLine

end Chip8
