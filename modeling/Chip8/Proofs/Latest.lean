/-!
# The latest entry that counts

A law about the most recent of some events names an entry of a list that counts, and behind which
nothing counts. Such laws are proved from one event to the next, so what matters is a list that
grows at its end.
-/
namespace Chip8

variable {α : Type} {counts : α → Bool} {l : List α} {a b : α} {j : Nat}

/-- The entry at position `j` counts, and none behind it does. -/
structure LatestAt (counts : α → Bool) (l : List α) (j : Nat) (a : α) : Prop where
  here : l[j]? = some a
  counted : counts a = true
  later : ∀ j' b, j < j' → l[j']? = some b → counts b = false

theorem lt_length_of_getElem? (h : l[j]? = some a) : j < l.length :=
  (List.getElem?_eq_some_iff.mp h).1

theorem getElem?_concat_eq_some_iff :
    (l ++ [b])[j]? = some a ↔ l[j]? = some a ∨ j = l.length ∧ a = b := by
  constructor
  · intro h
    by_cases hj : j < l.length
    · rw [List.getElem?_append_left hj] at h
      exact Or.inl h
    · have hle := lt_length_of_getElem? h
      simp only [List.length_append, List.length_singleton] at hle
      obtain rfl : j = l.length := by omega
      rw [List.getElem?_concat_length] at h
      exact Or.inr ⟨rfl, (Option.some.inj h).symm⟩
  · rintro (h | ⟨rfl, rfl⟩)
    · rw [List.getElem?_append_left (lt_length_of_getElem? h)]
      exact h
    · exact List.getElem?_concat_length

theorem latestAt_concat : LatestAt counts (l ++ [b]) j a ↔
    (counts b = true ∧ j = l.length ∧ a = b) ∨ (counts b = false ∧ LatestAt counts l j a) := by
  constructor
  · rintro ⟨hj, ha, hlater⟩
    rcases getElem?_concat_eq_some_iff.mp hj with hj | ⟨rfl, rfl⟩
    · have hlast := hlater l.length b (lt_length_of_getElem? hj) List.getElem?_concat_length
      refine Or.inr ⟨hlast, hj, ha, ?_⟩
      intro j' c hlt hc
      exact hlater j' c hlt (getElem?_concat_eq_some_iff.mpr (Or.inl hc))
    · exact Or.inl ⟨ha, rfl, rfl⟩
  · rintro (⟨hb, rfl, rfl⟩ | ⟨hb, hj, ha, hlater⟩)
    · refine ⟨List.getElem?_concat_length, hb, ?_⟩
      intro j' c hlt hc
      rcases getElem?_concat_eq_some_iff.mp hc with hc | ⟨rfl, rfl⟩
      · have := lt_length_of_getElem? hc
        omega
      · omega
    · refine ⟨getElem?_concat_eq_some_iff.mpr (Or.inl hj), ha, ?_⟩
      intro j' c hlt hc
      rcases getElem?_concat_eq_some_iff.mp hc with hc | ⟨rfl, rfl⟩
      · exact hlater j' c hlt hc
      · exact hb

theorem latestAt_of_drop (h : l[j]? = some a) (ha : counts a = true)
    (hlater : ∀ b ∈ l.drop (j + 1), counts b = false) : LatestAt counts l j a := by
  refine ⟨h, ha, ?_⟩
  intro j' b hlt hb
  apply hlater
  rw [List.mem_iff_getElem?]
  refine ⟨j' - (j + 1), ?_⟩
  rw [List.getElem?_drop, Nat.add_sub_cancel' hlt]
  exact hb

namespace LatestAt

variable {others : α → Bool} {j' : Nat}

theorem unique (h : LatestAt counts l j a) (h' : LatestAt counts l j' b) : j = j' := by
  rcases Nat.lt_trichotomy j j' with hlt | heq | hgt
  · have hno := h.later j' b hlt h'.here
    rw [h'.counted] at hno
    cases hno
  · exact heq
  · have hno := h'.later j a hgt h.here
    rw [h.counted] at hno
    cases hno

/-- Among fewer events an event stays the latest one. -/
theorem mono (h : LatestAt counts l j a) (hle : ∀ b, others b = true → counts b = true)
    (ha : others a = true) : LatestAt others l j a := by
  refine ⟨h.here, ha, ?_⟩
  intro j' b hlt hb
  cases hb' : others b with
  | false => rfl
  | true => exact (hle b hb').symm.trans (h.later j' b hlt hb)

end LatestAt

theorem not_latestAt_nil : ¬ LatestAt counts [] j a := by
  rintro ⟨h, _, _⟩
  cases h

/-- An event that counts is the latest one from then on, and any other changes nothing. -/
theorem exists_latestAt_concat : (∃ j, LatestAt counts (l ++ [b]) j a) ↔
    if counts b = true then a = b else ∃ j, LatestAt counts l j a := by
  simp only [latestAt_concat]
  cases counts b with
  | true => simp
  | false => simp

end Chip8
