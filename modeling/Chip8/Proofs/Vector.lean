/-!
# Entries of vectors

The registers, the stack, the keys and the cells are vectors whose places are numbered by `Fin`.
-/
namespace Chip8

variable {α : Type} {n : Nat}

@[simp] theorem get_replicate (a : α) (k : Fin n) : (Vector.replicate n a).get k = a :=
  Vector.getElem_replicate k.isLt

theorem get_set (v : Vector α n) (j k : Fin n) (a : α) :
    (v.set j a).get k = if j = k then a else v.get k := by
  change (v.set j a)[k.val] = _
  rw [Vector.getElem_set]
  simp only [Fin.ext_iff]
  rfl

theorem get_setIfInBounds (v : Vector α n) (j : Nat) (k : Fin n) (a : α) :
    (v.setIfInBounds j a).get k = if j = k then a else v.get k := by
  change (v.setIfInBounds j a)[k.val] = _
  rw [Vector.getElem_setIfInBounds]
  rfl

theorem getElem?_toList (v : Vector α n) (k : Fin n) : v.toList[k.val]? = some (v.get k) := by
  rw [Vector.getElem?_toList]
  exact Vector.getElem?_eq_getElem k.isLt

/-- A property of all entries survives the change of one. -/
theorem forall_get_set {v : Vector α n} {P : α → Prop} (h : ∀ k, P (v.get k)) (j : Fin n) {a : α}
    (ha : P a) (k : Fin n) : P ((v.set j a).get k) := by
  rw [get_set]
  split
  · exact ha
  · exact h k

theorem forall_mem_toList {v : Vector α n} {P : α → Prop} (h : ∀ k, P (v.get k)) :
    ∀ a ∈ v.toList, P a := by
  intro a ha
  obtain ⟨k, hk, rfl⟩ := Vector.mem_iff_getElem.mp (Vector.mem_toList_iff.mp ha)
  exact h ⟨k, hk⟩

end Chip8
