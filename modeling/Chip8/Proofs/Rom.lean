import Chip8.Rom

/-!
# Loading a file

The length of a program is looked at three times: a file is read one byte past the limit at most, what
was read is checked, and the memory checks once more. All three draw the line at the same length.
-/
namespace Chip8

/-- The path can be opened and leads to a file with the content. -/
structure FileTree.Holds (t : FileTree) (path : String) (content : List UInt8) : Prop where
  named : (FilePath.ofString path).text.toList.contains '\x00' = false
  short : (FilePath.ofString path).text.utf8ByteSize ≤ pathLimit
  found : t.walk (Place.start (.ofString path)) (FilePath.ofString path).components =
    .ok (.file content)

namespace Rom

variable {t : FileTree} {path : String} {b program : List UInt8}

theorem checkSize_of_le {n : Nat} (h : n ≤ 3584) (p : Option String) : checkSize n p = .ok () :=
  if_neg (Nat.not_lt.mpr h)

theorem checkSize_of_lt {n : Nat} (h : 3584 < n) (p : Option String) :
    checkSize n p = .error (.tooLarge n 3584 p) :=
  if_pos h

theorem checkPath_eq_ok_iff {p : FilePath} :
    checkPath p = .ok () ↔ p.text.toList.contains '\x00' = false := by
  unfold checkPath
  cases p.text.toList.contains '\x00' <;> simp

/-- Opening and reading gives the first bytes of the content. -/
theorem tree_read_of_holds (h : t.Holds path b) (limit : Nat) :
    t.read (.ofString path) limit = .ok (b.take limit) := by
  rw [FileTree.read, if_neg (Nat.not_lt.mpr h.short), h.found]

theorem holds_of_tree_read {limit : Nat}
    (hnamed : (FilePath.ofString path).text.toList.contains '\x00' = false)
    (h : t.read (.ofString path) limit = .ok program) :
    ∃ b, t.Holds path b := by
  unfold FileTree.read at h
  split at h
  · cases h
  · rename_i hshort
    split at h
    · rename_i b hfound
      exact ⟨b, hnamed, Nat.not_lt.mp hshort, hfound⟩
    · cases h
    · cases h

theorem read_of_holds (h : t.Holds path b) :
    read t path = accept (.ofString path) (.ok (b.take 3585)) := by
  simp only [read, checkPath_eq_ok_iff.mpr h.named, tree_read_of_holds h]
  rfl

theorem read_of_fits (h : t.Holds path b) (hb : b.length ≤ 3584) : read t path = .ok b := by
  have hwhole : b.take 3585 = b := List.take_of_length_le (by omega)
  rw [read_of_holds h, hwhole]
  simp only [accept, checkSize_of_le hb]

/-- Of a program that does not fit one byte too many is seen. -/
theorem read_of_oversized (h : t.Holds path b) (hb : 3584 < b.length) :
    read t path = .error (.tooLarge 3585 3584 (some (FilePath.ofString path).text)) := by
  have hlength : (b.take 3585).length = 3585 := List.length_take_of_le (by omega)
  have hrefused : checkSize (b.take 3585).length (some (FilePath.ofString path).text) =
      .error (.tooLarge 3585 3584 (some (FilePath.ofString path).text)) := by
    rw [hlength]
    exact checkSize_of_lt (by omega) _
  rw [read_of_holds h]
  simp only [accept, hrefused]

theorem read_eq_ok_iff : read t path = .ok program ↔ t.Holds path program ∧ program.length ≤ 3584 := by
  constructor
  · intro h
    obtain ⟨b, hb⟩ : ∃ b, t.Holds path b := by
      simp only [read] at h
      split at h
      · cases h
      · rename_i hpath
        cases htree : t.read (.ofString path) readLimit with
        | error =>
          rw [htree] at h
          cases h
        | ok bytes => exact holds_of_tree_read (checkPath_eq_ok_iff.mp hpath) htree
    by_cases hfits : b.length ≤ 3584
    · rw [read_of_fits hb hfits] at h
      obtain rfl := Except.ok.inj h
      exact ⟨hb, hfits⟩
    · rw [read_of_oversized hb (by omega)] at h
      cases h
  · rintro ⟨h, hb⟩
    exact read_of_fits h hb

/-- What can be read is neither missing nor too long. -/
theorem not_refused_of_read (h : read t path = .ok program) :
    ¬ ((¬ ∃ b, t.Holds path b) ∨ ∃ b, t.Holds path b ∧ 3584 < b.length) := by
  rintro (hnone | ⟨b, hb, hlong⟩)
  · exact hnone ⟨program, (read_eq_ok_iff.mp h).1⟩
  · rw [read_of_oversized hb hlong] at h
    cases h

end Rom

end Chip8
