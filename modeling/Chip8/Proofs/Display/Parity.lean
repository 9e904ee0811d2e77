import Mathlib.Algebra.BigOperators.Group.Finset.Piecewise
import Mathlib.Algebra.BigOperators.Group.Finset.Sigma
import Mathlib.Data.List.Induction
import Chip8.Display
import Chip8.Proofs.Vector

/-!
# Sprites by counting

A sprite flips cells, and flipping leads from dark to lit and back; only a cell that is written
directly can be anything else. A sprite falls on a cell once for each of its set bits that wraps
around to it. Only the number of times matters: the cell is inverted when it is odd. A lit cell that
is hit at all has been switched off on the way, and so has a dark one that is hit twice.
-/
namespace Chip8

namespace Display

structure Binary (d : Display) : Prop where
  cell : ∀ k, d.cells.get k = dark ∨ d.cells.get k = lit

theorem flip_binary {b : UInt8} (h : b = dark ∨ b = lit) : b ^^^ lit = dark ∨ b ^^^ lit = lit := by
  rcases h with rfl | rfl
  · right; decide
  · left; decide

theorem flipAll_binary {cells : Vector UInt8 2048}
    (h : ∀ k, cells.get k = dark ∨ cells.get k = lit) (hit : Bool) (ks : List (Fin 2048))
    (k : Fin 2048) :
    (flipAll cells hit ks).1.get k = dark ∨ (flipAll cells hit ks).1.get k = lit := by
  induction ks generalizing cells hit with
  | nil => exact h k
  | cons j rest ih =>
    exact ih (forall_get_set (P := fun b => b = dark ∨ b = lit) h j (flip_binary (h j))) _

theorem blank_binary : blank.Binary := ⟨fun k => Or.inl (by simp [blank])⟩

theorem Binary.draw {d : Display} (h : d.Binary) (x y : Int) (rows : List UInt8) :
    (d.draw x y rows).1.Binary :=
  ⟨flipAll_binary h.cell false (stamps x y rows)⟩

end Display

/-- Writing a cell takes any byte. -/
def DisplayOp.writes : DisplayOp → Bool
  | .set _ _ _ => true
  | _ => false

theorem Display.Binary.apply {d : Display} (h : d.Binary) {op : DisplayOp}
    (hop : op.writes = false) : (d.apply op).Binary := by
  cases op with
  | set => cases hop
  | clear => exact blank_binary
  | draw x y rows => exact h.draw x y rows

end Chip8

namespace Chip8.Display

variable {cells : Vector UInt8 2048} {hit : Bool} {ks : List (Fin 2048)}

theorem flip_flip (b : UInt8) : b ^^^ lit ^^^ lit = b := by
  rw [UInt8.xor_assoc, UInt8.xor_self, UInt8.xor_zero]

theorem flip_eq_lit_iff (b : UInt8) : b ^^^ lit = lit ↔ b = dark := by
  constructor
  · intro h
    rw [← flip_flip b, h]
    rfl
  · rintro rfl
    rfl

theorem flip_eq_dark_iff (b : UInt8) : b ^^^ lit = dark ↔ b = lit := by
  constructor
  · intro h
    rw [← flip_flip b, h]
    rfl
  · rintro rfl
    rfl

theorem get_flipAll (k : Fin 2048) : (flipAll cells hit ks).1.get k =
    if ks.count k % 2 = 1 then cells.get k ^^^ lit else cells.get k := by
  induction ks generalizing cells hit with
  | nil => rfl
  | cons j rest ih =>
    rw [flipAll, ih, get_set]
    by_cases hj : j = k
    · subst hj
      rw [if_pos rfl, List.count_cons_self, flip_flip]
      by_cases hodd : rest.count j % 2 = 1
      · rw [if_pos hodd, if_neg (by omega)]
      · rw [if_neg hodd, if_pos (by omega)]
    · rw [if_neg hj, List.count_cons_of_ne hj]

/-- A cell that is switched off when it is flipped for the first or the second time. -/
theorem flipAll_hit_iff : (flipAll cells hit ks).2 = true ↔ hit = true ∨ ∃ k,
    (cells.get k = lit ∧ 1 ≤ ks.count k) ∨ (cells.get k = dark ∧ 2 ≤ ks.count k) := by
  induction ks generalizing cells hit with
  | nil => simp [flipAll]
  | cons j rest ih =>
    rw [flipAll, ih, Bool.or_eq_true, beq_iff_eq]
    constructor
    · rintro ((h | h) | ⟨k, hk⟩)
      · exact Or.inl h
      · refine Or.inr ⟨j, Or.inl ⟨h, ?_⟩⟩
        rw [List.count_cons_self]
        omega
      · refine Or.inr ⟨k, ?_⟩
        rw [get_set] at hk
        by_cases hj : j = k
        -- After its first flip the cell is hit as if it had been of the other kind.
        · subst hj
          rw [if_pos rfl, flip_eq_lit_iff, flip_eq_dark_iff] at hk
          rw [List.count_cons_self]
          rcases hk with ⟨hd, hc⟩ | ⟨hl, hc⟩
          · exact Or.inr ⟨hd, by omega⟩
          · exact Or.inl ⟨hl, by omega⟩
        · rw [if_neg hj] at hk
          rw [List.count_cons_of_ne hj]
          exact hk
    · rintro (h | ⟨k, hk⟩)
      · exact Or.inl (Or.inl h)
      · by_cases hj : j = k
        · subst hj
          rw [List.count_cons_self] at hk
          rcases hk with ⟨hl, _⟩ | ⟨hd, hc⟩
          · exact Or.inl (Or.inr hl)
          · refine Or.inr ⟨j, Or.inl ⟨?_, by omega⟩⟩
            rw [get_set, if_pos rfl, flip_eq_lit_iff]
            exact hd
        · refine Or.inr ⟨k, ?_⟩
          rw [List.count_cons_of_ne hj] at hk
          rw [get_set, if_neg hj]
          exact hk

/-- How many set bits of the first `n` rows fall on a cell, by row and column. -/
def cover (row : Nat → UInt8) (n : Nat) (x y cx cy : Int) : Nat :=
  ((Finset.range n ×ˢ Finset.range 8).filter fun p =>
    (row p.1).toNat.testBit (7 - p.2) = true ∧ (x + p.2) % 64 = cx ∧ (y + p.1) % 32 = cy).card

theorem index_eq_iff (x y cx cy : Int) :
    index x y = index cx cy ↔ x % 64 = cx % 64 ∧ y % 32 = cy % 32 := by
  simp only [index, Fin.mk.injEq]
  omega

theorem exists_index (k : Fin 2048) : ∃ cx cy : Nat, cx < 64 ∧ cy < 32 ∧ k = index cx cy := by
  refine ⟨k.val % 64, k.val / 64, by omega, by omega, ?_⟩
  apply Fin.ext
  simp only [index]
  omega

theorem countP_range (p : Nat → Bool) (n : Nat) :
    (List.range n).countP p = ((Finset.range n).filter fun c => p c = true).card := by
  induction n with
  | zero => rfl
  | succ n ih =>
    rw [List.range_succ, List.countP_append, ih, Finset.range_add_one, Finset.filter_insert]
    cases hp : p n with
    | true =>
      rw [if_pos rfl, Finset.card_insert_of_notMem (by simp)]
      simp [hp]
    | false =>
      rw [if_neg (by simp)]
      simp [hp]

theorem cover_congr {row row' : Nat → UInt8} {n : Nat} (h : ∀ r < n, row r = row' r)
    (x y cx cy : Int) : cover row n x y cx cy = cover row' n x y cx cy := by
  unfold cover
  congr 1
  apply Finset.filter_congr
  intro p hp
  rw [h p.1 (Finset.mem_range.mp (Finset.mem_product.mp hp).1)]

theorem cover_succ (row : Nat → UInt8) (n : Nat) (x y cx cy : Int) :
    cover row (n + 1) x y cx cy = cover row n x y cx cy +
      ((Finset.range 8).filter fun c => (row n).toNat.testBit (7 - c) = true ∧
        (x + c) % 64 = cx ∧ (y + n) % 32 = cy).card := by
  unfold cover
  rw [Finset.card_filter, Finset.card_filter, Finset.card_filter, Finset.sum_product,
    Finset.sum_product, Finset.sum_range_succ]

theorem count_row (row : UInt8) (r : Nat) (x y : Int) {cx cy : Nat} (hx : cx < 64) (hy : cy < 32) :
    ((columns row).map fun (c : Nat) => index (x + c) (y + r)).count (index cx cy) =
      ((Finset.range 8).filter fun c => row.toNat.testBit (7 - c) = true ∧
        (x + c) % 64 = cx ∧ (y + r) % 32 = cy).card := by
  unfold columns
  rw [List.count_eq_countP, List.countP_map, List.countP_filter, countP_range]
  congr 1
  apply Finset.filter_congr
  intro c _
  simp only [Function.comp_apply, Bool.and_eq_true, beq_iff_eq, index_eq_iff]
  constructor
  · rintro ⟨⟨hcx, hcy⟩, hbit⟩
    exact ⟨hbit, by omega, by omega⟩
  · rintro ⟨hbit, hcx, hcy⟩
    exact ⟨⟨by omega, by omega⟩, hbit⟩

theorem count_stamps (rows : List UInt8) (x y : Int) {cx cy : Nat} (hx : cx < 64) (hy : cy < 32) :
    (stamps x y rows).count (index cx cy) =
      cover (fun r => rows.getD r 0) rows.length x y cx cy := by
  induction rows using List.reverseRecOn with
  | nil => rfl
  | append_singleton rows row ih =>
    have hsplit : stamps x y (rows ++ [row]) = stamps x y rows ++
        (columns row).map fun (c : Nat) => index (x + c) (y + rows.length) := by
      simp [stamps, List.zipIdx_append]
    have hrest : cover (fun r => (rows ++ [row]).getD r 0) rows.length x y cx cy =
        cover (fun r => rows.getD r 0) rows.length x y cx cy := by
      apply cover_congr
      intro r hr
      simp [List.getElem?_append_left hr]
    have hlast : (rows ++ [row]).getD rows.length 0 = row := by simp
    rw [hsplit, List.count_append, ih, count_row row rows.length x y hx hy, List.length_append,
      List.length_singleton, cover_succ, hrest, hlast]

/-- The screen is wider and higher than a sprite of few rows, so no two of its bits meet. -/
theorem cover_le_one {row : Nat → UInt8} {n : Nat} (hn : n ≤ 32) (x y cx cy : Int) :
    cover row n x y cx cy ≤ 1 := by
  unfold cover
  rw [Finset.card_le_one]
  intro p hp q hq
  simp only [Finset.mem_filter, Finset.mem_product, Finset.mem_range] at hp hq
  obtain ⟨⟨hpr, hpc⟩, _, hpx, hpy⟩ := hp
  obtain ⟨⟨hqr, hqc⟩, _, hqx, hqy⟩ := hq
  apply Prod.ext
  · omega
  · omega

end Chip8.Display
