import Chip8.Proofs.Display.Parity

/-!
# Drawing in closed form

What drawing leaves of a cell depends on how many bits fall on it and on nothing else. So sprites
may be drawn in any order and from any place a whole number of screens away, and two equal sprites
leave no trace. The collision depends on two bits at most: a lit cell goes dark with the first, and
a dark one with the second.
-/
namespace Chip8

structure Sprite where
  x : Int
  y : Int
  rows : List UInt8
  deriving DecidableEq, Repr

def Sprite.stamps (s : Sprite) : List (Fin 2048) := Display.stamps s.x s.y s.rows

/-- The same sprite, a whole number of screens away. -/
def Sprite.Wraps (s t : Sprite) : Prop :=
  ∃ k l : Int, t = ⟨s.x + 64 * k, s.y + 32 * l, s.rows⟩

namespace Display

variable {d e : Display} {x y : Int} {rows : List UInt8} {cx cy : Nat} {s : Sprite}
  {sprites others : List Sprite}

def flipped (n : Nat) (b : UInt8) : UInt8 := if n % 2 = 1 then b ^^^ lit else b

theorem flipped_congr {n k : Nat} (h : n % 2 = k % 2) (b : UInt8) : flipped n b = flipped k b := by
  unfold flipped
  rw [h]

theorem flipped_add (n k : Nat) (b : UInt8) : flipped (n + k) b = flipped k (flipped n b) := by
  unfold flipped
  by_cases hn : n % 2 = 1
  · rw [if_pos hn]
    by_cases hk : k % 2 = 1
    · rw [if_pos hk, if_neg (by omega), flip_flip]
    · rw [if_neg hk, if_pos (by omega)]
  · rw [if_neg hn]
    by_cases hk : k % 2 = 1
    · rw [if_pos hk, if_pos (by omega)]
    · rw [if_neg hk, if_neg (by omega)]

def hits (x y : Int) (rows : List UInt8) (cx cy : Nat) : Nat :=
  cover (fun r => rows.getD r 0) rows.length x y cx cy

theorem get_draw (hx : cx < 64) (hy : cy < 32) :
    (d.draw x y rows).1.get cx cy = flipped (hits x y rows cx cy) (d.get cx cy) := by
  unfold hits
  rw [← count_stamps rows x y hx hy]
  exact get_flipAll _

theorem draw_hit_iff : (d.draw x y rows).2 = true ↔ ∃ cx cy : Nat, cx < 64 ∧ cy < 32 ∧
    ((d.get cx cy = lit ∧ 1 ≤ hits x y rows cx cy) ∨
      (d.get cx cy = dark ∧ 2 ≤ hits x y rows cx cy)) := by
  change (flipAll _ _ _).2 = true ↔ _
  rw [flipAll_hit_iff]
  constructor
  · rintro (h | ⟨k, hk⟩)
    · cases h
    · obtain ⟨cx, cy, hx, hy, rfl⟩ := exists_index k
      rw [count_stamps rows x y hx hy] at hk
      exact ⟨cx, cy, hx, hy, hk⟩
  · rintro ⟨cx, cy, hx, hy, h⟩
    refine Or.inr ⟨index cx cy, ?_⟩
    rw [count_stamps rows x y hx hy]
    exact h

/-- A sprite of no more rows than the screen has does not overlap itself. -/
theorem hits_le_one (hrows : rows.length ≤ 32) (cx cy : Nat) : hits x y rows cx cy ≤ 1 :=
  cover_le_one hrows _ _ _ _

theorem draw_hit_iff_of_short (hrows : rows.length ≤ 32) : (d.draw x y rows).2 = true ↔
    ∃ cx cy : Nat, cx < 64 ∧ cy < 32 ∧ 0 < hits x y rows cx cy ∧ d.get cx cy = lit := by
  rw [draw_hit_iff]
  constructor
  · rintro ⟨cx, cy, hx, hy, ⟨hl, hc⟩ | ⟨_, hc⟩⟩
    · exact ⟨cx, cy, hx, hy, hc, hl⟩
    -- A dark cell would have to be hit twice.
    · have hle : hits x y rows cx cy ≤ 1 := hits_le_one hrows cx cy
      omega
  · rintro ⟨cx, cy, hx, hy, hc, hl⟩
    exact ⟨cx, cy, hx, hy, Or.inl ⟨hl, hc⟩⟩

theorem draw_hit_iff_erased (hrows : rows.length ≤ 32) : (d.draw x y rows).2 = true ↔
    ∃ cx cy : Nat, cx < 64 ∧ cy < 32 ∧ d.get cx cy ≠ dark ∧
      (d.draw x y rows).1.get cx cy = dark := by
  rw [draw_hit_iff_of_short hrows]
  constructor
  · rintro ⟨cx, cy, hx, hy, hc, hl⟩
    have hle : hits x y rows cx cy ≤ 1 := hits_le_one hrows cx cy
    refine ⟨cx, cy, hx, hy, ?_, ?_⟩
    · rw [hl]
      decide
    · rw [get_draw hx hy, flipped, if_pos (by omega), hl]
      rfl
  · rintro ⟨cx, cy, hx, hy, hne, he⟩
    rw [get_draw hx hy, flipped] at he
    by_cases hodd : hits x y rows cx cy % 2 = 1
    · rw [if_pos hodd, flip_eq_dark_iff] at he
      exact ⟨cx, cy, hx, hy, by omega, he⟩
    · rw [if_neg hodd] at he
      exact absurd he hne

/-- On cells of any bytes, a sprite of any size at any place inverts the cells on which an odd
number of its bits fall. It hits the screen when one of its bits falls on a lit cell, or two on a
dark one; with no more rows than the screen has, when a cell that was not dark is dark in the end. -/
theorem draw_closed_form (d : Display) (x y : Int) (rows : List UInt8) :
    let drawn := d.draw x y rows
    (∀ cx cy : Nat, cx < 64 → cy < 32 → drawn.1.get cx cy =
      if hits x y rows cx cy % 2 = 1 then d.get cx cy ^^^ 0xFF else d.get cx cy) ∧
    (drawn.2 = true ↔ ∃ cx cy : Nat, cx < 64 ∧ cy < 32 ∧
      ((d.get cx cy = 0xFF ∧ 1 ≤ hits x y rows cx cy) ∨
        (d.get cx cy = 0x00 ∧ 2 ≤ hits x y rows cx cy))) ∧
    drawn.1.dirty = true ∧
    (rows.length ≤ 32 → (drawn.2 = true ↔ ∃ cx cy : Nat, cx < 64 ∧ cy < 32 ∧
      d.get cx cy ≠ 0x00 ∧ drawn.1.get cx cy = 0x00)) := by
  intro drawn
  refine ⟨?_, draw_hit_iff, rfl, draw_hit_iff_erased⟩
  intro cx cy hx hy
  exact get_draw hx hy

/-- A sprite of 33 rows meets itself on a blank screen: the cell stays dark, and it has been hit. -/
theorem draw_closed_form_overlapping :
    let rows : List UInt8 := 0x80 :: List.replicate 31 0 ++ [0x80]
    let drawn := blank.draw (-1) 70 rows
    drawn.2 = true ∧ drawn.1.get 63 6 = 0x00 := by
  intro rows drawn
  have htwice : hits (-1) 70 rows 63 6 = 2 := by decide +kernel
  have hdark : blank.get (63 : Nat) (6 : Nat) = 0x00 := get_replicate _ _
  obtain ⟨hcells, hhit, -, -⟩ := draw_closed_form blank (-1) 70 rows
  constructor
  · exact hhit.mpr ⟨63, 6, by decide, by decide, Or.inr ⟨hdark, htwice.ge⟩⟩
  · have hcell := hcells 63 6 (by decide) (by decide)
    rw [htwice, if_neg (by decide), hdark] at hcell
    exact hcell

def drawAll (d : Display) (sprites : List Sprite) : Display :=
  sprites.foldl (fun d s => (d.draw s.x s.y s.rows).1) d

def totalHits (sprites : List Sprite) (k : Fin 2048) : Nat :=
  (sprites.flatMap Sprite.stamps).count k

theorem totalHits_cons (s : Sprite) (sprites : List Sprite) (k : Fin 2048) :
    totalHits (s :: sprites) k = s.stamps.count k + totalHits sprites k := by
  unfold totalHits
  rw [List.flatMap_cons, List.count_append]

theorem totalHits_append (sprites others : List Sprite) (k : Fin 2048) :
    totalHits (sprites ++ others) k = totalHits sprites k + totalHits others k := by
  unfold totalHits
  rw [List.flatMap_append, List.count_append]

theorem get_drawAll (k : Fin 2048) :
    (d.drawAll sprites).cells.get k = flipped (totalHits sprites k) (d.cells.get k) := by
  induction sprites generalizing d with
  | nil => rfl
  | cons s rest ih =>
    have hfirst : (d.draw s.x s.y s.rows).1.cells.get k =
        flipped (s.stamps.count k) (d.cells.get k) := get_flipAll k
    rw [totalHits_cons, flipped_add, ← hfirst]
    exact ih

/-- Drawing does not tell how often a cell is hit, but whether the number is odd. -/
theorem drawAll_congr (hcells : d.cells = e.cells)
    (h : ∀ k, totalHits sprites k % 2 = totalHits others k % 2) :
    (d.drawAll sprites).cells = (e.drawAll others).cells := by
  apply Vector.ext
  intro k hk
  have hleft : (d.drawAll sprites).cells[k] = _ := get_drawAll ⟨k, hk⟩
  have hright : (e.drawAll others).cells[k] = _ := get_drawAll ⟨k, hk⟩
  rw [hleft, hright, hcells]
  exact flipped_congr (h ⟨k, hk⟩) _

theorem drawAll_perm (h : sprites.Perm others) (d : Display) :
    (d.drawAll others).cells = (d.drawAll sprites).cells := by
  apply drawAll_congr rfl
  intro k
  unfold totalHits
  rw [(h.flatMap_right Sprite.stamps).count_eq]

theorem stamps_of_wraps {t : Sprite} (h : s.Wraps t) : t.stamps = s.stamps := by
  obtain ⟨k, l, rfl⟩ := h
  have hindex (c r : Nat) :
      index (s.x + 64 * k + c) (s.y + 32 * l + r) = index (s.x + c) (s.y + r) := by
    rw [index_eq_iff]
    omega
  simp only [Sprite.stamps, stamps, hindex]

theorem drawAll_wraps (h : List.Forall₂ Sprite.Wraps sprites others) (d : Display) :
    (d.drawAll others).cells = (d.drawAll sprites).cells := by
  apply drawAll_congr rfl
  intro k
  induction h with
  | nil => rfl
  | cons hs _ ih =>
    rw [totalHits_cons, totalHits_cons, stamps_of_wraps hs]
    omega

theorem drawAll_cancel (s : Sprite) (before between after : List Sprite) (d : Display) :
    (d.drawAll (before ++ s :: between ++ s :: after)).cells =
      (d.drawAll (before ++ between ++ after)).cells := by
  apply drawAll_congr rfl
  intro k
  simp only [totalHits_append, totalHits_cons]
  omega

end Display

namespace Sprite

variable {d e : Display} {s : Sprite} {b : UInt8}

/-- A bit of the sprite falls on a cell that holds the byte. -/
def FallsOn (s : Sprite) (d : Display) (b : UInt8) : Prop :=
  ∃ cx cy : Nat, cx < 64 ∧ cy < 32 ∧ 0 < Display.hits s.x s.y s.rows cx cy ∧ d.get cx cy = b

theorem fallsOn_congr (hcells : d.cells = e.cells) : s.FallsOn d b ↔ s.FallsOn e b := by
  unfold FallsOn Display.get
  rw [hcells]

theorem draw_hit_iff_fallsOn (hrows : s.rows.length ≤ 32) :
    (d.draw s.x s.y s.rows).2 = true ↔ s.FallsOn d Display.lit :=
  Display.draw_hit_iff_of_short hrows

/-- Where the sprite has been drawn, it finds lit cells in place of dark ones. -/
theorem fallsOn_drawn_iff (hrows : s.rows.length ≤ 32) :
    s.FallsOn (d.draw s.x s.y s.rows).1 Display.lit ↔ s.FallsOn d Display.dark := by
  have hcell {cx cy : Nat} (hx : cx < 64) (hy : cy < 32)
      (hc : 0 < Display.hits s.x s.y s.rows cx cy) :
      (d.draw s.x s.y s.rows).1.get cx cy = Display.lit ↔ d.get cx cy = Display.dark := by
    have hle : Display.hits s.x s.y s.rows cx cy ≤ 1 := Display.hits_le_one hrows cx cy
    rw [Display.get_draw hx hy, Display.flipped, if_pos (by omega), Display.flip_eq_lit_iff]
  constructor
  · rintro ⟨cx, cy, hx, hy, hc, hl⟩
    exact ⟨cx, cy, hx, hy, hc, (hcell hx hy hc).mp hl⟩
  · rintro ⟨cx, cy, hx, hy, hc, hd⟩
    exact ⟨cx, cy, hx, hy, hc, (hcell hx hy hc).mpr hd⟩

end Sprite

end Chip8
