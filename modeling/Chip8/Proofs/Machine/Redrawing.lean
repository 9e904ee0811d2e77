import Chip8.Proofs.Display.Drawing
import Chip8.Proofs.Machine.Footprint

/-!
# Drawing a sprite again

The same instruction, executed twice on the same operands, leaves the screen as it was: its sprite
is drawn twice at the same place. The first time it hits the screen where it falls on a lit cell.
The second time it hits it where the first has lit a cell, that is, where the cell had been dark.
-/
namespace Chip8.Machine

variable {m t : Machine} {x y n : Nibble}

def sprite (m : Machine) (x y n : Nibble) : Sprite :=
  ⟨m.v x, m.v y, m.memory.block m.registers.i.toNat n⟩

/-- An instruction cannot ask for a sprite that overlaps itself. -/
theorem length_sprite_le (m : Machine) (x y n : Nibble) : (m.sprite x y n).rows.length ≤ 32 := by
  have hlength : (m.sprite x y n).rows.length = n := by simp [sprite, Memory.block]
  omega

/-- The instruction `draw x y n` reads the same sprite and place from both machines. -/
structure ReadAlike (x y n : Nibble) (m t : Machine) : Prop where
  vx : t.v x = m.v x
  vy : t.v y = m.v y
  index : t.registers.i = m.registers.i
  rows : ∀ r < n.val, t.memory.byte (m.registers.i.toNat + r) =
    m.memory.byte (m.registers.i.toNat + r)

theorem ReadAlike.sprite (h : ReadAlike x y n m t) : t.sprite x y n = m.sprite x y n := by
  have hblock : t.memory.block m.registers.i.toNat n = m.memory.block m.registers.i.toNat n := by
    apply List.map_congr_left
    intro r hr
    exact h.rows r (List.mem_range.mp hr)
  unfold Machine.sprite
  rw [h.vx, h.vy, h.index, hblock]

/-- The flag is no coordinate, so a draw keeps what it reads. -/
theorem readAlike_of_step (h : m.WellFormed) (hx : x ≠ Registers.flag) (hy : y ≠ Registers.flag)
    (hd : m.executed? = some (.draw x y n)) : ReadAlike x y n m m.step.machine := by
  obtain ⟨hout, hp⟩ := executed?_eq_some_iff.mp hd
  obtain ⟨i, hi, hf⟩ := footprint_of_ok h hout
  obtain rfl : .draw x y n = i := Option.some.inj (hp.symm.trans hi)
  constructor
  · exact hf.data x (beq_eq_false_iff_ne.mpr hx)
  · exact hf.data y (beq_eq_false_iff_ne.mpr hy)
  · exact hf.index rfl
  · intro r _
    exact hf.memory_of_no_store rfl _

/-- Nothing is in the way of a sprite that lies in the store. -/
theorem executed?_of_draw (hp : m.pending? = some (.draw x y n)) (h : 0 ≤ m.registers.i)
    (h' : m.registers.i + n ≤ 4096) : m.executed? = some (.draw x y n) := by
  have hin := (Memory.firstOutside?_eq_none_iff m.registers.i n).mpr ⟨h, h'⟩
  have hx := execute_draw (m := m.begun) x y n hin
  have hs := step_completed (pending?_eq_some_iff.mp hp) (Instruction.decode_word _) hx
  refine executed?_eq_some_iff.mpr ⟨?_, hp⟩
  rw [hs]
  rfl

/-- An executed draw draws its sprite and tells by the flag whether it hit. -/
theorem step_sprite (hd : m.executed? = some (.draw x y n)) :
    let s := m.sprite x y n
    m.step.machine.display = (m.display.draw s.x s.y s.rows).1 ∧
      m.step.machine.v Registers.flag = if (m.display.draw s.x s.y s.rows).2 then 1 else 0 :=
  step_draw hd

theorem cells_of_draw (hd : m.executed? = some (.draw x y n)) :
    m.step.machine.display.cells = (m.display.drawAll [m.sprite x y n]).cells :=
  congrArg (·.cells) (step_sprite hd).1

theorem flag_of_draw (hd : m.executed? = some (.draw x y n)) :
    (m.step.machine.v Registers.flag = 1 ↔ (m.sprite x y n).FallsOn m.display Display.lit) ∧
      (m.step.machine.v Registers.flag = 0 ↔
        ¬ (m.sprite x y n).FallsOn m.display Display.lit) := by
  rw [(step_sprite hd).2, ← Sprite.draw_hit_iff_fallsOn (length_sprite_le m x y n)]
  cases (m.display.draw (m.sprite x y n).x (m.sprite x y n).y (m.sprite x y n).rows).2 with
  | true => simp
  | false => simp

/-- The second of two equal draws cancels the first. -/
theorem cells_of_redraw (hd : m.executed? = some (.draw x y n))
    (ht : t.executed? = some (.draw x y n)) (hs : t.sprite x y n = m.sprite x y n)
    (hcells : t.display.cells = m.step.machine.display.cells) :
    t.step.machine.display.cells = m.display.cells :=
  calc t.step.machine.display.cells
    _ = (t.display.drawAll [m.sprite x y n]).cells := by rw [cells_of_draw ht, hs]
    _ = ((m.display.drawAll [m.sprite x y n]).drawAll [m.sprite x y n]).cells :=
      Display.drawAll_congr (hcells.trans (cells_of_draw hd)) fun _ => rfl
    _ = (m.display.drawAll []).cells := Display.drawAll_cancel (m.sprite x y n) [] [] [] m.display

/-- The second of two equal draws finds lit what the first found dark. -/
theorem fallsOn_of_redraw (hd : m.executed? = some (.draw x y n))
    (hs : t.sprite x y n = m.sprite x y n)
    (hcells : t.display.cells = m.step.machine.display.cells) :
    (t.sprite x y n).FallsOn t.display Display.lit ↔
      (m.sprite x y n).FallsOn m.display Display.dark := by
  rw [hs, Sprite.fallsOn_congr (hcells.trans (cells_of_draw hd))]
  exact Sprite.fallsOn_drawn_iff (length_sprite_le m x y n)

/-- On cells of any bytes, sprites may be drawn in any order and from any place a whole number of
screens away, and two equal ones leave no trace. An instruction `Dxyn` that is executed twice on the
same operands restores every cell. Its first flag tells whether a bit fell on a lit cell, and its
second whether one fell on a cell that had been dark before the first. -/
theorem drawing_commutes_and_cancels :
    (∀ (d : Display) (sprites others : List Sprite), sprites.Perm others →
      (d.drawAll others).cells = (d.drawAll sprites).cells) ∧
    (∀ (d : Display) (sprites others : List Sprite), List.Forall₂ Sprite.Wraps sprites others →
      (d.drawAll others).cells = (d.drawAll sprites).cells) ∧
    (∀ (d : Display) (s : Sprite) (before between after : List Sprite),
      (d.drawAll (before ++ s :: between ++ s :: after)).cells =
        (d.drawAll (before ++ between ++ after)).cells) ∧
    ∀ (m t : Machine) (x y n : Nibble), m.WellFormed → x ≠ Registers.flag → y ≠ Registers.flag →
      m.registers.i + n ≤ 4096 →
      m.memory.fetch m.registers.pc = .ok (Instruction.nibbles 0xD x y n) →
      t.memory.fetch t.registers.pc = .ok (Instruction.nibbles 0xD x y n) →
      ReadAlike x y n m.step.machine t → t.display.cells = m.step.machine.display.cells →
      (m.step.report.outcome = .ok .executed ∧ t.step.report.outcome = .ok .executed) ∧
      t.step.machine.display.cells = m.display.cells ∧
      ((m.step.machine.v Registers.flag = 1 ↔ (m.sprite x y n).FallsOn m.display 0xFF) ∧
        (m.step.machine.v Registers.flag = 0 ↔ ¬ (m.sprite x y n).FallsOn m.display 0xFF)) ∧
      ((t.step.machine.v Registers.flag = 1 ↔ (m.sprite x y n).FallsOn m.display 0x00) ∧
        (t.step.machine.v Registers.flag = 0 ↔ ¬ (m.sprite x y n).FallsOn m.display 0x00)) := by
  refine ⟨fun d _ _ h => Display.drawAll_perm h d, fun d _ _ h => Display.drawAll_wraps h d,
    fun d s before between after => Display.drawAll_cancel s before between after d, ?_⟩
  intro m t x y n h hx hy hin hw hw' hread hcells
  have hd : m.executed? = some (.draw x y n) :=
    executed?_of_draw (pending?_eq_some_iff.mpr hw) h.i_word.1 hin
  have hkept := readAlike_of_step h hx hy hd
  have hindex : t.registers.i = m.registers.i := hread.index.trans hkept.index
  have ht : t.executed? = some (.draw x y n) := by
    apply executed?_of_draw (pending?_eq_some_iff.mpr hw')
    · rw [hindex]
      exact h.i_word.1
    · rw [hindex]
      exact hin
  have hs : t.sprite x y n = m.sprite x y n := hread.sprite.trans hkept.sprite
  have hflag := flag_of_draw ht
  rw [fallsOn_of_redraw hd hs hcells] at hflag
  exact ⟨⟨(executed?_eq_some_iff.mp hd).1, (executed?_eq_some_iff.mp ht).1⟩,
    cells_of_redraw hd ht hs hcells, flag_of_draw hd, hflag⟩

/-- A glyph is drawn over the lower right corner of a blank screen and drawn again. -/
theorem drawing_commutes_and_cancels_at_corner :
    let m : Machine := { fresh false 0 with
      memory := Memory.fresh.put 0x200 [0xD0, 0x15, 0xD0, 0x15]
      registers := (Registers.initial.setV 0 62).setV 1 30 }
    let t := m.step.machine
    m.WellFormed ∧ t.step.machine.display.cells = m.display.cells ∧
      t.v Registers.flag = 0 ∧ t.step.machine.v Registers.flag = 1 := by
  intro m t
  have hbytes : ∀ z, 0 ≤ m.v z ∧ m.v z ≤ 255 := by decide +kernel
  have hm : m.WellFormed := by
    constructor
    · exact hbytes
    all_goals decide +kernel
  have hp : m.pending? = some (.draw 0 1 5) := by decide +kernel
  have hp' : t.pending? = some (.draw 0 1 5) := by decide +kernel
  obtain ⟨-, hcells, hfirst, hsecond⟩ := drawing_commutes_and_cancels.2.2.2 m t 0 1 5 hm
    (by decide) (by decide) (by decide) (pending?_eq_some_iff.mp hp)
    (pending?_eq_some_iff.mp hp') ⟨rfl, rfl, rfl, fun _ _ => rfl⟩ rfl
  have hblank (cx cy : Nat) : m.display.get cx cy = 0x00 := get_replicate _ _
  refine ⟨hm, hcells, hfirst.2.mpr ?_, hsecond.1.mpr ?_⟩
  · rintro ⟨cx, cy, -, -, -, hlit⟩
    rw [hblank] at hlit
    cases hlit
  · exact ⟨62, 30, by decide, by decide, by decide +kernel, hblank 62 30⟩

end Chip8.Machine
