import Chip8.Proofs.Display.Parity
import Chip8.Proofs.Machine.Account
import Chip8.Proofs.Machine.Reachable

/-!
# The screen over a history

The account of a history is the number of sprite bits that have fallen on a cell since the screen
was last cleared. The cell is lit when it is odd. A sprite of an instruction has at most fifteen
rows, so it falls on a cell at most once, and it switches a cell off when it falls on a lit one.
-/
namespace Chip8

/-- The screen is changed directly, and not by a program. -/
def Operation.isDirect : Operation → Bool
  | .display _ => true
  | _ => false

namespace Machine

variable {m m' : Machine} {i : Instruction} {x y n : Nibble} {cx cy count : Nat} {op : Operation}

def stamped (m : Machine) (x y n : Nibble) (cx cy : Nat) : Nat :=
  Display.cover (fun r => m.memory.byte (m.registers.i.toNat + r)) n (m.v x) (m.v y) cx cy

def stampsAfter (m : Machine) (cx cy count : Nat) : Nat :=
  match m.executed? with
  | none => count
  | some i =>
    match i with
    | .clearScreen => 0
    | .draw x y n => count + m.stamped x y n cx cy
    | _ => count

def tally (cx cy : Nat) (count : Nat) : Machine × Operation → Nat
  | (m, .step) => m.stampsAfter cx cy count
  | _ => count

/-- The sprite bits that have fallen on a cell since the screen was last cleared. -/
def stampCount (m : Machine) (ops : List Operation) (cx cy : Nat) : Nat :=
  (m.trace ops).foldl (tally cx cy) 0

theorem stampsAfter_of_clear (h : m.executed? = some .clearScreen) :
    m.stampsAfter cx cy count = 0 := by
  simp only [stampsAfter, h]

theorem stampsAfter_of_draw (h : m.executed? = some (.draw x y n)) :
    m.stampsAfter cx cy count = count + m.stamped x y n cx cy := by
  simp only [stampsAfter, h]

theorem stampsAfter_of_other (hclear : m.executed? ≠ some .clearScreen)
    (hdraw : ∀ x y n, m.executed? ≠ some (.draw x y n)) :
    m.stampsAfter cx cy count = count := by
  unfold stampsAfter
  cases hx : m.executed? with
  | none => rfl
  | some i =>
    cases i with
    | clearScreen => exact absurd hx hclear
    | draw x y n => exact absurd hx (hdraw x y n)
    | _ => rfl

theorem Effect.display (he : Effect m i m') (hclear : i ≠ .clearScreen)
    (hdraw : ∀ x y n, i ≠ .draw x y n) : m'.display = m.display := by
  cases he with
  | cleared => exact absurd rfl hclear
  | drawn => exact absurd rfl (hdraw _ _ _)
  | registers | decimal | saved | random | keyTaken | keyMissing => rfl

theorem step_clear (h : m.executed? = some .clearScreen) :
    m.step.machine.display = Display.blank := by
  obtain ⟨m', hx, _, hs⟩ := step_of_executed h
  rw [hs]
  cases hx
  rfl

/-- The sprite is read and its coordinates are taken before the flag is set. -/
theorem step_draw (h : m.executed? = some (.draw x y n)) :
    let drawn := m.display.draw (m.v x) (m.v y) (m.memory.block m.registers.i.toNat n)
    m.step.machine.display = drawn.1 ∧
      m.step.machine.v Registers.flag = if drawn.2 then 1 else 0 := by
  obtain ⟨m', hx, _, hs⟩ := step_of_executed h
  have hc := obstacle_eq_none_of_ok hx
  rw [hs]
  rw [execute_draw (m := m.begun) x y n (inside_of_block rfl hc)] at hx
  cases hx
  refine ⟨rfl, ?_⟩
  exact (get_set _ Registers.flag Registers.flag _).trans (if_pos rfl)

theorem step_display (hclear : m.executed? ≠ some .clearScreen)
    (hdraw : ∀ x y n, m.executed? ≠ some (.draw x y n)) :
    m.step.machine.display = m.display := by
  have ht := step_turn m
  generalize m.step.machine = after at ht
  cases ht with
  | idle => rfl
  | carried hi hx hk =>
    refine (effect_of_execute hx).display ?_ ?_
    · rintro rfl
      exact hclear hi
    · rintro x y n rfl
      exact hdraw x y n hi

theorem count_stamps_block (m : Machine) (x y n : Nibble) (hx : cx < 64) (hy : cy < 32) :
    (Display.stamps (m.v x) (m.v y) (m.memory.block m.registers.i.toNat n)).count
      (Display.index cx cy) = m.stamped x y n cx cy := by
  rw [Display.count_stamps _ _ _ hx hy, Memory.length_block]
  apply Display.cover_congr
  intro r hr
  simp [Memory.block, hr]

def Parity (cx cy : Nat) (m : Machine) (count : Nat) : Prop :=
  m.display.get cx cy = if count % 2 = 1 then Display.lit else Display.dark

theorem step_preserves_parity (h : Parity cx cy m count) (hx : cx < 64) (hy : cy < 32) :
    Parity cx cy m.step.machine (m.stampsAfter cx cy count) := by
  by_cases hclear : m.executed? = some .clearScreen
  · unfold Parity
    rw [stampsAfter_of_clear hclear, step_clear hclear, if_neg (by decide)]
    exact get_replicate _ _
  · by_cases hdraw : ∃ x y n, m.executed? = some (.draw x y n)
    · obtain ⟨x, y, n, hd⟩ := hdraw
      unfold Parity at h ⊢
      rw [stampsAfter_of_draw hd, (step_draw hd).1]
      change (Display.flipAll _ _ _).1.get (Display.index cx cy) = _
      rw [Display.get_flipAll, count_stamps_block m x y n hx hy]
      change m.display.cells.get (Display.index cx cy) = _ at h
      rw [h]
      -- One more stamp turns an odd count even, and an even one odd.
      by_cases hodd : m.stamped x y n cx cy % 2 = 1
      · rw [if_pos hodd]
        by_cases hc : count % 2 = 1
        · rw [if_pos hc, if_neg (by omega)]
          rfl
        · rw [if_neg hc, if_pos (by omega)]
          rfl
      · rw [if_neg hodd]
        by_cases hc : count % 2 = 1
        · rw [if_pos hc, if_pos (by omega)]
        · rw [if_neg hc, if_neg (by omega)]
    · have hdraw' : ∀ x y n, m.executed? ≠ some (.draw x y n) :=
        fun x y n hd => hdraw ⟨x, y, n, hd⟩
      unfold Parity
      rw [stampsAfter_of_other hclear hdraw', step_display hclear hdraw']
      exact h

theorem perform_preserves_parity (h : Parity cx cy m count) (hx : cx < 64) (hy : cy < 32)
    (hop : op.isDirect = false) : Parity cx cy (m.perform op) (tally cx cy count (m, op)) := by
  cases op with
  | load program =>
    exact load_preserves (P := fun m => Parity cx cy m count) h fun _ => h
  | step => exact step_preserves_parity h hx hy
  | tick => exact h
  | key => exact h
  | display => cases hop
  | render => exact h

theorem parity_of_blank (hm : m.display = Display.blank) : Parity cx cy m 0 := by
  unfold Parity
  rw [hm]
  exact get_replicate _ _

/-- A sprite of an instruction hits the screen when it falls on a lit cell. -/
theorem draw_hit_iff (m : Machine) (x y n : Nibble) :
    (m.display.draw (m.v x) (m.v y) (m.memory.block m.registers.i.toNat n)).2 = true ↔
      ∃ cx cy : Nat, cx < 64 ∧ cy < 32 ∧ 0 < m.stamped x y n cx cy ∧
        m.display.get cx cy = Display.lit := by
  change (Display.flipAll _ _ _).2 = true ↔ _
  rw [Display.flipAll_hit_iff]
  constructor
  · rintro (h | ⟨k, hk⟩)
    · cases h
    · obtain ⟨cx, cy, hx, hy, rfl⟩ := Display.exists_index k
      rw [count_stamps_block m x y n hx hy] at hk
      have hle : m.stamped x y n cx cy ≤ 1 := Display.cover_le_one (by omega) _ _ _ _
      rcases hk with ⟨hl, hc⟩ | ⟨_, hc⟩
      · exact ⟨cx, cy, hx, hy, hc, hl⟩
      · omega
  · rintro ⟨cx, cy, hx, hy, hc, hl⟩
    refine Or.inr ⟨Display.index cx cy, Or.inl ⟨hl, ?_⟩⟩
    rw [count_stamps_block m x y n hx hy]
    exact hc

/-- As long as nobody but the program draws, a cell is lit when an odd number of sprite bits has
fallen on it since the screen was last cleared, and dark otherwise. A sprite sets the flag to one
when one of its bits falls on a cell that was lit just before, and to zero otherwise. -/
theorem screen_parity (legacy : Bool) (seed : Int) (ops : List Operation)
    (hops : ∀ op ∈ ops, op.isDirect = false) :
    let m := (fresh legacy seed).replay ops
    (∀ cx cy : Nat, cx < 64 → cy < 32 → m.display.get cx cy =
      if (fresh legacy seed).stampCount ops cx cy % 2 = 1 then 0xFF else 0x00) ∧
    (∀ x y n, m.executed? = some (.draw x y n) →
      (m.step.machine.v Registers.flag = 1 ↔ ∃ cx cy : Nat, cx < 64 ∧ cy < 32 ∧
        0 < m.stamped x y n cx cy ∧ m.display.get cx cy = 0xFF) ∧
      (m.step.machine.v Registers.flag = 0 ↔ ¬ ∃ cx cy : Nat, cx < 64 ∧ cy < 32 ∧
        0 < m.stamped x y n cx cy ∧ m.display.get cx cy = 0xFF)) := by
  intro m
  constructor
  · intro cx cy hx hy
    refine account_invariant (R := Parity cx cy) ?_ (parity_of_blank rfl)
    intro op hop m count h
    exact perform_preserves_parity h hx hy (hops op hop)
  · intro x y n hd
    have hhit := draw_hit_iff m x y n
    change _ ↔ ∃ cx cy : Nat, cx < 64 ∧ cy < 32 ∧ 0 < m.stamped x y n cx cy ∧
      m.display.get cx cy = 0xFF at hhit
    rw [(step_draw hd).2, ← hhit]
    cases (m.display.draw (m.v x) (m.v y) (m.memory.block m.registers.i.toNat n)).2 with
    | true => simp
    | false => simp

/-- A glyph is drawn twice, three columns apart, at the column that the flag register names. -/
theorem screen_parity_overlapping :
    let before : List Operation := [.load [0xA0, 0x00, 0xDF, 0x05, 0x6F, 0x03, 0xDF, 0x05],
      .step, .step, .tick, .step]
    let m := (fresh false 0).replay before
    (∀ op ∈ before, op.isDirect = false) ∧ m.executed? = some (.draw 15 0 5) ∧
      m.display.get 3 0 = 0xFF ∧ m.step.machine.v Registers.flag = 1 := by
  intro before m
  have hops : ∀ op ∈ before, op.isDirect = false := by decide
  have hd : m.executed? = some (.draw 15 0 5) := by decide +kernel
  have hodd : (fresh false 0).stampCount before 3 0 % 2 = 1 := by decide +kernel
  have hfalls : 0 < m.stamped 15 0 5 3 0 := by decide +kernel
  obtain ⟨hcells, hflag⟩ := screen_parity false 0 before hops
  have hlit : m.display.get 3 0 = 0xFF := by
    have := hcells 3 0 (by decide) (by decide)
    rw [if_pos hodd] at this
    exact this
  refine ⟨hops, hd, hlit, ?_⟩
  exact (hflag 15 0 5 hd).1.mpr ⟨3, 0, by decide, by decide, hfalls, hlit⟩

end Machine

end Chip8
