import Chip8.Proofs.Machine.Course

/-!
# Ranges that instructions keep

The bounds lean on each other. The program counter is bounded because a computed jump adds a byte
and a return leads behind a call that was fetched; the data registers are bounded because the timers
are. So the ranges are one invariant, and it is the registers alone that it is about.
-/
namespace Chip8

/-- Bitwise operations that keep eight bits keep bytes. -/
theorem bitwise_byte {f : Nat → Nat → Nat} {g : Int → Int → Int}
    (hg : ∀ a b : Nat, g a b = f a b) (hf : ∀ a b, a < 256 → b < 256 → f a b < 256)
    {a b : Int} (ha : 0 ≤ a ∧ a ≤ 255) (hb : 0 ≤ b ∧ b ≤ 255) : 0 ≤ g a b ∧ g a b ≤ 255 := by
  obtain ⟨a, rfl⟩ := Int.eq_ofNat_of_zero_le ha.1
  obtain ⟨b, rfl⟩ := Int.eq_ofNat_of_zero_le hb.1
  have := hf a b (by omega) (by omega)
  rw [hg]
  omega

theorem byte_range (b : UInt8) : 0 ≤ (b.toNat : Int) ∧ (b.toNat : Int) ≤ 255 := by
  have := b.toNat_lt
  omega

namespace Machine

structure InRange (m : Machine) : Prop extends WellFormed m where
  pc_le : m.registers.pc ≤ 0x10FE
  stack_entry : ∀ k, 0 ≤ m.registers.stack.get k ∧ m.registers.stack.get k ≤ 0xFFE
  delay_byte : 0 ≤ m.registers.delay ∧ m.registers.delay ≤ 255
  sound_byte : 0 ≤ m.registers.sound ∧ m.registers.sound ≤ 255

namespace InRange

variable {m m' : Machine} {i : Instruction}

theorem of_initial (h : m.registers = Registers.initial) : m.InRange := by
  constructor
  · exact .of_initial h
  all_goals simp [h, Registers.initial]

theorem of_registers (h : m.InRange) (hr : m'.registers = m.registers) : m'.InRange := by
  obtain ⟨⟨hv, hi, hpc, hsp, hsp'⟩, hpc', hs, hd, hd'⟩ := h
  unfold v at hv
  rw [← hr] at hv hi hpc hsp hsp' hpc' hs hd hd'
  exact ⟨⟨hv, hi, hpc, hsp, hsp'⟩, hpc', hs, hd, hd'⟩

theorem jump (h : m.InRange) {address : Int} (ha : 0 ≤ address) (ha' : address ≤ 0x10FE) :
    (m.jump address).InRange :=
  { h with pc_nonneg := ha, pc_le := ha' }

theorem advance (h : m.InRange) (hp : m.registers.pc ≤ 4094) : m.advance.InRange :=
  have := h.pc_nonneg
  h.jump (by omega) (by omega)

theorem skipIf (h : m.InRange) (hp : m.registers.pc ≤ 4094) (condition : Bool) :
    (m.skipIf condition).InRange := by
  have := h.pc_nonneg
  rw [skipIf_eq]
  split
  · exact h.jump (by omega) (by omega)
  · exact h.jump (by omega) (by omega)

theorem setV (h : m.InRange) (x : Nibble) {value : Int} (hv : 0 ≤ value ∧ value ≤ 255) :
    (m.setV x value).InRange :=
  { h with v_byte := forall_get_set (P := fun z => 0 ≤ z ∧ z ≤ 255) h.v_byte x hv }

theorem setFlagged (h : m.InRange) (x : Nibble) (value : Int) {f : Int} (hf : 0 ≤ f ∧ f ≤ 255) :
    (m.setFlagged x value f).InRange :=
  have hv : 0 ≤ value % 256 ∧ value % 256 ≤ 255 := by omega
  (h.setV x hv).setV Registers.flag hf

theorem setIndex (h : m.InRange) {value : Int} (hv : 0 ≤ value ∧ value ≤ 0xFFFF) :
    (m.setIndex value).InRange :=
  { h with i_word := hv }

theorem passBlock (h : m.InRange) (x : Nibble) : (m.passBlock x).InRange := by
  have := h.i_word
  rw [passBlock_eq]
  split
  · exact h.setIndex (by omega)
  · exact h.setIndex h.i_word

theorem fillV {v : Vector Int 16} (h : ∀ x, 0 ≤ v.get x ∧ v.get x ≤ 255) (k : Nat)
    (bs : List UInt8) (x : Nibble) :
    0 ≤ (Machine.fillV v k bs).get x ∧ (Machine.fillV v k bs).get x ≤ 255 := by
  induction bs generalizing v k with
  | nil => exact h x
  | cons b rest ih =>
    refine ih (fun y => ?_) (k + 1)
    rw [get_setIfInBounds]
    split
    · exact byte_range b
    · exact h y

theorem tick (h : m.InRange) : m.tick.InRange := by
  have hd := h.delay_byte
  have hs := h.sound_byte
  refine { h with delay_byte := ?_, sound_byte := ?_ }
  · change 0 ≤ monus m.registers.delay ∧ monus m.registers.delay ≤ 255
    unfold monus
    split <;> omega
  · change 0 ≤ monus m.registers.sound ∧ monus m.registers.sound ≤ 255
    unfold monus
    split <;> omega

/-- Success keeps the ranges, provided that the instruction was fetched from the store. -/
theorem execute (h : m.InRange) (hp : m.registers.pc ≤ 4094) (hx : m.execute i = .ok () m') :
    m'.InRange := by
  have hc := obstacle_eq_none_of_ok hx
  have hpc := h.pc_nonneg
  cases i with
  | clearScreen => cases hx; exact advance (h.of_registers rfl) hp
  | ret =>
    have hentry : m.registers.sp ≠ 0 := by simpa [obstacle_ret] using hc
    have hsp := h.sp_nonneg
    have hsp' := h.sp_le
    have hs := h.stack_entry (Nibble.ofInt (m.registers.sp - 1))
    rw [execute_ret (by omega) hsp'] at hx
    cases hx
    have hlow : InRange { m with registers := { m.registers with sp := m.registers.sp - 1 } } :=
      { h with
        sp_nonneg := show 0 ≤ m.registers.sp - 1 by omega
        sp_le := show m.registers.sp - 1 ≤ 16 by omega }
    exact hlow.jump (by omega) (by omega)
  | jump a => cases hx; exact h.jump (by omega) (by omega)
  | call a =>
    have hroom : ¬ 16 ≤ m.registers.sp := by simpa [obstacle_call] using hc
    have hsp := h.sp_nonneg
    rw [execute_call a hsp (by omega)] at hx
    cases hx
    have hdeep : InRange { m with registers := { m.registers with
        stack := m.registers.stack.set (Nibble.ofInt m.registers.sp) m.registers.pc
        sp := m.registers.sp + 1 } } :=
      { h with
        sp_nonneg := show 0 ≤ m.registers.sp + 1 by omega
        sp_le := show m.registers.sp + 1 ≤ 16 by omega
        stack_entry := forall_get_set (P := fun z => 0 ≤ z ∧ z ≤ 0xFFE) h.stack_entry _ ⟨hpc, hp⟩ }
    exact hdeep.jump (by omega) (by omega)
  | skipEqByte | skipNeByte | skipEq | skipNe | skipDown | skipUp =>
    cases hx; exact h.skipIf hp _
  | loadByte x kk => cases hx; exact (h.setV x (byte_range kk)).advance hp
  | addByte x kk => cases hx; exact (h.setV x (by omega)).advance hp
  | copy x y => cases hx; exact (h.setV x (h.v_byte y)).advance hp
  | bitOr x y =>
    cases hx
    exact (h.setV x (bitwise_byte (fun _ _ => rfl) (fun _ _ => Nat.or_lt_two_pow (n := 8))
      (h.v_byte x) (h.v_byte y))).advance hp
  | bitAnd x y =>
    cases hx
    exact (h.setV x (bitwise_byte (fun _ _ => rfl) (fun a _ _ => Nat.and_lt_two_pow a (n := 8))
      (h.v_byte x) (h.v_byte y))).advance hp
  | bitXor x y =>
    cases hx
    exact (h.setV x (bitwise_byte (fun _ _ => rfl) (fun _ _ => Nat.xor_lt_two_pow (n := 8))
      (h.v_byte x) (h.v_byte y))).advance hp
  | add x y | subtract x y | subtractFrom x y =>
    cases hx
    exact (h.setFlagged x _ (by split <;> decide)).advance hp
  | shiftRight x | shiftLeft x => cases hx; exact (h.setFlagged x _ (by omega)).advance hp
  | loadIndex a => cases hx; exact (h.setIndex (by omega)).advance hp
  | jumpOffset a =>
    have hv := h.v_byte Registers.base
    cases hx
    exact h.jump (by omega) (by omega)
  | random x kk =>
    rw [execute_random] at hx
    cases hx
    have hm : InRange { m with random := m.random.nextByte.1 } := h.of_registers rfl
    exact (hm.setV x (byte_range _)).advance hp
  | draw x y n =>
    rw [execute_draw x y n (inside_of_block rfl hc)] at hx
    cases hx
    have hm : InRange { m with
        display := (m.display.draw (m.v x) (m.v y)
          (m.memory.block m.registers.i.toNat n)).1 } := h.of_registers rfl
    exact (hm.setV Registers.flag (by split <;> decide)).advance hp
  | readDelay x => cases hx; exact (h.setV x h.delay_byte).advance hp
  | awaitKey x =>
    cases hl : m.keypad.latched with
    | none =>
      rw [execute_awaitKey_none x hl] at hx
      cases hx
      exact h.of_registers rfl
    | some k =>
      rw [execute_awaitKey_some x hl] at hx
      cases hx
      have hm : InRange { m with keypad := m.keypad.clearLatch } := h.of_registers rfl
      exact (hm.setV x (by omega)).advance hp
  | setDelay x =>
    cases hx
    have hset : InRange { m with registers := { m.registers with delay := m.v x } } :=
      { h with delay_byte := h.v_byte x }
    exact hset.advance hp
  | setSound x =>
    cases hx
    have hset : InRange { m with registers := { m.registers with sound := m.v x } } :=
      { h with sound_byte := h.v_byte x }
    exact hset.advance hp
  | addIndex x => cases hx; exact (h.setIndex (by omega)).advance hp
  | glyph x =>
    have hv := h.v_byte x
    cases hx
    refine (h.setIndex ?_).advance hp
    simp only [Font.address, Font.glyphSize]
    omega
  | decimal x =>
    rw [execute_decimal x (inside_of_block rfl hc)] at hx
    cases hx
    exact advance (h.of_registers rfl) hp
  | saveBlock x =>
    rw [execute_saveBlock x (inside_of_block rfl hc)] at hx
    cases hx
    have hm : InRange { m with
        memory := m.memory.put m.registers.i.toNat
          ((m.registers.v.toList.take (x + 1)).map UInt8.ofInt) } := h.of_registers rfl
    exact (hm.passBlock x).advance (by rw [passBlock_eq]; exact hp)
  | loadBlock x =>
    rw [execute_loadBlock x (inside_of_block rfl hc)] at hx
    cases hx
    have hfill : InRange { m with registers := { m.registers with
        v := Machine.fillV m.registers.v 0 (m.memory.block m.registers.i.toNat (x + 1)) } } :=
      { h with v_byte := fillV h.v_byte 0 _ }
    exact (hfill.passBlock x).advance (by rw [passBlock_eq]; exact hp)

/-- A step keeps the ranges, however it ends. -/
theorem step (h : m.InRange) : m.step.machine.InRange := by
  have hbegun : m.begun.InRange := h.of_registers rfl
  refine step_preserves h.sp_nonneg h.sp_le h hbegun ?_
  intro w i m' hw hi hx
  exact (hbegun.execute (Memory.fetch_eq_ok hw).1.2 hx).of_registers rfl

end InRange

end Machine

end Chip8
