import Chip8.Proofs.Machine.Footprint
import Chip8.Proofs.Machine.Range

/-!
# Block transfers

The registers from the first to a chosen one are stored into consecutive bytes, and loaded from
them. Either transfer undoes the other: registers come back from the bytes they were stored to, and
bytes that were loaded are left as they are when they are stored again. The block may lie anywhere
in the store, over the instructions as well.
-/
namespace Chip8.Machine

variable {m s t : Machine} {x z : Nibble} {w : Nat} {i : Int}

structure AtTransfer (m : Machine) (w : Nat) (i : Int) : Prop where
  wellFormed : m.WellFormed
  fetched : m.memory.fetch m.registers.pc = .ok w
  index : m.registers.i = i

/-- A transfer of the registers up to `x` has succeeded. The index register stays at the block, or
moves behind it. -/
structure Transferred (m : Machine) (x : Nibble) (i : Int) : Prop where
  executed : m.step.report.outcome = .ok .executed
  index : m.step.machine.registers.i = if m.legacyStore then i + x + 1 else i

theorem AtTransfer.nonneg (h : m.AtTransfer w i) : 0 ≤ i := by
  rw [← h.index]
  exact h.wellFormed.i_word.1

theorem AtTransfer.inside (h : m.AtTransfer w i) (hi : i + x + 1 ≤ 4096) :
    Memory.firstOutside? m.registers.i ((x + 1 : Nat) : Int) = none := by
  have := h.nonneg
  rw [h.index, Memory.firstOutside?_eq_none_iff]
  omega

/-- Behind a block in the store the index register is far from wrapping. -/
theorem AtTransfer.passed (h : m.AtTransfer w i) (hi : i + x + 1 ≤ 4096) :
    (if m.legacyStore then (m.registers.i + x + 1) % 65536 else m.registers.i) =
      if m.legacyStore then i + x + 1 else i := by
  have := h.nonneg
  rw [h.index]
  split
  · omega
  · rfl

theorem step_saveBlock (h : m.AtTransfer (Instruction.saveBlock x).word i)
    (hi : i + x + 1 ≤ 4096) :
    m.Transferred x i ∧ m.step.machine.memory =
      m.memory.put i.toNat ((m.registers.v.toList.take (x + 1)).map UInt8.ofInt) := by
  have hx := execute_saveBlock (m := m.begun) x (h.inside hi)
  rw [passBlock_eq] at hx
  have hs := step_completed h.fetched (Instruction.decode_word _) hx
  refine ⟨⟨?_, ?_⟩, ?_⟩
  · rw [hs]
    rfl
  · rw [hs]
    exact h.passed hi
  · rw [hs, ← h.index]
    rfl

theorem step_loadBlock (h : m.AtTransfer (Instruction.loadBlock x).word i)
    (hi : i + x + 1 ≤ 4096) :
    m.Transferred x i ∧ m.step.machine.memory = m.memory ∧ m.step.machine.registers.v =
      fillV m.registers.v 0 (m.memory.block i.toNat (x + 1)) := by
  have hx := execute_loadBlock (m := m.begun) x (h.inside hi)
  rw [passBlock_eq] at hx
  have hs := step_completed h.fetched (Instruction.decode_word _) hx
  refine ⟨⟨?_, ?_⟩, ?_, ?_⟩
  · rw [hs]
    rfl
  · rw [hs]
    exact h.passed hi
  · rw [hs]
    rfl
  · rw [hs, ← h.index]
    rfl

/-- What an instruction at the program counter leaves alone when it succeeds. -/
theorem AtTransfer.footprint {j : Instruction} (h : m.AtTransfer j.word i)
    (hout : m.step.report.outcome = .ok .executed) : Footprint m j .executed m.step.machine := by
  obtain ⟨j', hj', hf⟩ := footprint_of_ok h.wellFormed hout
  obtain rfl : j = j' := Option.some.inj ((pending?_eq_some_iff.mpr h.fetched).symm.trans hj')
  exact hf

theorem stored_of_saved (h : m.AtTransfer (Instruction.saveBlock x).word i)
    (hi : i + x + 1 ≤ 4096) {a : Nat}
    (ha : m.step.machine.memory.byte a ≠ m.memory.byte a) : i ≤ a ∧ a ≤ i + x := by
  have hrange := (h.footprint (step_saveBlock h hi).1.executed).memory a ha
  rw [h.index] at hrange
  simp only [Instruction.storeLength] at hrange
  omega

theorem v_of_not_loaded (h : m.AtTransfer (Instruction.loadBlock x).word i)
    (hi : i + x + 1 ≤ 4096) (hz : x < z) : m.step.machine.v z = m.v z := by
  have hwrites : (Instruction.loadBlock x).writes z = false :=
    decide_eq_false (Fin.not_le.mpr hz)
  exact (h.footprint (step_loadBlock h hi).1.executed).data z hwrites

theorem getElem?_take_v (m : Machine) (hz : z ≤ x) :
    ((m.registers.v.toList.take (x + 1)).map UInt8.ofInt)[z.val]? =
      some (UInt8.ofInt (m.v z)) := by
  have hlt : z.val < x.val + 1 := Nat.lt_succ_of_le hz
  rw [List.getElem?_map, List.getElem?_take_of_lt hlt, getElem?_toList]
  rfl

theorem byte_of_saved (h : m.AtTransfer (Instruction.saveBlock x).word i)
    (hi : i + x + 1 ≤ 4096) (hz : z ≤ x) :
    m.step.machine.memory.byte (i.toNat + z) = UInt8.ofInt (m.v z) := by
  have hle : z.val ≤ x.val := hz
  rw [(step_saveBlock h hi).2]
  apply Memory.byte_put_of_mem
  · omega
  · rw [Nat.add_sub_cancel_left]
    exact m.getElem?_take_v hz
  · omega

theorem v_of_loaded (h : m.AtTransfer (Instruction.loadBlock x).word i) (hi : i + x + 1 ≤ 4096)
    (hz : z ≤ x) : m.step.machine.v z = (m.memory.byte (i.toNat + z)).toNat := by
  have hlt : z.val < x.val + 1 := Nat.lt_succ_of_le hz
  have hlength : (m.memory.block i.toNat (x + 1)).length = x + 1 := Memory.length_block _ _ _
  unfold v
  rw [(step_loadBlock h hi).2.2, get_fillV, if_pos (by omega), List.getD_eq_getElem?_getD,
    Nat.sub_zero, Memory.getElem?_block, if_pos hlt]
  rfl

/-- The bytes of a block are numbered by the registers. -/
theorem exists_register {a : Nat} (h : 0 ≤ i) (ha : i ≤ a) (ha' : a ≤ i + x) :
    ∃ z : Nibble, z ≤ x ∧ a = i.toNat + z := by
  have hx := x.isLt
  refine ⟨⟨a - i.toNat, by omega⟩, ?_, ?_⟩
  · change a - i.toNat ≤ x.val
    omega
  · change a = i.toNat + (a - i.toNat)
    omega

/-- Registers that hold bytes come back from where they were stored. -/
theorem v_of_saved_loaded (hs : s.AtTransfer (Instruction.saveBlock x).word i)
    (ht : t.AtTransfer (Instruction.loadBlock x).word i) (hi : i + x + 1 ≤ 4096)
    (hblock : ∀ a : Nat, i ≤ a → a ≤ i + x →
      t.memory.byte a = s.step.machine.memory.byte a) (hz : z ≤ x) :
    t.step.machine.v z = s.v z := by
  have hle : z.val ≤ x.val := hz
  have hpos := hs.nonneg
  have hbyte := hs.wellFormed.v_byte z
  rw [v_of_loaded ht hi hz, hblock _ (by omega) (by omega), byte_of_saved hs hi hz,
    Memory.toNat_ofInt]
  omega

/-- Bytes that were loaded are stored as they are. -/
theorem memory_of_loaded_saved (hs : s.AtTransfer (Instruction.loadBlock x).word i)
    (ht : t.AtTransfer (Instruction.saveBlock x).word i) (hi : i + x + 1 ≤ 4096)
    (hv : ∀ z ≤ x, t.v z = s.step.machine.v z)
    (hblock : ∀ a : Nat, i ≤ a → a ≤ i + x →
      t.memory.byte a = s.step.machine.memory.byte a) :
    t.step.machine.memory = t.memory := by
  apply Memory.ext_byte
  intro a _
  by_contra hne
  obtain ⟨hfrom, hto⟩ := stored_of_saved ht hi hne
  obtain ⟨z, hz, rfl⟩ := exists_register hs.nonneg hfrom hto
  apply hne
  rw [byte_of_saved ht hi hz, hv z hz, v_of_loaded hs hi hz, Memory.ofInt_toNat,
    hblock _ hfrom hto, (step_loadBlock hs hi).2.1]

/-- The words `Fx55` and `Fx65` undo each other on the block from `i` to `i + x`, whatever else has
happened to the machine in between, and whichever machines they are executed on. The first changes
no byte outside of the block, and the second no register behind `x` and no byte at all. -/
theorem block_transfers_inverse (x : Nibble) (i : Int) (hi : i + x + 1 ≤ 4096) :
    (∀ s : Machine, s.AtTransfer (Instruction.nibbles 0xF x 5 5) i →
      s.Transferred x i ∧
      (∀ a : Nat, s.step.machine.memory.byte a ≠ s.memory.byte a → i ≤ a ∧ a ≤ i + x) ∧
      ∀ t : Machine, t.AtTransfer (Instruction.nibbles 0xF x 6 5) i →
        (∀ a : Nat, i ≤ a → a ≤ i + x → t.memory.byte a = s.step.machine.memory.byte a) →
        t.Transferred x i ∧ (∀ z ≤ x, t.step.machine.v z = s.v z) ∧
          (∀ z, x < z → t.step.machine.v z = t.v z) ∧ t.step.machine.memory = t.memory) ∧
    ∀ s t : Machine, s.AtTransfer (Instruction.nibbles 0xF x 6 5) i →
      t.AtTransfer (Instruction.nibbles 0xF x 5 5) i →
      (∀ z ≤ x, t.v z = s.step.machine.v z) →
      (∀ a : Nat, i ≤ a → a ≤ i + x → t.memory.byte a = s.step.machine.memory.byte a) →
      s.Transferred x i ∧ t.Transferred x i ∧ t.step.machine.memory = t.memory := by
  constructor
  · intro s hs
    refine ⟨(step_saveBlock hs hi).1, fun a => stored_of_saved hs hi, ?_⟩
    intro t ht hblock
    obtain ⟨hdone, hmemory, -⟩ := step_loadBlock ht hi
    exact ⟨hdone, fun z => v_of_saved_loaded hs ht hi hblock, fun z => v_of_not_loaded ht hi,
      hmemory⟩
  · intro s t hs ht hv hblock
    exact ⟨(step_loadBlock hs hi).1, (step_saveBlock ht hi).1,
      memory_of_loaded_saved hs ht hi hv hblock⟩

/-- Two registers are stored into the last two bytes by a machine that moves the index register,
loaded by one that does not, and stored again. -/
theorem block_transfers_inverse_at_end :
    let s : Machine := { fresh true 0 with
      memory := Memory.fresh.put 0x200 [0xF1, 0x55]
      registers := { (Registers.initial.setV 0 7).setV 1 255 with i := 4094 } }
    let t : Machine := { fresh false 0 with
      memory := s.step.machine.memory.put 0x200 [0xF1, 0x65]
      registers := { Registers.initial with i := 4094 } }
    let u : Machine := { t.step.machine with
      memory := t.step.machine.memory.put 0x200 [0xF1, 0x55]
      registers := { t.step.machine.registers with pc := 0x200 } }
    s.step.machine.registers.i = 4096 ∧ t.step.machine.registers.i = 4094 ∧
      t.step.machine.v 0 = 7 ∧ t.step.machine.v 1 = 255 ∧ u.step.machine.memory = u.memory := by
  intro s t u
  have hbytes (m : Machine) (word : List UInt8) (hlength : word.length = 2) (a : Nat)
      (ha : (4094 : Int) ≤ a) : (m.memory.put 0x200 word).byte a = m.memory.byte a := by
    by_contra hne
    have hrange := Memory.mem_range_of_put_ne hne
    omega
  have hinitial : (fresh false 0).InRange := .of_initial rfl
  have hindex : (0 : Int) ≤ 4094 ∧ (4094 : Int) ≤ 0xFFFF := by decide
  have hset : s.InRange := by
    have hfilled := (hinitial.setV 0 (show (0 : Int) ≤ 7 ∧ (7 : Int) ≤ 255 by decide)).setV 1
      (show (0 : Int) ≤ 255 ∧ (255 : Int) ≤ 255 by decide)
    exact (hfilled.setIndex hindex).of_registers rfl
  have hblank : t.InRange := (hinitial.setIndex hindex).of_registers rfl
  have hs : s.AtTransfer (Instruction.nibbles 0xF 1 5 5) 4094 :=
    ⟨hset.toWellFormed, Memory.fetch_put _ (by decide) _ _, rfl⟩
  have ht : t.AtTransfer (Instruction.nibbles 0xF 1 6 5) 4094 :=
    ⟨hblank.toWellFormed, Memory.fetch_put _ (by decide) _ _, rfl⟩
  obtain ⟨hsave, hload⟩ := block_transfers_inverse 1 4094 (by decide)
  obtain ⟨hsaved, -, hback⟩ := hsave s hs
  obtain ⟨hloaded, hv, -, -⟩ := hback t ht fun a ha _ => hbytes s.step.machine _ rfl a ha
  have hu : u.AtTransfer (Instruction.nibbles 0xF 1 5 5) 4094 :=
    ⟨{ hblank.step.toWellFormed with pc_nonneg := by decide },
      Memory.fetch_put _ (by decide) _ _, hloaded.index⟩
  obtain ⟨-, -, hmemory⟩ := hload t u ht hu (fun _ _ => rfl)
    fun a ha _ => hbytes t.step.machine _ rfl a ha
  exact ⟨hsaved.index, hloaded.index, hv 0 (by decide), hv 1 (by decide), hmemory⟩

end Chip8.Machine
