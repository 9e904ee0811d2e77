import Chip8.Proofs.Memory.Access

/-!
# Blocks that are read

A block is asked for by an address and a number of bytes. One that leaves the store is refused. Of
the others each byte is the one that a read of its own address gives, and there are as many as were
asked for, with one exception: a number below zero can bring the end of the block below zero, and
an end below zero counts back from the end of the store. Then the store is read from the address up
to there, although nothing was asked for.
-/
namespace Chip8.Memory

/-- The bytes from an address on, each as it is read by itself. -/
def Holds (m : Memory) (address : Int) (bs : List UInt8) : Prop :=
  ∀ k (hk : k < bs.length), m.read (address + k) = .ok bs[k]

/-- The end of a block lies below zero and, counted back from the end of the store, comes to lie
behind the address. -/
def EndWraps (address length : Int) : Prop :=
  0 ≤ address ∧ address + length < 0 ∧ -4096 < length

instance (address length : Int) : Decidable (EndWraps address length) :=
  inferInstanceAs (Decidable (_ ∧ _ ∧ _))

variable {address length : Int}

theorem EndWraps.inside (h : EndWraps address length) :
    0 ≤ address ∧ address + length ≤ 4096 := by
  obtain ⟨ha, hend, -⟩ := h
  omega

theorem blockSize_of_end_neg (ha : 0 ≤ address) (he : address + length < 0) :
    blockSize address length = (4096 + length).toNat := by
  simp only [blockSize, blockEnd, if_pos he]
  omega

theorem EndWraps.blockSize_eq (h : EndWraps address length) :
    (blockSize address length : Int) = 4096 + length := by
  obtain ⟨ha, hend, hlength⟩ := h
  rw [blockSize_of_end_neg ha hend]
  omega

theorem blockSize_eq_max_iff (ha : 0 ≤ address) :
    (blockSize address length : Int) = max length 0 ↔ ¬ EndWraps address length := by
  constructor
  · intro hsize hwraps
    have := hwraps.blockSize_eq
    obtain ⟨-, hend, hlength⟩ := hwraps
    omega
  · intro hnot
    by_cases he : 0 ≤ address + length
    · rw [blockSize_of_end_nonneg ha he]
      omega
    · -- the end, counted back, comes no further than to the address
      have hlength : ¬ -4096 < length := fun hl => hnot ⟨ha, Int.not_le.mp he, hl⟩
      rw [blockSize_of_end_neg ha (Int.not_le.mp he)]
      omega

/-- Only an empty block can lie past the end of the store. -/
theorem blockSize_fits (h : 0 ≤ address ∧ address + length ≤ 4096) :
    blockSize address length = 0 ∨ address.toNat + blockSize address length ≤ 4096 := by
  by_cases he : 0 ≤ address + length
  · rw [blockSize_of_end_nonneg h.1 he]
    omega
  · rw [blockSize_of_end_neg h.1 (Int.not_le.mp he)]
    omega

theorem holds_block (m : Memory) (ha : 0 ≤ address) {n : Nat}
    (hn : n = 0 ∨ address.toNat + n ≤ 4096) : m.Holds address (m.block address.toNat n) := by
  intro k hk
  have hkn : k < n := by rwa [length_block] at hk
  have hbyte : (m.block address.toNat n)[k] = m.byte (address.toNat + k) := by
    rw [List.getElem_eq_iff, getElem?_block, if_pos hkn]
  have hat : (address + k).toNat = address.toNat + k := by omega
  rw [hbyte, ← hat]
  exact read_eq_ok_iff.mpr ⟨by omega, rfl⟩

/-- An accepted block consists of the bytes from its address on, up to its end. -/
theorem readBlock_holds (m : Memory) (h : 0 ≤ address ∧ address + length ≤ 4096) :
    ∃ bs, m.readBlock address length = .ok bs ∧ m.Holds address bs ∧
      bs.length = blockSize address length := by
  have hin := (firstOutside?_eq_none_iff address length).mpr h
  exact ⟨_, readBlock_eq_block m hin, holds_block m h.1 (blockSize_fits h), length_block _ _ _⟩

theorem readBlock_of_over (m : Memory) (h : ¬ (0 ≤ address ∧ address + length ≤ 4096)) :
    m.readBlock address length =
      .error (.memory .data (if address < 0 ∨ 4096 ≤ address then address else 4096)) :=
  readBlock_of_outside m (firstOutside_of_over h)

theorem readBlock_eq_error_iff (m : Memory) {fault : Fault} :
    m.readBlock address length = .error fault ↔
      (address < 0 ∨ 4096 < address + length) ∧
        fault = .memory .data (if address < 0 ∨ 4096 ≤ address then address else 4096) := by
  by_cases h : 0 ≤ address ∧ address + length ≤ 4096
  · obtain ⟨bs, hbs, -, -⟩ := m.readBlock_holds h
    rw [hbs]
    constructor
    · intro hfault
      cases hfault
    · rintro ⟨hout, -⟩
      omega
  · rw [readBlock_of_over m h]
    constructor
    · intro hfault
      exact ⟨by omega, (Except.error.inj hfault).symm⟩
    · rintro ⟨-, rfl⟩
      rfl

/-- A block is refused exactly when it leaves the store, and the report names the first byte
outside. Any other block is the one that was asked for, none for a number below zero, exactly when
its end does not wrap. A block whose end wraps has `4096 + length` bytes instead of none. -/
theorem readBlock_as_asked_iff (m : Memory) (address length : Int) :
    (∀ fault, m.readBlock address length = .error fault ↔
      (address < 0 ∨ 4096 < address + length) ∧
        fault = .memory .data (if address < 0 ∨ 4096 ≤ address then address else 4096)) ∧
    ((∃ bs, m.readBlock address length = .ok bs ∧ m.Holds address bs ∧
        (bs.length : Int) = max length 0) ↔
      (0 ≤ address ∧ address + length ≤ 4096) ∧ ¬ EndWraps address length) ∧
    (EndWraps address length → ∃ bs, m.readBlock address length = .ok bs ∧
      m.Holds address bs ∧ (bs.length : Int) = 4096 + length) := by
  refine ⟨fun fault => readBlock_eq_error_iff m, ⟨?_, ?_⟩, ?_⟩
  · rintro ⟨bs, hbs, -, hlength⟩
    by_cases hin : 0 ≤ address ∧ address + length ≤ 4096
    · obtain ⟨bs', hbs', -, hsize⟩ := m.readBlock_holds hin
      obtain rfl := Except.ok.inj (hbs.symm.trans hbs')
      rw [hsize] at hlength
      exact ⟨hin, (blockSize_eq_max_iff hin.1).mp hlength⟩
    · rw [readBlock_of_over m hin] at hbs
      cases hbs
  · rintro ⟨hin, hnot⟩
    obtain ⟨bs, hbs, hholds, hsize⟩ := m.readBlock_holds hin
    refine ⟨bs, hbs, hholds, ?_⟩
    rw [hsize]
    exact (blockSize_eq_max_iff hin.1).mpr hnot
  · intro hwraps
    obtain ⟨bs, hbs, hholds, hsize⟩ := m.readBlock_holds hwraps.inside
    refine ⟨bs, hbs, hholds, ?_⟩
    rw [hsize]
    exact hwraps.blockSize_eq

/-- Minus one byte from the start of the store is all of the store but its last byte. -/
theorem readBlock_overlong_below_zero :
    ∃ bs, fresh.readBlock 0 (-1) = .ok bs ∧ bs.length = 4095 ∧
      (bs.length : Int) ≠ max (-1) 0 := by
  have hwraps : EndWraps 0 (-1) := by decide
  obtain ⟨bs, hbs, -, hsize⟩ := fresh.readBlock_holds hwraps.inside
  have hlength := hwraps.blockSize_eq
  exact ⟨bs, hbs, by omega, by omega⟩

end Chip8.Memory
