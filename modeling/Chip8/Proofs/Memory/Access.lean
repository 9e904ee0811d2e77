import Chip8.Memory

/-!
# Checked access

An access either stays inside the store, and then it is the plain one, or it reports the first byte
outside and leaves the store as it was.
-/
namespace Chip8.Memory

theorem toNat_ofInt (z : Int) : ((UInt8.ofInt z).toNat : Int) = z % 256 := by
  simp only [UInt8.ofInt, UInt8.toNat_ofNat']
  omega

theorem ofInt_toNat (b : UInt8) : UInt8.ofInt b.toNat = b := by
  have := b.toNat_lt
  apply UInt8.toNat_inj.mp
  have := toNat_ofInt b.toNat
  omega

/-- Bytes in a row; there are only zeros past the end. -/
def block (m : Memory) (start n : Nat) : List UInt8 :=
  (List.range n).map fun k => m.byte (start + k)

theorem length_block (m : Memory) (start n : Nat) : (m.block start n).length = n := by
  rw [block, List.length_map, List.length_range]

theorem getElem?_block (m : Memory) (start n k : Nat) :
    (m.block start n)[k]? = if k < n then some (m.byte (start + k)) else none := by
  unfold block
  by_cases hk : k < n
  · rw [if_pos hk, List.getElem?_map, List.getElem?_range hk]
    rfl
  · rw [if_neg hk, List.getElem?_eq_none_iff, List.length_map, List.length_range]
    exact Nat.not_lt.mp hk

/-- A memory is known by its bytes. -/
theorem ext_byte {m n : Memory} (h : ∀ a < 4096, m.byte a = n.byte a) : m = n := by
  have hbytes : m.bytes = n.bytes := by
    apply Vector.ext
    intro a ha
    have hat := h a ha
    unfold byte at hat
    rwa [Vector.getElem?_eq_getElem ha, Vector.getElem?_eq_getElem ha] at hat
  cases m
  cases n
  exact congrArg Memory.mk hbytes

theorem byte_put_of_mem {m : Memory} {address a : Nat} {bs : List UInt8} {b : UInt8}
    (h : address ≤ a) (hb : bs[a - address]? = some b) (ha : a < 4096) :
    (m.put address bs).byte a = b := by
  have hlt := (List.getElem?_eq_some_iff.mp hb).1
  rw [byte_put, if_pos ⟨h, by omega, ha⟩, List.getD_eq_getElem?_getD, hb]
  rfl

theorem byte_put_of_not_mem {m : Memory} {address a : Nat} {bs : List UInt8}
    (h : ¬ (address ≤ a ∧ a < address + bs.length)) : (m.put address bs).byte a = m.byte a := by
  rw [byte_put, if_neg (by omega)]

theorem firstOutside?_eq_none_iff (address length : Int) :
    firstOutside? address length = none ↔ 0 ≤ address ∧ address + length ≤ 4096 := by
  unfold firstOutside?
  split
  · simp only [reduceCtorEq, false_iff]; omega
  · simp only [true_iff]; omega

theorem firstOutside_of_over {address length : Int}
    (h : ¬ (0 ≤ address ∧ address + length ≤ 4096)) : firstOutside? address length =
      some (if address < 0 ∨ 4096 ≤ address then address else 4096) := by
  rw [firstOutside?, if_pos (by omega)]

/-- From an address that is not below zero, an access can only run over the end. -/
theorem firstOutside?_of_nonneg {address : Int} (h : 0 ≤ address) (length : Int) :
    firstOutside? address length =
      if 4096 < address + length then some (if 4096 ≤ address then address else 4096)
      else none := by
  have hneg : ¬ address < 0 := by omega
  simp only [firstOutside?, hneg, false_or]

theorem check_of_inside {use : Access} {address length : Int}
    (h : firstOutside? address length = none) : check use address length = .ok () := by
  simp only [check, h]

theorem check_of_outside {use : Access} {address length outside : Int}
    (h : firstOutside? address length = some outside) :
    check use address length = .error (.memory use outside) := by
  simp only [check, h]

theorem read_eq_ok_iff {m : Memory} {address : Int} {b : UInt8} :
    m.read address = .ok b ↔ (0 ≤ address ∧ address ≤ 4095) ∧ b = m.byte address.toNat := by
  cases ho : firstOutside? address 1 with
  | none =>
    have hin := (firstOutside?_eq_none_iff address 1).mp ho
    rw [read, check_of_inside ho]
    constructor
    · intro h
      exact ⟨by omega, (Except.ok.inj h).symm⟩
    · rintro ⟨-, rfl⟩
      rfl
  | some outside =>
    rw [read, check_of_outside ho]
    constructor
    · intro h
      cases h
    · rintro ⟨hin, -⟩
      have hnone := (firstOutside?_eq_none_iff address 1).mpr (by omega)
      rw [hnone] at ho
      cases ho

theorem load_of_fits (m : Memory) {program : List UInt8} (h : program.length ≤ 3584) :
    load program m = .ok () (m.put 0x200 program) := by
  have hfits : ¬ programLimit < program.length := Nat.not_lt.mpr h
  rw [load, if_neg hfits]
  rfl

theorem load_of_oversized (m : Memory) {program : List UInt8} (h : 3584 < program.length) :
    load program m = .error (.tooLarge program.length 3584 none) m := by
  have hlong : programLimit < program.length := h
  rw [load, if_pos hlong]
  rfl

theorem fetch_of_inside (m : Memory) {address : Int} (h : firstOutside? address 2 = none) :
    m.fetch address =
      .ok (256 * (m.byte address.toNat).toNat + (m.byte (address.toNat + 1)).toNat) := by
  rw [fetch, check_of_inside h]
  rfl

theorem fetch_of_outside (m : Memory) {address outside : Int}
    (h : firstOutside? address 2 = some outside) :
    m.fetch address = .error (.memory .fetch outside) := by
  rw [fetch, check_of_outside h]
  rfl

def blockSize (address length : Int) : Nat :=
  (blockEnd address length).toNat - address.toNat

theorem readBlock_eq_block (m : Memory) {address length : Int}
    (h : firstOutside? address length = none) :
    m.readBlock address length = .ok (m.block address.toNat (blockSize address length)) := by
  rw [readBlock, check_of_inside h]
  rfl

theorem blockSize_of_end_nonneg {address length : Int} (ha : 0 ≤ address)
    (he : 0 ≤ address + length) : blockSize address length = length.toNat := by
  simp only [blockSize, blockEnd, if_neg (Int.not_lt.mpr he)]
  omega

theorem readBlock_of_inside (m : Memory) {address length : Int} (hl : 0 ≤ length)
    (h : firstOutside? address length = none) :
    m.readBlock address length = .ok (m.block address.toNat length.toNat) := by
  have hi := (firstOutside?_eq_none_iff address length).mp h
  rw [readBlock_eq_block m h, blockSize_of_end_nonneg hi.1 (Int.add_nonneg hi.1 hl)]

theorem readBlock_of_outside (m : Memory) {address length outside : Int}
    (h : firstOutside? address length = some outside) :
    m.readBlock address length = .error (.memory .data outside) := by
  rw [readBlock, check_of_outside h]
  rfl

theorem write_of_inside (m : Memory) {address : Int} (h : firstOutside? address 1 = none)
    (value : Int) : write address value m = .ok () (m.put address.toNat [UInt8.ofInt value]) := by
  rw [write, check_of_inside h]
  rfl

theorem write_of_outside (m : Memory) {address outside : Int}
    (h : firstOutside? address 1 = some outside) (value : Int) :
    write address value m = .error (.memory .data outside) m := by
  rw [write, check_of_outside h]
  rfl

theorem writeBlock_of_inside (m : Memory) {address : Int} {values : List Int}
    (h : firstOutside? address values.length = none) :
    writeBlock address values m = .ok () (m.put address.toNat (values.map UInt8.ofInt)) := by
  rw [writeBlock, check_of_inside h]
  rfl

theorem writeBlock_of_outside (m : Memory) {address outside : Int} {values : List Int}
    (h : firstOutside? address values.length = some outside) :
    writeBlock address values m = .error (.memory .data outside) m := by
  rw [writeBlock, check_of_outside h]
  rfl

/-- A fetch stands for the word that the instructions see as data. -/
theorem fetch_eq_ok {m : Memory} {address : Int} {w : Nat} (h : m.fetch address = .ok w) :
    (0 ≤ address ∧ address ≤ 4094) ∧
      w = 256 * (m.byte address.toNat).toNat + (m.byte (address.toNat + 1)).toNat := by
  cases ho : firstOutside? address 2 with
  | some outside => rw [fetch_of_outside m ho] at h; cases h
  | none =>
    rw [fetch_of_inside m ho] at h
    have hi := (firstOutside?_eq_none_iff address 2).mp ho
    exact ⟨by omega, (Except.ok.inj h).symm⟩

theorem fetch_put (m : Memory) {address : Nat} (h : address ≤ 4094) (hi lo : UInt8) :
    (m.put address [hi, lo]).fetch address = .ok (256 * hi.toNat + lo.toNat) := by
  have hin := (firstOutside?_eq_none_iff address 2).mpr ⟨by omega, by omega⟩
  rw [fetch_of_inside _ hin, Int.toNat_natCast,
    byte_put_of_mem (b := hi) (Nat.le_refl address) (by simp) (by omega),
    byte_put_of_mem (b := lo) (Nat.le_add_right address 1) (by simp) (by omega)]

theorem fetch_lt {m : Memory} {address : Int} {w : Nat} (h : m.fetch address = .ok w) :
    w < 65536 := by
  have hi := (m.byte address.toNat).toNat_lt
  have lo := (m.byte (address.toNat + 1)).toNat_lt
  rw [(fetch_eq_ok h).2]
  omega

end Chip8.Memory
