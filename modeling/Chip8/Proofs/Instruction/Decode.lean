import Chip8.Instruction.Table

/-!
# Decoding undoes encoding

Every mask of the table keeps the leading digit of a word and some of its trailing digits, whole. So
an entry fixes some digits of the words it accepts and the operand fields are the others. No two
entries accept the same word, hence the order of the table cannot matter.
-/
namespace Chip8.Instruction

theorem lowWord_lt (opcode : Int) : lowWord opcode < 65536 := by
  unfold lowWord
  omega

theorem lowWord_natCast {w : Nat} (hw : w < 65536) : lowWord w = w := by
  unfold lowWord
  omega

theorem word_lt (i : Instruction) : i.word < 65536 := by
  cases i with
  | skipEqByte x kk | skipNeByte x kk | loadByte x kk | addByte x kk | random x kk =>
    have := kk.toNat_lt
    simp only [word]
    omega
  | _ => simp only [word, nibbles]; omega

section Masks

variable {w : Nat}

/-- A mask of this form keeps the leading digit and some trailing bits. -/
theorem and_mask {n : Nat} (hw : w < 65536) (hn : ∀ v, v &&& (n - 1) = v % n) (hpos : 0 < n)
    (hle : n ≤ 4096) : w &&& (0xF000 + (n - 1)) = w / 4096 * 4096 + w % 4096 % n := by
  have hdiv : (w &&& (0xF000 + (n - 1))) / 2 ^ 12 = w / 4096 := by
    rw [Nat.and_div_two_pow, show (0xF000 + (n - 1)) / 2 ^ 12 = 2 ^ 4 - 1 by omega,
      Nat.and_two_pow_sub_one_eq_mod]
    omega
  have hmod : (w &&& (0xF000 + (n - 1))) % 2 ^ 12 = w % 4096 % n := by
    rw [Nat.and_mod_two_pow, show (0xF000 + (n - 1)) % 2 ^ 12 = n - 1 by omega, hn]
  have := Nat.div_add_mod (w &&& (0xF000 + (n - 1))) (2 ^ 12)
  omega

theorem and_leading (hw : w < 65536) : w &&& 0xF000 = w / 4096 * 4096 :=
  (and_mask hw (n := 1) (fun v => Nat.and_two_pow_sub_one_eq_mod v 0) (by decide)
    (by decide)).trans (by omega)

theorem and_leading_last (hw : w < 65536) : w &&& 0xF00F = w / 4096 * 4096 + w % 16 :=
  (and_mask hw (n := 16) (fun v => Nat.and_two_pow_sub_one_eq_mod v 4) (by decide)
    (by decide)).trans (by omega)

theorem and_leading_last_two (hw : w < 65536) : w &&& 0xF0FF = w / 4096 * 4096 + w % 256 :=
  (and_mask hw (n := 256) (fun v => Nat.and_two_pow_sub_one_eq_mod v 8) (by decide)
    (by decide)).trans (by omega)

theorem and_all (hw : w < 65536) : w &&& 0xFFFF = w :=
  (and_mask hw (n := 4096) (fun v => Nat.and_two_pow_sub_one_eq_mod v 12) (by decide)
    (by decide)).trans (by omega)

end Masks

structure Operands.Of (o : Operands) (w : Nat) : Prop where
  address : o.address.val = w % 4096
  n : o.n.val = w % 16
  x : o.x.val = w / 256 % 16
  y : o.y.val = w / 16 % 16
  kk : o.kk.toNat = w % 256

theorem operands_of_opcode (opcode : Int) : Operands.Of (.ofOpcode opcode) (lowWord opcode) := by
  constructor <;> simp [Operands.ofOpcode]

theorem word_of_mem_table {w : Nat} (hw : w < 65536) {o : Operands} (ho : Operands.Of o w) :
    ∀ e ∈ table, w &&& e.mask = e.pattern → (e.build o).word = w := by
  obtain ⟨ha, hn, hx, hy, hk⟩ := ho
  -- With the masks as digits, each entry is a statement about the digits of `w` alone.
  simp only [table, List.forall_mem_cons, List.not_mem_nil, false_implies, implies_true, and_true,
    and_all hw, and_leading hw, and_leading_last hw, and_leading_last_two hw, word, nibbles,
    ha, hn, hx, hy, hk]
  clear ha hn hx hy hk
  and_intros <;> omega

section Lookup

variable {opcode : Int} {e : Entry} {i : Instruction}

theorem mem_of_lookup (h : lookup opcode = some e) : e ∈ table :=
  List.mem_of_find?_eq_some (show table.find? (·.accepts opcode) = some e from h)

theorem accepted_of_lookup (h : lookup opcode = some e) :
    lowWord opcode &&& e.mask = e.pattern := by
  have hm := List.find?_some (show table.find? (·.accepts opcode) = some e from h)
  simpa only [Entry.accepts, beq_iff_eq] using hm

theorem word_of_lookup (h : lookup opcode = some e) :
    (e.build (.ofOpcode opcode)).word = lowWord opcode :=
  word_of_mem_table (lowWord_lt opcode) (operands_of_opcode opcode) e (mem_of_lookup h)
    (accepted_of_lookup h)

theorem word_of_decode (h : decode? opcode = some i) : i.word = lowWord opcode := by
  obtain ⟨e, he, rfl⟩ := Option.map_eq_some_iff.mp h
  exact word_of_lookup he

end Lookup

theorem decode_eq_none_iff (opcode : Int) : decode? opcode = none ↔ lookup opcode = none :=
  Option.map_eq_none_iff

section Digits

variable {a b c d : Nat} {o : Operands} {x : Nibble} {kk : UInt8}

theorem nibbles_lt (ha : a < 16) (hb : b < 16) (hc : c < 16) (hd : d < 16) :
    nibbles a b c d < 65536 := by
  unfold nibbles
  omega

theorem nibbles_and_leading (ha : a < 16) (hb : b < 16) (hc : c < 16) (hd : d < 16) :
    nibbles a b c d &&& 0xF000 = 4096 * a := by
  rw [and_leading (nibbles_lt ha hb hc hd)]
  unfold nibbles
  omega

theorem nibbles_and_leading_last (ha : a < 16) (hb : b < 16) (hc : c < 16) (hd : d < 16) :
    nibbles a b c d &&& 0xF00F = 4096 * a + d := by
  rw [and_leading_last (nibbles_lt ha hb hc hd)]
  unfold nibbles
  omega

theorem nibbles_and_leading_last_two (ha : a < 16) (hb : b < 16) (hc : c < 16) (hd : d < 16) :
    nibbles a b c d &&& 0xF0FF = 4096 * a + (16 * c + d) := by
  rw [and_leading_last_two (nibbles_lt ha hb hc hd)]
  unfold nibbles
  omega

theorem Operands.Of.digits (h : Operands.Of o (nibbles a b c d)) (hb : b < 16) (hc : c < 16)
    (hd : d < 16) : o.x.val = b ∧ o.y.val = c ∧ o.n.val = d := by
  obtain ⟨-, hn, hx, hy, -⟩ := h
  unfold nibbles at hn hx hy
  omega

theorem and_leading_of_byte (ha : a % 4096 = 0) (hle : a ≤ 0xF000) (x : Nibble) (kk : UInt8) :
    (a + 256 * x + kk.toNat) &&& 0xF000 = a := by
  have := kk.toNat_lt
  rw [and_leading (by omega)]
  omega

theorem Operands.Of.byte (h : Operands.Of o (a + 256 * x + kk.toNat)) (ha : a % 4096 = 0) :
    o.x = x ∧ o.kk = kk := by
  have := kk.toNat_lt
  obtain ⟨-, -, hx, -, hk⟩ := h
  exact ⟨Fin.ext (by omega), UInt8.toNat_inj.mp (by omega)⟩

theorem and_leading_of_address (ha : a % 4096 = 0) (hle : a ≤ 0xF000) (address : Fin 4096) :
    (a + address) &&& 0xF000 = a := by
  rw [and_leading (by omega)]
  omega

theorem Operands.Of.address_eq {address : Fin 4096} (h : Operands.Of o (a + address))
    (ha : a % 4096 = 0) : o.address = address := by
  have := h.address
  exact Fin.ext (by omega)

end Digits

/-- Instructions are listed in the order of their entries. -/
theorem entry_of_instruction (i : Instruction) : ∃ e, table[i.ctorIdx]? = some e ∧
    i.word &&& e.mask = e.pattern ∧ ∀ o, Operands.Of o i.word → e.build o = i := by
  cases i with
  | clearScreen | ret => exact ⟨_, rfl, and_all (by decide), fun _ _ => rfl⟩
  | jump a | call a | loadIndex a | jumpOffset a =>
    refine ⟨_, rfl, and_leading_of_address (by decide) (by decide) a, ?_⟩
    rintro ⟨oa, on, ox, oy, okk⟩ ho
    obtain rfl := ho.address_eq (by decide)
    rfl
  | skipEqByte x kk | skipNeByte x kk | loadByte x kk | addByte x kk | random x kk =>
    refine ⟨_, rfl, and_leading_of_byte (by decide) (by decide) x kk, ?_⟩
    rintro ⟨oa, on, ox, oy, okk⟩ ho
    obtain ⟨rfl, rfl⟩ := ho.byte (by decide)
    rfl
  | skipEq x y | copy x y | bitOr x y | bitAnd x y | bitXor x y | add x y | subtract x y
  | shiftRight x y | subtractFrom x y | shiftLeft x y | skipNe x y =>
    refine ⟨_, rfl, nibbles_and_leading_last (by decide) x.isLt y.isLt (by decide), ?_⟩
    rintro ⟨oa, on, ox, oy, okk⟩ ho
    obtain ⟨hx, hy, -⟩ := ho.digits x.isLt y.isLt (by decide)
    obtain rfl := Fin.ext hx
    obtain rfl := Fin.ext hy
    rfl
  | draw x y n =>
    refine ⟨_, rfl, nibbles_and_leading (by decide) x.isLt y.isLt n.isLt, ?_⟩
    rintro ⟨oa, on, ox, oy, okk⟩ ho
    obtain ⟨hx, hy, hn⟩ := ho.digits x.isLt y.isLt n.isLt
    obtain rfl := Fin.ext hx
    obtain rfl := Fin.ext hy
    obtain rfl := Fin.ext hn
    rfl
  | skipDown x | skipUp x | readDelay x | awaitKey x | setDelay x | setSound x | addIndex x
  | glyph x | decimal x | saveBlock x | loadBlock x =>
    refine ⟨_, rfl, nibbles_and_leading_last_two (by decide) x.isLt (by decide) (by decide), ?_⟩
    rintro ⟨oa, on, ox, oy, okk⟩ ho
    obtain ⟨hx, -, -⟩ := ho.digits x.isLt (by decide) (by decide)
    obtain rfl := Fin.ext hx
    rfl

theorem table_disjoint :
    table.Pairwise fun e e' => e.pattern &&& e'.mask ≠ e'.pattern &&& e.mask := by decide

/-- Patterns that differ under both masks are not met by one word. -/
theorem not_accepted_of_disjoint {w : Nat} {e e' : Entry}
    (hne : e.pattern &&& e'.mask ≠ e'.pattern &&& e.mask) (h : w &&& e.mask = e.pattern) :
    w &&& e'.mask ≠ e'.pattern := by
  intro h'
  rw [← h, ← h', Nat.and_assoc, Nat.and_comm e.mask, ← Nat.and_assoc] at hne
  exact hne rfl

theorem entry_unique {w : Nat} {e e' : Entry} (he : e ∈ table) (he' : e' ∈ table)
    (h : w &&& e.mask = e.pattern) (h' : w &&& e'.mask = e'.pattern) : e = e' := by
  have all := List.Pairwise.forall_of_forall_of_flip (l := table)
    (R := fun a b => w &&& a.mask = a.pattern → w &&& b.mask = b.pattern → a = b)
    (fun _ _ _ _ => rfl)
    (table_disjoint.imp fun hne ha hb => absurd hb (not_accepted_of_disjoint hne ha))
    (table_disjoint.imp fun hne ha hb => absurd ha (not_accepted_of_disjoint hne hb))
  exact all he he' h h'

/-- An entry that accepts an opcode is the one that is found for it. -/
theorem lookup_of_accepted {opcode : Int} {e : Entry} (he : e ∈ table)
    (h : lowWord opcode &&& e.mask = e.pattern) : lookup opcode = some e := by
  cases hf : lookup opcode with
  | none =>
    have := List.find?_eq_none.mp hf e he
    simp [Entry.accepts, h] at this
  | some e' => rw [entry_unique (mem_of_lookup hf) he (accepted_of_lookup hf) h]

theorem decode_word (i : Instruction) : decode? i.word = some i := by
  obtain ⟨e, he, hm, hbuild⟩ := entry_of_instruction i
  have hword : lowWord i.word = i.word := lowWord_natCast i.word_lt
  rw [← hword] at hm
  have hof := operands_of_opcode i.word
  rw [hword] at hof
  rw [decode?, lookup_of_accepted (List.mem_of_getElem? he) hm, Option.map_some, hbuild _ hof]

theorem word_injective {i j : Instruction} (h : i.word = j.word) : i = j :=
  Option.some.inj ((decode_word i).symm.trans (h ▸ decode_word j))

end Chip8.Instruction
