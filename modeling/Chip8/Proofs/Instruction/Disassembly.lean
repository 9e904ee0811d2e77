import Chip8.Proofs.Instruction.Decode
import Chip8.Proofs.Shape
import Chip8.Proofs.Text

/-!
# What a disassembly tells

Some characters of a text are the same whatever the operands are. The texts of two entries differ in
such a character, at a place that no operand can shift. So a text belongs to one entry and shows the
operands of its template; all that it does not tell of an instruction is the second operand of a
shift.
-/
namespace Chip8

namespace Piece

variable {o o' : Operands} {p : Piece} {ps : List Piece}

/-- Only `n` is written in one or two characters, as its value needs. -/
def shape : Piece → Shape Char
  | .text s => s.toList.map some
  | .address => List.replicate 3 none
  | .kk => List.replicate 2 none
  | .x | .y => List.replicate 1 none
  | .n => []

def shapeOf : List Piece → Shape Char
  | [] => []
  | p :: ps => if p = .n then [] else p.shape ++ shapeOf ps

theorem length_fill (h : p ≠ .n) (o : Operands) :
    p.shape.length = (p.fill o).toList.length := by
  cases p with
  | text s => exact List.length_map some
  | address =>
    have hlt := o.address.isLt
    exact (Hex.length_text (k := 2) (Int.natCast_nonneg _) (by omega)).symm
  | kk =>
    have hlt := o.kk.toNat_lt
    exact (Hex.length_text (k := 1) (Int.natCast_nonneg _) (by omega)).symm
  | x =>
    have hlt := o.x.isLt
    exact (Hex.length_text (k := 0) (Int.natCast_nonneg _) (by omega)).symm
  | y =>
    have hlt := o.y.isLt
    exact (Hex.length_text (k := 0) (Int.natCast_nonneg _) (by omega)).symm
  | n => exact absurd rfl h

theorem begins_fill (o : Operands) (p : Piece) : p.shape.Begins (p.fill o).toList := by
  cases p with
  | text s => exact Shape.begins_literal s.toList
  | address => exact Shape.begins_any (length_fill (p := .address) nofun o)
  | kk => exact Shape.begins_any (length_fill (p := .kk) nofun o)
  | x => exact Shape.begins_any (length_fill (p := .x) nofun o)
  | y => exact Shape.begins_any (length_fill (p := .y) nofun o)
  | n => trivial

def chars (o : Operands) (ps : List Piece) : List Char := ps.flatMap fun p => (p.fill o).toList

theorem begins_chars (o : Operands) (ps : List Piece) : (shapeOf ps).Begins (chars o ps) := by
  induction ps with
  | nil => trivial
  | cons p ps ih =>
    rw [shapeOf]
    split
    · trivial
    · rename_i hp
      exact (begins_fill o p).append (length_fill hp o) ih

/-- Pieces before the last one take a known number of characters, so a text can be cut up again. -/
theorem fill_of_chars (hps : ∀ p ∈ ps.dropLast, p ≠ .n) (h : chars o ps = chars o' ps) :
    ∀ p ∈ ps, p.fill o = p.fill o' := by
  induction ps with
  | nil => exact fun p hp => absurd hp List.not_mem_nil
  | cons p ps ih =>
    cases ps with
    | nil =>
      simp only [chars, List.flatMap_cons, List.flatMap_nil, List.append_nil] at h
      intro q hq
      rw [List.mem_singleton.mp hq]
      exact String.toList_inj.mp h
    | cons p' ps =>
      rw [List.dropLast_cons_cons, List.forall_mem_cons] at hps
      have hlength := (length_fill hps.1 o).symm.trans (length_fill hps.1 o')
      obtain ⟨hhead, htail⟩ := List.append_inj (show (p.fill o).toList ++ chars o (p' :: ps) =
        (p.fill o').toList ++ chars o' (p' :: ps) from h) hlength
      rw [List.forall_mem_cons]
      exact ⟨String.toList_inj.mp hhead, ih hps.2 htail⟩

def Agrees (o o' : Operands) : Piece → Prop
  | .text _ => True
  | .address => o.address = o'.address
  | .n => o.n = o'.n
  | .x => o.x = o'.x
  | .y => o.y = o'.y
  | .kk => o.kk = o'.kk

theorem repr_injective : ∀ m n : Nibble, Nat.repr m = Nat.repr n → m = n := by decide

theorem agrees_iff_fill : p.Agrees o o' ↔ p.fill o = p.fill o' := by
  cases p with
  | text s => exact iff_of_true trivial rfl
  | address =>
    refine ⟨fun h => congrArg (fun a : Fin 4096 => Hex.text 3 a) h, fun h => ?_⟩
    exact Fin.ext (Int.ofNat.inj (Hex.text_injective h))
  | n =>
    refine ⟨fun h => congrArg (fun n : Nibble => Nat.repr n) h, fun h => ?_⟩
    exact repr_injective o.n o'.n h
  | x =>
    refine ⟨fun h => congrArg (fun x : Nibble => Hex.text 1 x) h, fun h => ?_⟩
    exact Fin.ext (Int.ofNat.inj (Hex.text_injective h))
  | y =>
    refine ⟨fun h => congrArg (fun y : Nibble => Hex.text 1 y) h, fun h => ?_⟩
    exact Fin.ext (Int.ofNat.inj (Hex.text_injective h))
  | kk =>
    refine ⟨fun h => congrArg (fun kk : UInt8 => Hex.text 2 kk.toNat) h, fun h => ?_⟩
    exact UInt8.toNat_inj.mp (Int.ofNat.inj (Hex.text_injective h))

end Piece

namespace Entry

variable {e : Entry} {o o' : Operands}

theorem toList_mnemonic (e : Entry) (o : Operands) :
    (e.mnemonic o).toList = Piece.chars o e.template := by
  rw [mnemonic, String.toList_join, List.flatMap_map]
  rfl

theorem begins_mnemonic (e : Entry) (o : Operands) :
    (Piece.shapeOf e.template).Begins (e.mnemonic o).toList := by
  rw [toList_mnemonic]
  exact Piece.begins_chars o e.template

theorem mnemonic_congr (h : ∀ p ∈ e.template, p.Agrees o o') : e.mnemonic o = e.mnemonic o' := by
  unfold mnemonic
  congr 1
  apply List.map_congr_left
  intro p hp
  exact Piece.agrees_iff_fill.mp (h p hp)

end Entry

namespace Instruction

variable {e e' : Entry} {o o' : Operands} {a b : Int} {i j : Instruction}

theorem table_clash : table.Pairwise fun e e' =>
    Shape.clash (Piece.shapeOf e.template) (Piece.shapeOf e'.template) = true := by decide +kernel

theorem template_cut : ∀ e ∈ table, ∀ p ∈ e.template.dropLast, p ≠ .n := by decide

/-- A text belongs to one entry, whatever the operands are. -/
theorem entry_of_mnemonic (he : e ∈ table) (he' : e' ∈ table)
    (h : e.mnemonic o = e'.mnemonic o') : e = e' := by
  have happart : ∀ {e e' : Entry},
      Shape.clash (Piece.shapeOf e.template) (Piece.shapeOf e'.template) = true →
      ∀ o o', e.mnemonic o ≠ e'.mnemonic o' := by
    intro e e' hclash o o' h
    have hbegins := e.begins_mnemonic o
    rw [h] at hbegins
    rw [Shape.not_clash hbegins (e'.begins_mnemonic o')] at hclash
    cases hclash
  have hall := List.Pairwise.forall_of_forall_of_flip (l := table)
    (R := fun e e' => ∀ o o', e.mnemonic o = e'.mnemonic o' → e = e')
    (fun _ _ _ _ _ => rfl)
    (table_clash.imp fun hclash o o' h => absurd h (happart hclash o o'))
    (table_clash.imp fun hclash o o' h => absurd h.symm (happart hclash o' o))
  exact hall he he' o o' h

/-- What a text tells of an instruction. -/
def shown : Instruction → Instruction
  | .shiftRight x _ => .shiftRight x (.ofInt 0)
  | .shiftLeft x _ => .shiftLeft x (.ofInt 0)
  | i => i

theorem ctorIdx_shown (i : Instruction) : i.shown.ctorIdx = i.ctorIdx := by
  cases i with
  | _ => rfl

theorem shown_eq_self_or (i : Instruction) : i.shown = i ∨
    (∃ x y, i = .shiftRight x y) ∨ ∃ x y, i = .shiftLeft x y := by
  cases i with
  | shiftRight x y => exact Or.inr (Or.inl ⟨x, y, rfl⟩)
  | shiftLeft x y => exact Or.inr (Or.inr ⟨x, y, rfl⟩)
  | _ => exact Or.inl rfl

/-- Of two instructions that are shown alike, either none is a shift or both are the same one. -/
theorem shown_eq_iff : i.shown = j.shown ↔ i = j ∨ ∃ x y y',
    (i = .shiftRight x y ∧ j = .shiftRight x y') ∨
      (i = .shiftLeft x y ∧ j = .shiftLeft x y') := by
  constructor
  · intro h
    rcases shown_eq_self_or i with hi | ⟨x, y, rfl⟩ | ⟨x, y, rfl⟩
    · rcases shown_eq_self_or j with hj | ⟨x, y, rfl⟩ | ⟨x, y, rfl⟩
      · exact Or.inl (hi.symm.trans (h.trans hj))
      · exact Or.inr ⟨x, _, y, Or.inl ⟨hi.symm.trans h, rfl⟩⟩
      · exact Or.inr ⟨x, _, y, Or.inr ⟨hi.symm.trans h, rfl⟩⟩
    · rcases shown_eq_self_or j with hj | ⟨x', y', rfl⟩ | ⟨x', y', rfl⟩
      · exact Or.inr ⟨x, y, _, Or.inl ⟨rfl, (h.trans hj).symm⟩⟩
      · obtain rfl := (Instruction.shiftRight.inj h).1
        exact Or.inr ⟨x, y, y', Or.inl ⟨rfl, rfl⟩⟩
      · cases h
    · rcases shown_eq_self_or j with hj | ⟨x', y', rfl⟩ | ⟨x', y', rfl⟩
      · exact Or.inr ⟨x, y, _, Or.inr ⟨rfl, (h.trans hj).symm⟩⟩
      · cases h
      · obtain rfl := (Instruction.shiftLeft.inj h).1
        exact Or.inr ⟨x, y, y', Or.inr ⟨rfl, rfl⟩⟩
  · rintro (rfl | ⟨x, y, y', ⟨rfl, rfl⟩ | ⟨rfl, rfl⟩⟩)
    · rfl
    · rfl
    · rfl

/-- A template shows the operands that its entry builds an instruction from, up to what the text
leaves out, and no others. -/
theorem agrees_iff_shown : ∀ e ∈ table, ∀ o o' : Operands,
    (∀ p ∈ e.template, p.Agrees o o') ↔ (e.build o).shown = (e.build o').shown := by
  simp only [table, List.forall_mem_cons, List.not_mem_nil, false_implies, implies_true, and_true,
    onTwo, onByte, onAddress, onOne, String.reduceEq, reduceIte, List.cons_append, List.nil_append,
    Piece.Agrees, shown, true_and]
  and_intros
  all_goals
    intro o o'
    simp

theorem disassemble_of_lookup (h : lookup a = some e) :
    disassemble a = e.mnemonic (.ofOpcode a) := by
  rw [disassemble, h]

/-- No entry has question marks for a text. -/
theorem disassemble_eq_unknown_iff : disassemble a = "???" ↔ lookup a = none := by
  have hletter : ∀ e ∈ table, Shape.clash (Piece.shapeOf e.template) [some '?'] = true := by
    decide
  cases hl : lookup a with
  | none => simp only [disassemble, hl]
  | some e =>
    rw [disassemble_of_lookup hl]
    refine iff_of_false (fun h => ?_) nofun
    have hbegins := e.begins_mnemonic (.ofOpcode a)
    have hmarks : (e.mnemonic (.ofOpcode a)).toList = ['?', '?', '?'] := congrArg String.toList h
    have hmark : Shape.Begins [some '?'] ['?', '?', '?'] := ⟨Or.inr rfl, trivial⟩
    rw [hmarks] at hbegins
    have hclash := hletter e (mem_of_lookup hl)
    rw [Shape.not_clash hbegins hmark] at hclash
    cases hclash

/-- The entry of an instruction is found for every opcode that stands for it. -/
theorem lookup_of_word (h : i.word = lowWord a) : lookup a = table[i.ctorIdx]? := by
  obtain ⟨e, he, hm, -⟩ := entry_of_instruction i
  rw [h] at hm
  rw [he]
  exact lookup_of_accepted (List.mem_of_getElem? he) hm

theorem disassemble_eq_iff_shown (ha : decode? a = some i) (hb : decode? b = some j) :
    disassemble a = disassemble b ↔ i.shown = j.shown := by
  have hentry : i.shown = j.shown → lookup a = lookup b := by
    intro h
    rw [lookup_of_word (word_of_decode ha), lookup_of_word (word_of_decode hb), ← ctorIdx_shown i,
      h, ctorIdx_shown]
  obtain ⟨e, hla, rfl⟩ := Option.map_eq_some_iff.mp ha
  obtain ⟨e', hlb, rfl⟩ := Option.map_eq_some_iff.mp hb
  have he := mem_of_lookup hla
  rw [disassemble_of_lookup hla, disassemble_of_lookup hlb]
  constructor
  · intro h
    obtain rfl := entry_of_mnemonic he (mem_of_lookup hlb) h
    have hchars := congrArg String.toList h
    rw [Entry.toList_mnemonic, Entry.toList_mnemonic] at hchars
    have hfill := Piece.fill_of_chars (template_cut e he) hchars
    exact (agrees_iff_shown e he _ _).mp fun p hp => Piece.agrees_iff_fill.mpr (hfill p hp)
  · intro h
    obtain rfl : e = e' := Option.some.inj (hla.symm.trans ((hentry h).trans hlb))
    exact Entry.mnemonic_congr ((agrees_iff_shown e he _ _).mpr h)

/-- Opcodes with one text stand for one word, or for the same shift of the same register. -/
theorem disassemble_eq_iff (ha : disassemble a ≠ "???") (hb : disassemble b ≠ "???") :
    disassemble a = disassemble b ↔ lowWord a = lowWord b ∨ ∃ x y y' : Nibble,
      (lowWord a = nibbles 8 x y 6 ∧ lowWord b = nibbles 8 x y' 6) ∨
        (lowWord a = nibbles 8 x y 0xE ∧ lowWord b = nibbles 8 x y' 0xE) := by
  have hdecode {c : Int} (h : disassemble c ≠ "???") : ∃ i, decode? c = some i := by
    rw [Ne, disassemble_eq_unknown_iff, ← decode_eq_none_iff] at h
    exact Option.ne_none_iff_exists'.mp h
  obtain ⟨i, hi⟩ := hdecode ha
  obtain ⟨j, hj⟩ := hdecode hb
  have hword {k : Instruction} : i.word = k.word ↔ i = k := ⟨word_injective, congrArg word⟩
  have hword' {k : Instruction} : j.word = k.word ↔ j = k := ⟨word_injective, congrArg word⟩
  rw [disassemble_eq_iff_shown hi hj, shown_eq_iff, ← word_of_decode hi, ← word_of_decode hj, hword]
  apply or_congr Iff.rfl
  refine exists_congr fun x => exists_congr fun y => exists_congr fun y' => ?_
  rw [← hword (k := .shiftRight x y), ← hword' (k := .shiftRight x y'),
    ← hword (k := .shiftLeft x y), ← hword' (k := .shiftLeft x y')]
  rfl

end Instruction

end Chip8
