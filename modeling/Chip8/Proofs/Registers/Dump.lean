import Chip8.Registers
import Chip8.Proofs.Text
import Chip8.Proofs.Vector

/-!
# What a dump tells

A dump has one line for each data register and one each for the program counter, the index and the
stack pointer. The number behind the mark of a line is the integer that the register holds, of any
size and sign. So a dump tells these nineteen integers, and it tells nothing else.
-/
namespace Chip8.Registers

structure Entry where
  title : String
  width : Nat
  value : Int

namespace Entry

variable {e : Entry}

def line (e : Entry) : String := e.title ++ "0x" ++ Hex.text e.width e.value

/-- A title in which neither a mark nor the end of a line can be taken for another. -/
structure Plain (e : Entry) : Prop where
  unmarked : 'x' ∉ e.title.toList
  unbroken : '\n' ∉ e.title.toList

theorem toList_line (e : Entry) :
    e.line.toList = e.title.toList ++ '0' :: 'x' :: (Hex.text e.width e.value).toList := by
  simp [line]

theorem Plain.marked (h : e.Plain) : Hex.marked? e.line.toList = some e.value := by
  rw [toList_line]
  exact Hex.marked?_append h.unmarked e.width e.value

theorem Plain.line_unbroken (h : e.Plain) : '\n' ∉ e.line.toList := by
  have hvalue : '\n' ∉ (Hex.text e.width e.value).toList := Hex.not_mem_text (by decide) (by decide)
  rw [toList_line]
  simp [h.unbroken, hvalue]

end Entry

variable {r s : Registers}

def entries (r : Registers) : List Entry :=
  (r.v.toList.zipIdx.map fun (value, x) => ⟨"V" ++ Hex.text 1 x ++ ": ", 2, value⟩)
  ++ [⟨"PC: ", 4, r.pc⟩, ⟨"I : ", 4, r.i⟩, ⟨"SP: ", 2, r.sp⟩]

theorem dumpLines_eq (r : Registers) : r.dumpLines = r.entries.map Entry.line := by
  have hmark : ": 0x" = ": " ++ "0x" := by decide
  simp [dumpLines, entries, Entry.line, hmark, String.append_assoc]

theorem entries_plain (r : Registers) : ∀ e ∈ r.entries, e.Plain := by
  have hnumber (x : Nat) (c : Char) (hsign : c ≠ '-') (hdigit : Hex.value? c = none) :
      c ∉ (Hex.text 1 x).toList := Hex.not_mem_text hsign hdigit
  intro e he
  rcases List.mem_append.mp he with he | he
  · obtain ⟨⟨value, x⟩, -, rfl⟩ := List.mem_map.mp he
    constructor
    · simp [hnumber x 'x' (by decide) (by decide)]
    · simp [hnumber x '\n' (by decide) (by decide)]
  · simp only [List.mem_cons, List.not_mem_nil, or_false] at he
    rcases he with rfl | rfl | rfl <;> exact ⟨by simp, by simp⟩

theorem entries_values (r : Registers) :
    r.entries.map Entry.value = r.v.toList ++ [r.pc, r.i, r.sp] := by
  simp [entries, Function.comp_def]

theorem lines_dump (r : Registers) : Text.lines r.dump = r.dumpLines.map String.toList := by
  apply Text.lines_intercalate
  · simp [dumpLines]
  · rw [dumpLines_eq]
    intro line hline
    obtain ⟨e, he, rfl⟩ := List.mem_map.mp hline
    exact (entries_plain r e he).line_unbroken

/-- Read line by line, a dump gives back what the registers hold. -/
theorem read_dump (r : Registers) :
    (Text.lines r.dump).map Hex.marked? = (r.v.toList ++ [r.pc, r.i, r.sp]).map some := by
  rw [lines_dump, dumpLines_eq, ← entries_values]
  simp only [List.map_map]
  apply List.map_congr_left
  intro e he
  exact (entries_plain r e he).marked

theorem dump_eq_iff : r.dump = s.dump ↔ r.v = s.v ∧ r.pc = s.pc ∧ r.i = s.i ∧ r.sp = s.sp := by
  constructor
  · intro h
    have hread := read_dump r
    rw [h, read_dump s] at hread
    have hvalues := (List.map_inj_right fun _ _ => Option.some.inj).mp hread
    obtain ⟨hv, hrest⟩ := List.append_inj hvalues (by simp)
    simp only [List.cons.injEq, and_true] at hrest
    exact ⟨(Vector.toList_inj.mp hv).symm, hrest.1.symm, hrest.2.1.symm, hrest.2.2.symm⟩
  · rintro ⟨hv, hpc, hi, hsp⟩
    simp only [dump, dumpLines, hv, hpc, hi, hsp]

theorem marked_line {k : Nat} {z : Int} (h : (r.v.toList ++ [r.pc, r.i, r.sp])[k]? = some z) :
    ((Text.lines r.dump)[k]?).bind Hex.marked? = some z := by
  have hread : ((Text.lines r.dump).map Hex.marked?)[k]? = some (some z) := by
    rw [read_dump, List.getElem?_map, h]
    rfl
  rw [List.getElem?_map] at hread
  obtain ⟨line, hline, hz⟩ := Option.map_eq_some_iff.mp hread
  rw [hline]
  exact hz

/-- Dumps of registers that hold any integers are equal just when the data registers, the program
counters, the indices and the stack pointers are. A dump has nineteen lines, and each of them can be
read back. -/
theorem dump_faithful (r s : Registers) :
    (r.dump = s.dump ↔ r.v = s.v ∧ r.pc = s.pc ∧ r.i = s.i ∧ r.sp = s.sp) ∧
    let lines := Text.lines r.dump
    lines.length = 19 ∧
    (∀ x : Nibble, (lines[x.val]?).bind Hex.marked? = some (r.v.get x)) ∧
    (lines[16]?).bind Hex.marked? = some r.pc ∧
    (lines[17]?).bind Hex.marked? = some r.i ∧
    (lines[18]?).bind Hex.marked? = some r.sp := by
  refine ⟨dump_eq_iff, ?_, ?_, marked_line ?_, marked_line ?_, marked_line ?_⟩
  · rw [lines_dump]
    simp [dumpLines]
  · intro x
    apply marked_line
    have hlt : x.val < r.v.toList.length := by simp
    rw [List.getElem?_append_left hlt]
    exact getElem?_toList r.v x
  · simp
  · simp
  · simp

end Chip8.Registers
