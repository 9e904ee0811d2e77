import Chip8.Proofs.Instruction.Disassembly
import Chip8.Proofs.Instruction.Grammar
import Chip8.Proofs.Machine.Course

/-!
# From a word to what is done

A step refuses exactly the words that have no form, and it does with a word what its disassembly
says: the one operand that a text leaves out is none that an instruction looks at.
-/
namespace Chip8

/-- Two steps end alike and leave the same machine behind, but for the word at `pc`. -/
structure Step.AlikeBut (pc : Int) (s t : Step) : Prop where
  outcome : t.report.outcome = s.report.outcome
  machine : t.machine = { s.machine with memory := t.machine.memory }
  memory : ∀ a : Nat, t.machine.memory.byte a ≠ s.machine.memory.byte a → pc ≤ a ∧ a ≤ pc + 1

namespace Machine

variable {m : Machine} {w : Nat} {i j : Instruction} {fault : Fault}

section Refusal

/-- An instruction that is carried out is known, even on a stack pointer that names no slot. -/
theorem execute_ne_unknown (m m' : Machine) (i : Instruction) (opcode : Nat) (pc : Int) :
    m.execute i ≠ .error (.unknownInstruction opcode pc) m' := by
  intro hx
  rcases fault_of_execute hx with ⟨ho, -⟩ | ⟨way, position, hfault, -⟩
  · rcases fault_of_obstacle ho with ⟨outside, hfault⟩ | hfault | hfault <;> cases hfault
  · cases hfault

theorem step_unknown_iff (hw : m.memory.fetch m.registers.pc = .ok w) :
    (∃ opcode pc, m.step.report.outcome = .error (.unknownInstruction opcode pc)) ↔
      Instruction.lookup w = none := by
  rw [← Instruction.decode_eq_none_iff]
  constructor
  · rintro ⟨opcode, pc, hout⟩
    have hp := step_passage m
    generalize m.step = s at hp hout
    cases hp with
    | unfetched hf => rw [hw] at hf; cases hf
    | undecoded hf hi =>
      obtain rfl := Except.ok.inj (hw.symm.trans hf)
      exact hi
    | failed _ _ hx =>
      obtain rfl := Except.error.inj hout
      exact absurd hx (execute_ne_unknown _ _ _ _ _)
    | completed => cases hout
  · intro hi
    rw [step_undecoded hw hi]
    exact ⟨w, m.registers.pc, rfl⟩

/-- What is found for an opcode, of whatever sign and size, is settled by its low word and the
grammar. A step on a word refuses it as unknown exactly if it has no text, that is, no form. -/
theorem dispatch_accepts_grammar :
    (∀ opcode : Int, Instruction.ByGrammar opcode) ∧
    ∀ (m : Machine) (w : Nat), m.memory.fetch m.registers.pc = .ok w →
      ((∃ opcode pc, m.step.report.outcome = .error (.unknownInstruction opcode pc)) ↔
        Instruction.disassemble w = "???") ∧
      (Instruction.disassemble w = "???" ↔
        ∀ form ∈ Instruction.forms, ¬ Instruction.Fits form w) := by
  refine ⟨Instruction.byGrammar, ?_⟩
  intro m w hw
  have hforms : Instruction.lookup w = none ↔ _ := Instruction.lookup_eq_none_iff_fits
  rw [Instruction.lowWord_natCast (Memory.fetch_lt hw)] at hforms
  rw [step_unknown_iff hw, Instruction.disassemble_eq_unknown_iff]
  exact ⟨Iff.rfl, hforms⟩

theorem dispatch_accepts_grammar_unknown :
    let m : Machine := { fresh false 0 with memory := Memory.fresh.put 0x200 [0x51, 0x21] }
    (∃ opcode pc, m.step.report.outcome = .error (.unknownInstruction opcode pc)) ∧
      Instruction.disassemble 0x5121 = "???" := by
  intro m
  have hw : m.memory.fetch m.registers.pc = .ok 0x5121 :=
    Memory.fetch_put Memory.fresh (by decide) 0x51 0x21
  obtain ⟨hstop, htext⟩ := dispatch_accepts_grammar.2 m 0x5121 hw
  have hunknown := htext.mpr (by decide)
  exact ⟨hstop.mpr hunknown, hunknown⟩

end Refusal

section Replacement

def withWord (m : Machine) (high low : UInt8) : Machine :=
  { m with memory := m.memory.put m.registers.pc.toNat [high, low] }

variable {high low : UInt8}

theorem mem_word_of_ne {a : Nat} (hpc : 0 ≤ m.registers.pc)
    (h : (m.withWord high low).memory.byte a ≠ m.memory.byte a) :
    m.registers.pc ≤ a ∧ a ≤ m.registers.pc + 1 := by
  by_contra hout
  apply h
  apply Memory.byte_put_of_not_mem
  simp only [List.length_cons, List.length_nil]
  omega

theorem fetch_withWord (hw : m.memory.fetch m.registers.pc = .ok w) (high low : UInt8) :
    (m.withWord high low).memory.fetch m.registers.pc =
      .ok (256 * high.toNat + low.toNat) := by
  obtain ⟨⟨hpc, hle⟩, -⟩ := Memory.fetch_eq_ok hw
  have hin : m.registers.pc.toNat ≤ 4094 := by omega
  have hput := Memory.fetch_put m.memory hin high low
  rwa [Int.toNat_of_nonneg hpc] at hput

/-- A word is replaced by itself. -/
theorem withWord_self (hw : m.memory.fetch m.registers.pc = .ok (256 * high.toNat + low.toNat)) :
    m.withWord high low = m := by
  obtain ⟨⟨hpc, hle⟩, hword⟩ := Memory.fetch_eq_ok hw
  have := low.toNat_lt
  have := (m.memory.byte (m.registers.pc.toNat + 1)).toNat_lt
  have hfirst : high = m.memory.byte m.registers.pc.toNat := UInt8.toNat_inj.mp (by omega)
  have hsecond : low = m.memory.byte (m.registers.pc.toNat + 1) := UInt8.toNat_inj.mp (by omega)
  have hmemory : (m.withWord high low).memory = m.memory := by
    apply Memory.ext_byte
    intro a ha
    by_contra hne
    obtain ⟨hfrom, hto⟩ := mem_word_of_ne hpc hne
    obtain rfl | rfl : a = m.registers.pc.toNat ∨ a = m.registers.pc.toNat + 1 := by omega
    · rw [← hfirst] at hne
      exact hne (Memory.byte_put_of_mem (Nat.le_refl _) (by simp) ha)
    · rw [← hsecond] at hne
      exact hne (Memory.byte_put_of_mem (Nat.le_succ _) (by simp) ha)
  change { m with memory := (m.withWord high low).memory } = m
  rw [hmemory]

/-- Instructions that change registers only, and change them alike, leave alike machines. -/
theorem step_alike (hw : m.memory.fetch m.registers.pc = .ok i.word)
    (hj : j.word = 256 * high.toNat + low.toNat) (r : Registers)
    (hx : m.begun.execute i = .ok () { m.begun with registers := r })
    (hx' : (m.withWord high low).begun.execute j =
      .ok () { (m.withWord high low).begun with registers := r }) :
    m.step.AlikeBut m.registers.pc (m.withWord high low).step := by
  have hpc := (Memory.fetch_eq_ok hw).1.1
  have hw' := fetch_withWord hw high low
  rw [← hj] at hw'
  rw [step_completed hw (Instruction.decode_word i) hx,
    step_completed hw' (Instruction.decode_word j) hx']
  exact ⟨rfl, rfl, fun a => mem_word_of_ne hpc⟩

theorem step_of_same_text (hw : m.memory.fetch m.registers.pc = .ok w)
    (hknown : Instruction.disassemble w ≠ "???")
    (htext : Instruction.disassemble (256 * high.toNat + low.toNat : Nat) =
      Instruction.disassemble w) :
    m.step.AlikeBut m.registers.pc (m.withWord high low).step := by
  have hlt := Memory.fetch_lt hw
  have hlt' := Memory.fetch_lt (fetch_withWord hw high low)
  have hsame := (Instruction.disassemble_eq_iff (htext.trans_ne hknown) hknown).mp htext
  rw [Instruction.lowWord_natCast hlt, Instruction.lowWord_natCast hlt'] at hsame
  rcases hsame with rfl | ⟨x, y, y', ⟨hj, rfl⟩ | ⟨hj, rfl⟩⟩
  · rw [withWord_self hw]
    exact ⟨rfl, rfl, fun _ h => absurd rfl h⟩
  · exact step_alike (i := .shiftRight x y') (j := .shiftRight x y) hw hj.symm _ rfl rfl
  · exact step_alike (i := .shiftLeft x y') (j := .shiftLeft x y) hw hj.symm _ rfl rfl

/-- Opcodes with one text have one low word, but for the second operand of a shift; and that operand
is not looked at, so words with one text can stand for each other wherever they are executed. -/
theorem disassembly_faithful :
    (∀ a b : Int, Instruction.disassemble a ≠ "???" → Instruction.disassemble b ≠ "???" →
      (Instruction.disassemble a = Instruction.disassemble b ↔
        a % 65536 = b % 65536 ∨ ∃ x y y' : Nibble,
          (lowWord a = Instruction.nibbles 8 x y 6 ∧
            lowWord b = Instruction.nibbles 8 x y' 6) ∨
          (lowWord a = Instruction.nibbles 8 x y 0xE ∧
            lowWord b = Instruction.nibbles 8 x y' 0xE))) ∧
    ∀ (m : Machine) (w : Nat) (high low : UInt8), m.memory.fetch m.registers.pc = .ok w →
      Instruction.disassemble w ≠ "???" →
      Instruction.disassemble (256 * high.toNat + low.toNat : Nat) = Instruction.disassemble w →
      (m.withWord high low).memory.fetch m.registers.pc = .ok (256 * high.toNat + low.toNat) ∧
        m.step.AlikeBut m.registers.pc (m.withWord high low).step := by
  constructor
  · intro a b ha hb
    have hlow : a % 65536 = b % 65536 ↔ lowWord a = lowWord b := by
      unfold lowWord
      omega
    rw [hlow]
    exact Instruction.disassemble_eq_iff ha hb
  · intro m w high low hw hknown htext
    exact ⟨fetch_withWord hw high low, step_of_same_text hw hknown htext⟩

/-- A shift is replaced by one that names another second register. -/
theorem disassembly_faithful_shift :
    let m : Machine := { fresh false 0 with memory := Memory.fresh.put 0x200 [0x8A, 0x16] }
    Instruction.disassemble 0x8A16 = Instruction.disassemble 0x8AB6 ∧
      m.step.AlikeBut 0x200 (m.withWord 0x8A 0xB6).step := by
  intro m
  have hw : m.memory.fetch m.registers.pc = .ok 0x8A16 :=
    Memory.fetch_put Memory.fresh (by decide) 0x8A 0x16
  obtain ⟨htexts, hsteps⟩ := disassembly_faithful
  have hknown : Instruction.disassemble 0x8A16 ≠ "???" := by decide +kernel
  have hother : Instruction.disassemble 0x8AB6 ≠ "???" := by decide +kernel
  have htext := (htexts 0x8A16 0x8AB6 hknown hother).mpr
    (Or.inr ⟨0xA, 1, 0xB, Or.inl ⟨by decide, by decide⟩⟩)
  exact ⟨htext, (hsteps m 0x8A16 0x8A 0xB6 hw hknown htext.symm).2⟩

end Replacement

end Machine

end Chip8
