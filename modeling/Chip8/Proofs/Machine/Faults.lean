import Chip8.Proofs.Machine.Course

/-!
# When a step faults

The fault of a step can be told from the registers and the word at the program counter alone. The
conditions stand in the order in which a step looks at them: a word outside the store is never
decoded, and an instruction that is none is never carried out.
-/
namespace Chip8

namespace Instruction

def blockLengthOfWord? (w : Nat) : Option Nat :=
  if w / 4096 = 0xD then some (w % 16)
  else if w / 4096 = 0xF ∧ w % 256 = 0x33 then some 3
  else if w / 4096 = 0xF ∧ (w % 256 = 0x55 ∨ w % 256 = 0x65) then some (w / 256 % 16 + 1)
  else none

variable {i : Instruction}

theorem call_of_word (h : i.word / 4096 = 2) : ∃ a, i = .call a := by
  refine ⟨Fin.ofNat 4096 i.word, word_injective ?_⟩
  change i.word = 0x2000 + i.word % 4096
  omega

theorem ret_of_word (h : i.word = 0x00EE) : i = .ret := word_injective h

theorem draw_of_word (h : i.word / 4096 = 0xD) : ∃ x y n, i = .draw x y n := by
  refine ⟨Fin.ofNat 16 (i.word / 256), Fin.ofNat 16 (i.word / 16), Fin.ofNat 16 i.word,
    word_injective ?_⟩
  change i.word = nibbles 0xD (i.word / 256 % 16) (i.word / 16 % 16) (i.word % 16)
  unfold nibbles
  omega

/-- Forms with one operand are known by their other digits. -/
theorem eq_of_digits {f : Nibble → Instruction} {a c d : Nat}
    (hf : ∀ x, (f x).word = nibbles a x c d) (ha : i.word / 4096 = a)
    (hcd : i.word % 256 = 16 * c + d) : ∃ x, i = f x := by
  refine ⟨Fin.ofNat 16 (i.word / 256), word_injective ?_⟩
  rw [hf, Fin.val_ofNat]
  unfold nibbles
  omega

theorem blockLengthOfWord?_word (i : Instruction) :
    blockLengthOfWord? i.word = i.blockLength? := by
  unfold blockLengthOfWord?
  by_cases hd : i.word / 4096 = 0xD
  · obtain ⟨x, y, n, rfl⟩ := draw_of_word hd
    rw [if_pos hd]
    simp only [word, nibbles, blockLength?, Option.some.injEq]
    omega
  by_cases hb : i.word / 4096 = 0xF ∧ i.word % 256 = 0x33
  · obtain ⟨x, rfl⟩ := eq_of_digits (f := .decimal) (fun _ => rfl) hb.1 hb.2
    rw [if_neg hd, if_pos hb]
    rfl
  rw [if_neg hd, if_neg hb]
  split
  case isTrue h =>
    obtain ⟨hf, hs | hl⟩ := h
    · obtain ⟨x, rfl⟩ := eq_of_digits (f := .saveBlock) (fun _ => rfl) hf hs
      simp only [word, nibbles, blockLength?, Option.some.injEq]
      omega
    · obtain ⟨x, rfl⟩ := eq_of_digits (f := .loadBlock) (fun _ => rfl) hf hl
      simp only [word, nibbles, blockLength?, Option.some.injEq]
      omega
  case isFalse h =>
    cases i with
    | draw x y n => simp only [word, nibbles] at hd; omega
    | decimal x => simp only [word, nibbles] at hb; omega
    | saveBlock x | loadBlock x => simp only [word, nibbles] at h; omega
    | _ => rfl

end Instruction

/-- Faults that are found before an instruction is begun. -/
def Fault.early : Fault → Bool
  | .memory .fetch _ | .unknownInstruction _ _ => true
  | _ => false

namespace Machine

def word (m : Machine) : Nat :=
  256 * (m.memory.byte m.registers.pc.toNat).toNat +
    (m.memory.byte (m.registers.pc.toNat + 1)).toNat

def nextFault? (m : Machine) : Option Fault :=
  let pc := m.registers.pc
  let i := m.registers.i
  if 4094 < pc then some (.memory .fetch (if 4096 ≤ pc then pc else 4096))
  else if Instruction.lookup m.word = none then some (.unknownInstruction m.word pc)
  else if m.word / 4096 = 2 ∧ m.registers.sp = 16 then some (.stackOverflow pc)
  else if m.word = 0x00EE ∧ m.registers.sp = 0 then some (.stackUnderflow pc)
  else (Instruction.blockLengthOfWord? m.word).bind fun n =>
    if 4096 < i + n then some (.memory .data (if 4096 ≤ i then i else 4096)) else none

variable {m : Machine} {w : Nat} {i : Instruction} {fault : Fault}

theorem WellFormed.fetch_error (h : m.WellFormed)
    (hw : m.memory.fetch m.registers.pc = .error fault) : m.nextFault? = some fault := by
  have hpc := h.pc_nonneg
  have hf := Memory.firstOutside?_of_nonneg hpc 2
  cases ho : Memory.firstOutside? m.registers.pc 2 with
  | none => rw [Memory.fetch_of_inside _ ho] at hw; cases hw
  | some outside =>
    rw [Memory.fetch_of_outside _ ho] at hw
    rw [ho] at hf
    obtain ⟨hlt, hat⟩ := Option.ite_none_right_eq_some.mp hf.symm
    simp only [nextFault?]
    rw [if_pos (by omega), ← Except.error.inj hw, ← Option.some.inj hat]

theorem fetch_ok (hw : m.memory.fetch m.registers.pc = .ok w) :
    m.registers.pc ≤ 4094 ∧ m.word = w := by
  obtain ⟨⟨_, hle⟩, hword⟩ := Memory.fetch_eq_ok hw
  exact ⟨hle, hword.symm⟩

theorem nextFault_of_undecoded (hw : m.memory.fetch m.registers.pc = .ok w)
    (hi : Instruction.decode? w = none) :
    m.nextFault? = some (.unknownInstruction w m.registers.pc) := by
  obtain ⟨hle, rfl⟩ := fetch_ok hw
  simp only [nextFault?]
  rw [if_neg (by omega), if_pos ((Instruction.decode_eq_none_iff _).mp hi)]

/-- A decoded word leaves only the obstacle of its instruction. -/
theorem WellFormed.nextFault_of_decoded (h : m.WellFormed)
    (hw : m.memory.fetch m.registers.pc = .ok w) (hi : Instruction.decode? w = some i) :
    m.nextFault? = m.obstacle? i := by
  have hword := word_of_fetched hw hi
  obtain ⟨hle, rfl⟩ := fetch_ok hw
  have hknown : Instruction.lookup m.word ≠ none := by
    rw [Ne, ← Instruction.decode_eq_none_iff, hi]
    exact Option.some_ne_none i
  have hsp := h.sp_le
  simp only [nextFault?]
  rw [if_neg (by omega), if_neg hknown, ← hword, Instruction.blockLengthOfWord?_word]
  cases hb : i.blockLength? with
  | some n =>
    have hcall : ¬ (i.word / 4096 = 2 ∧ m.registers.sp = 16) := by
      rintro ⟨hc, _⟩
      obtain ⟨a, rfl⟩ := Instruction.call_of_word hc
      cases hb
    have hret : ¬ (i.word = 0x00EE ∧ m.registers.sp = 0) := by
      rintro ⟨hr, _⟩
      cases Instruction.ret_of_word hr
      cases hb
    rw [if_neg hcall, if_neg hret, obstacle_of_block hb,
      Memory.firstOutside?_of_nonneg h.i_word.1]
    simp only [Option.bind_some]
    split <;> rfl
  | none =>
    by_cases hc : i.word / 4096 = 2
    · obtain ⟨a, rfl⟩ := Instruction.call_of_word hc
      have hret : (Instruction.call a).word ≠ 0x00EE := by omega
      have hfull : 16 ≤ m.registers.sp ↔ m.registers.sp = 16 := by omega
      simp only [hc, hret, obstacle_call, hfull, true_and, false_and, if_false, Option.bind_none]
    · by_cases hr : i.word = 0x00EE
      · cases Instruction.ret_of_word hr
        rw [if_neg (fun both => hc both.1), obstacle_ret]
        simp only [hr, true_and, Option.bind_none]
      · simp only [hc, hr, false_and, if_false, Option.bind_none]
        cases i with
        | call a => simp only [Instruction.word] at hc; omega
        | ret => exact absurd rfl hr
        | draw | decimal | saveBlock | loadBlock => cases hb
        | _ => rfl

theorem WellFormed.course (h : m.WellFormed) : Course m m.step :=
  step_course h.sp_nonneg h.sp_le

theorem early_of_fetch (hw : m.memory.fetch m.registers.pc = .error fault) :
    fault.early = true := by
  cases ho : Memory.firstOutside? m.registers.pc 2 with
  | none => rw [Memory.fetch_of_inside _ ho] at hw; cases hw
  | some outside => rw [Memory.fetch_of_outside _ ho] at hw; cases hw; rfl

theorem not_early_of_obstacle (ho : m.obstacle? i = some fault) : fault.early = false := by
  rcases fault_of_obstacle ho with ⟨outside, rfl⟩ | rfl | rfl <;> rfl

theorem WellFormed.step_fault_iff (h : m.WellFormed) (fault : Fault) :
    m.step.report.outcome = .error fault ↔ m.nextFault? = some fault := by
  have hc := h.course
  generalize m.step = s at hc
  cases hc with
  | unfetched hw => rw [h.fetch_error hw]; simp
  | undecoded hw hi => rw [nextFault_of_undecoded hw hi]; simp
  | obstructed hw hi ho => rw [h.nextFault_of_decoded hw hi, ho]; simp
  | @completed w i m' hw hi hx =>
    have ho : m.obstacle? i = none := obstacle_eq_none_of_ok (m := m.begun) hx
    rw [h.nextFault_of_decoded hw hi, ho]
    simp

/-- Only the flag of a waiting machine can tell that an instruction was begun in vain. -/
theorem WellFormed.machine_of_fault (h : m.WellFormed)
    (hf : m.step.report.outcome = .error fault) :
    m.step.machine = if fault.early then m else m.begun := by
  have hc := h.course
  generalize m.step = s at hc hf
  cases hc with
  | unfetched hw => cases hf; rw [early_of_fetch hw]; rfl
  | undecoded hw hi => cases hf; rfl
  | obstructed hw hi ho => cases hf; rw [not_early_of_obstacle ho]; rfl
  | completed hw hi hx => cases hf

/-- The faults of a step are exactly the predicted ones, and only the flag can tell of them. -/
theorem step_faults_as_predicted (h : m.WellFormed) (fault : Fault) :
    (m.step.report.outcome = .error fault ↔ m.nextFault? = some fault) ∧
      (m.step.report.outcome = .error fault →
        m.step.machine = if fault.early then m else { m with awaitingKey := false }) :=
  ⟨h.step_fault_iff fault, h.machine_of_fault⟩

theorem step_faults_as_predicted_while_waiting :
    let m : Machine := { fresh false 0 with
      memory := Memory.fresh.put 0x200 [0x00, 0xEE]
      awaitingKey := true }
    m.WellFormed ∧ m.step.report.outcome = .error (.stackUnderflow 0x200) ∧
      m.step.machine = { m with awaitingKey := false } := by
  intro m
  have h : m.WellFormed := .of_initial rfl
  obtain ⟨hiff, hleft⟩ := step_faults_as_predicted h (.stackUnderflow 0x200)
  have hf := hiff.mpr (by decide +kernel)
  exact ⟨h, hf, hleft hf⟩

end Machine

end Chip8
