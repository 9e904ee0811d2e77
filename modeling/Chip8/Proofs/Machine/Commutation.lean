import Chip8.Proofs.Machine.Lockstep

/-!
# Operations that commute

A tick, or an operation on the keypad, may come just before a step or just after it. Unless the
instruction works on what the operation changes, the order cannot be told: not from the report of
the step, not from the machine that is left, and not from a fault either.
-/
namespace Chip8

theorem Registers.offStack_tickTimers : OffStack tickTimers where
  sp _ := rfl
  pc _ := rfl
  stack _ := rfl
  comm _ _ _ := rfl

namespace Machine

variable {i : Instruction}

theorem unseen_tick : Unseen fun m n => n = m.tick where
  memory h := congrArg (·.memory) h
  pc h := congrArg (·.registers.pc) h
  awaitingKey h := congrArg (·.awaitingKey) h
  begun h := congrArg Machine.begun h
  counted h := congrArg Machine.counted h

theorem execute_tick (m : Machine)
    (hi : ∀ x, i ≠ .readDelay x ∧ i ≠ .setDelay x ∧ i ≠ .setSound x) :
    Matched (fun m n => n = m.tick) (fun m n => n = m.tick) (m.execute i) (m.tick.execute i) := by
  refine matched_of_clear rfl rfl fun ho ho' => ?_
  cases i with
  | readDelay x => exact absurd rfl (hi x).1
  | setDelay x => exact absurd rfl (hi x).2.1
  | setSound x => exact absurd rfl (hi x).2.2
  | call a =>
    apply matched_call (Registers.offStack_tickTimers.push m.registers m.registers.pc)
    · rintro r - rfl
      rfl
    · rintro r - rfl
      rfl
  | ret =>
    apply matched_ret (Registers.offStack_tickTimers.pop m.registers)
    · rintro r - rfl
      rfl
    · rintro r - address rfl
      rfl
  | draw | decimal | saveBlock | loadBlock => exact matched_block rfl ho ho' rfl
  | awaitKey x => exact matched_awaitKey rfl rfl fun _ => rfl
  | skipEqByte | skipNeByte | skipEq | skipNe | skipDown | skipUp => exact matched_skipIf fun _ => rfl
  | _ => exact .ok () rfl

theorem unseen_keyed (op : KeyOp) : Unseen fun m n => n = m.keyed op where
  memory h := congrArg (·.memory) h
  pc h := congrArg (·.registers.pc) h
  awaitingKey h := congrArg (·.awaitingKey) h
  begun h := congrArg Machine.begun h
  counted h := congrArg Machine.counted h

theorem execute_keyed (m : Machine) (op : KeyOp)
    (hi : ∀ x, i ≠ .skipDown x ∧ i ≠ .skipUp x ∧ i ≠ .awaitKey x) :
    Matched (fun m n => n = m.keyed op) (fun m n => n = m.keyed op) (m.execute i)
      ((m.keyed op).execute i) := by
  refine matched_of_clear rfl rfl fun ho ho' => ?_
  cases i with
  | skipDown x => exact absurd rfl (hi x).1
  | skipUp x => exact absurd rfl (hi x).2.1
  | awaitKey x => exact absurd rfl (hi x).2.2
  | call a => exact matched_call_of_eq rfl (fun _ => rfl) fun _ => rfl
  | ret => exact matched_ret_of_eq rfl (fun _ => rfl) fun _ _ => rfl
  | draw | decimal | saveBlock | loadBlock => exact matched_block rfl ho ho' rfl
  | skipEqByte | skipNeByte | skipEq | skipNe => exact matched_skipIf fun _ => rfl
  | _ => exact .ok () rfl

theorem ne_of_word_not_mem {j : Instruction} {words : List Nat} (h : i.word ∉ words)
    (hj : j.word ∈ words) : i ≠ j := by
  rintro rfl
  exact h hj

/-- A tick and a step may change places unless the word at the program counter is `Fx07`, `Fx15` or
`Fx18`, and an operation on the keypad and a step unless it is `Ex9E`, `ExA1` or `Fx0A`. Nothing is
asked of the machine. -/
theorem host_operations_commute (m : Machine) :
    ((∀ w, m.memory.fetch m.registers.pc = .ok w → ∀ x : Nibble,
        w ∉ [Instruction.nibbles 0xF x 0x0 0x7, Instruction.nibbles 0xF x 0x1 0x5,
          Instruction.nibbles 0xF x 0x1 0x8]) →
      m.tick.step.report = m.step.report ∧ m.tick.step.machine = m.step.machine.tick) ∧
    ∀ op : KeyOp,
      (∀ w, m.memory.fetch m.registers.pc = .ok w → ∀ x : Nibble,
        w ∉ [Instruction.nibbles 0xE x 0x9 0xE, Instruction.nibbles 0xE x 0xA 0x1,
          Instruction.nibbles 0xF x 0x0 0xA]) →
      (m.keyed op).step.report = m.step.report ∧
        (m.keyed op).step.machine = m.step.machine.keyed op := by
  constructor
  · intro hw
    refine unseen_tick.step rfl fun i hi => execute_tick m.begun fun x => ?_
    have hx := hw i.word hi x
    refine ⟨ne_of_word_not_mem hx ?_, ne_of_word_not_mem hx ?_, ne_of_word_not_mem hx ?_⟩
    · simp [Instruction.word]
    · simp [Instruction.word]
    · simp [Instruction.word]
  · intro op hw
    refine (unseen_keyed op).step rfl fun i hi => execute_keyed m.begun op fun x => ?_
    have hx := hw i.word hi x
    refine ⟨ne_of_word_not_mem hx ?_, ne_of_word_not_mem hx ?_, ne_of_word_not_mem hx ?_⟩
    · simp [Instruction.word]
    · simp [Instruction.word]
    · simp [Instruction.word]

/-- A sprite that runs over the end of the store, begun just before or just after the delay timer
runs out or a key is pressed. -/
theorem host_operations_commute_on_fault :
    let m : Machine := { fresh false 0 with
      memory := Memory.fresh.put 0x200 [0xD0, 0x15]
      registers := { Registers.initial with i := 0xFFE, delay := 1, sound := 3 } }
    m.obstacle? (.draw 0 1 5) = some (.memory .data 4096) ∧
      (m.tick.step.report = m.step.report ∧ m.tick.step.machine = m.step.machine.tick) ∧
      (m.keyed (.press 21)).step.report = m.step.report ∧
      (m.keyed (.press 21)).step.machine = m.step.machine.keyed (.press 21) := by
  intro m
  have hword : ∀ w, m.memory.fetch m.registers.pc = .ok w → w = 0xD015 := by
    intro w hw
    rw [(Memory.fetch_eq_ok hw).2]
    decide +kernel
  obtain ⟨htick, hkeyed⟩ := host_operations_commute m
  refine ⟨by decide +kernel, htick fun w hw => ?_, hkeyed (.press 21) fun w hw => ?_⟩
  · rw [hword w hw]
    decide
  · rw [hword w hw]
    decide

end Machine

end Chip8
