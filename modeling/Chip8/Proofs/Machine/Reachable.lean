import Chip8.Machine.History
import Chip8.Proofs.Display.Parity
import Chip8.Proofs.Machine.Range

/-!
# Reachable machines

A machine is reachable when it is what a history leaves of a fresh machine. Loads that are refused
and steps that fault are part of the history. What every operation keeps, every history keeps.
-/
namespace Chip8

/-- Cells are written directly from outside a program only. -/
def Operation.writesCell : Operation → Bool
  | .display op => op.writes
  | _ => false

namespace Machine

variable {m m' : Machine} {i : Instruction} {op : Operation}

theorem load_of_fits (m : Machine) {program : List UInt8} (h : program.length ≤ 3584) :
    m.load program = .ok () { m with memory := m.memory.put 0x200 program } :=
  inMemory_of_ok (Memory.load_of_fits m.memory h)

theorem perform_of_oversized (m : Machine) {program : List UInt8} (h : 3584 < program.length) :
    m.perform (.load program) = m := by
  have hload : m.load program = .error (.tooLarge program.length 3584 none) m :=
    inMemory_of_error (Memory.load_of_oversized m.memory h)
  rw [perform, hload]
  rfl

/-- A refused program changes nothing, and an accepted one only the memory. -/
theorem load_preserves {P : Machine → Prop} {program : List UInt8} (h : P m)
    (hl : program.length ≤ 3584 → P { m with memory := m.memory.put 0x200 program }) :
    P (m.perform (.load program)) := by
  by_cases hfit : program.length ≤ 3584
  · rw [perform, m.load_of_fits hfit]
    exact hl hfit
  · rw [m.perform_of_oversized (by omega)]
    exact h

theorem replay_append (m : Machine) (before after : List Operation) :
    m.replay (before ++ after) = (m.replay before).replay after :=
  List.foldl_append

theorem replay_preserves {P : Machine → Prop} {ops : List Operation}
    (hop : ∀ op ∈ ops, ∀ m, P m → P (m.perform op)) (h : P m) : P (m.replay ops) := by
  induction ops generalizing m with
  | nil => exact h
  | cons op rest ih =>
    obtain ⟨hfirst, hrest⟩ := List.forall_mem_cons.mp hop
    exact ih hrest (hfirst m h)

theorem InRange.perform (h : m.InRange) (op : Operation) : (m.perform op).InRange := by
  cases op with
  | load program => exact load_preserves h fun _ => h.of_registers rfl
  | step => exact h.step
  | tick => exact h.tick
  | key => exact h.of_registers rfl
  | display => exact h.of_registers rfl
  | render => exact h.of_registers rfl

theorem reachable_inRange (legacy : Bool) (seed : Int) (ops : List Operation) :
    ((fresh legacy seed).replay ops).InRange :=
  replay_preserves (fun op _ _ h => h.perform op) (.of_initial rfl)

theorem Effect.binary (he : Effect m i m') (h : m.display.Binary) : m'.display.Binary := by
  cases he with
  | cleared => exact Display.blank_binary
  | drawn rows => exact h.draw _ _ rows
  | registers | decimal | saved | random | keyTaken | keyMissing => exact h

theorem step_preserves_binary (h : m.InRange) (hb : m.display.Binary) :
    m.step.machine.display.Binary := by
  refine step_preserves (P := fun m => m.display.Binary) h.sp_nonneg h.sp_le hb hb ?_
  intro w i m' hw hi hx
  exact (effect_of_execute hx).binary hb

theorem perform_preserves_binary (h : m.InRange) (hb : m.display.Binary)
    (hop : op.writesCell = false) : (m.perform op).display.Binary := by
  cases op with
  | load program => exact load_preserves (P := fun m => m.display.Binary) hb fun _ => hb
  | step => exact step_preserves_binary h hb
  | tick => exact hb
  | key => exact hb
  | display op => exact hb.apply hop
  | render => exact ⟨hb.cell⟩

/-- A sprite is drawn by a step, and steps are understood in range only. -/
theorem reachable_binary (legacy : Bool) (seed : Int) {ops : List Operation}
    (hops : ∀ op ∈ ops, op.writesCell = false) :
    ((fresh legacy seed).replay ops).display.Binary := by
  refine (replay_preserves (P := fun m => m.InRange ∧ m.display.Binary) ?_
    ⟨.of_initial rfl, Display.blank_binary⟩).2
  intro op hop m h
  exact ⟨h.1.perform op, perform_preserves_binary h.1 h.2 (hops op hop)⟩

structure Bounded (m : Machine) : Prop where
  memory_size : m.memory.bytes.toList.length = 4096
  v_count : m.registers.v.toList.length = 16
  v_byte : ∀ z ∈ m.registers.v.toList, 0 ≤ z ∧ z ≤ 255
  i_word : 0 ≤ m.registers.i ∧ m.registers.i ≤ 0xFFFF
  pc_range : 0 ≤ m.registers.pc ∧ m.registers.pc ≤ 0x10FE
  sp_range : 0 ≤ m.registers.sp ∧ m.registers.sp ≤ 16
  stack_depth : m.registers.stack.toList.length = 16
  stack_entry : ∀ z ∈ m.registers.stack.toList, 0 ≤ z ∧ z ≤ 0xFFE
  delay_byte : 0 ≤ m.registers.delay ∧ m.registers.delay ≤ 255
  sound_byte : 0 ≤ m.registers.sound ∧ m.registers.sound ≤ 255
  cell_count : m.display.cells.toList.length = 2048
  cell_binary : ∀ b ∈ m.display.cells.toList, b = 0x00 ∨ b = 0xFF
  key_count : m.keypad.down.toList.length = 16
  latch_key : ∀ k, m.keypad.latched = some k → (k : Nat) ≤ 15

/-- The bounds hold whatever has happened to the machine. Writing a cell is the one operation that
is excluded, since it takes any byte. -/
theorem reachable_bounded (legacy : Bool) (seed : Int) (ops : List Operation)
    (hops : ∀ op ∈ ops, op.writesCell = false) :
    ((fresh legacy seed).replay ops).Bounded := by
  have hr := reachable_inRange legacy seed ops
  have hb := reachable_binary legacy seed hops
  exact {
    memory_size := Vector.length_toList
    v_count := Vector.length_toList
    v_byte := forall_mem_toList hr.v_byte
    i_word := hr.i_word
    pc_range := ⟨hr.pc_nonneg, hr.pc_le⟩
    sp_range := ⟨hr.sp_nonneg, hr.sp_le⟩
    stack_depth := Vector.length_toList
    stack_entry := forall_mem_toList hr.stack_entry
    delay_byte := hr.delay_byte
    sound_byte := hr.sound_byte
    cell_count := Vector.length_toList
    cell_binary := forall_mem_toList hb.cell
    key_count := Vector.length_toList
    latch_key := fun k _ => by omega }

theorem reachable_bounded_after_tap :
    let ops : List Operation := [.load [0xF0, 0x0A], .step, .key (.press 31), .key (.release 31),
      .step, .tick, .step, .render]
    (∀ op ∈ ops, op.writesCell = false) ∧ ((fresh true 7).replay ops).Bounded :=
  ⟨by decide, reachable_bounded true 7 _ (by decide)⟩

end Machine

end Chip8
