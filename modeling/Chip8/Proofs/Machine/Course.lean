import Chip8.Proofs.Instruction.Decode
import Chip8.Proofs.Machine.Execution
import Chip8.Proofs.Vector

/-!
# The course of a step

A step ends at the fetch, at the decoding, at an obstacle of its instruction, or with the effect of
its instruction. Each way fixes the whole report and the whole machine it leaves behind.
-/
namespace Chip8.Machine

/-- What callers promise of a machine. Nothing is asked of the stack entries, the timers, the
screen, the latch or the flags. -/
structure WellFormed (m : Machine) : Prop where
  v_byte : ∀ x, 0 ≤ m.v x ∧ m.v x ≤ 255
  i_word : 0 ≤ m.registers.i ∧ m.registers.i ≤ 0xFFFF
  pc_nonneg : 0 ≤ m.registers.pc
  sp_nonneg : 0 ≤ m.registers.sp
  sp_le : m.registers.sp ≤ 16

theorem WellFormed.of_initial {m : Machine} (h : m.registers = Registers.initial) :
    m.WellFormed := by
  constructor <;> simp [v, h, Registers.initial]

def begun (m : Machine) : Machine := { m with awaitingKey := false }

def counted (m : Machine) : Machine := { m with cycles := m.cycles + 1 }

def progress (m : Machine) : Progress := if m.awaitingKey then .awaitingKey else .executed

/-- A stalled instruction is announced once, with its first step. -/
def opening (m : Machine) (w : Nat) : List Note :=
  if m.awaitingKey then [] else [.begins m.registers.pc w]

def stalling (m m' : Machine) : List Note :=
  if m'.awaitingKey ∧ ¬ m.awaitingKey then [.waits m.registers.pc] else []

inductive Passage (m : Machine) : Step → Prop where
  | unfetched {fault} (hw : m.memory.fetch m.registers.pc = .error fault) :
      Passage m ⟨⟨.error fault, []⟩, m⟩
  | undecoded {w} (hw : m.memory.fetch m.registers.pc = .ok w)
      (hi : Instruction.decode? w = none) :
      Passage m ⟨⟨.error (.unknownInstruction w m.registers.pc), []⟩, m⟩
  | failed {w i fault left} (hw : m.memory.fetch m.registers.pc = .ok w)
      (hi : Instruction.decode? w = some i) (hx : m.begun.execute i = .error fault left) :
      Passage m ⟨⟨.error fault, m.opening w⟩, left⟩
  | completed {w i m'} (hw : m.memory.fetch m.registers.pc = .ok w)
      (hi : Instruction.decode? w = some i) (hx : m.begun.execute i = .ok () m') :
      Passage m ⟨⟨.ok m'.progress, m.opening w ++ m.stalling m'⟩, m'.counted⟩

inductive Course (m : Machine) : Step → Prop where
  | unfetched {fault} (hw : m.memory.fetch m.registers.pc = .error fault) :
      Course m ⟨⟨.error fault, []⟩, m⟩
  | undecoded {w} (hw : m.memory.fetch m.registers.pc = .ok w)
      (hi : Instruction.decode? w = none) :
      Course m ⟨⟨.error (.unknownInstruction w m.registers.pc), []⟩, m⟩
  | obstructed {w i fault} (hw : m.memory.fetch m.registers.pc = .ok w)
      (hi : Instruction.decode? w = some i) (ho : m.obstacle? i = some fault) :
      Course m ⟨⟨.error fault, m.opening w⟩, m.begun⟩
  | completed {w i m'} (hw : m.memory.fetch m.registers.pc = .ok w)
      (hi : Instruction.decode? w = some i) (hx : m.begun.execute i = .ok () m') :
      Course m ⟨⟨.ok m'.progress, m.opening w ++ m.stalling m'⟩, m'.counted⟩

variable {m m' : Machine} {w : Nat} {i : Instruction} {fault : Fault}

/-- A word that was fetched and decoded is the word of its instruction. -/
theorem word_of_fetched (hw : m.memory.fetch m.registers.pc = .ok w)
    (hi : Instruction.decode? w = some i) : i.word = w :=
  (Instruction.word_of_decode hi).trans (Instruction.lowWord_natCast (Memory.fetch_lt hw))

theorem step_unfetched (hw : m.memory.fetch m.registers.pc = .error fault) :
    m.step = ⟨⟨.error fault, []⟩, m⟩ := by
  simp only [step, hw]

theorem step_undecoded (hw : m.memory.fetch m.registers.pc = .ok w)
    (hi : Instruction.decode? w = none) :
    m.step = ⟨⟨.error (.unknownInstruction w m.registers.pc), []⟩, m⟩ := by
  simp only [step, hw, hi]

theorem step_obstructed (hw : m.memory.fetch m.registers.pc = .ok w)
    (hi : Instruction.decode? w = some i) (hx : m.begun.execute i = .error fault m') :
    m.step = ⟨⟨.error fault, m.opening w⟩, m'⟩ := by
  unfold begun at hx
  simp only [step, hw, hi, hx]
  rfl

theorem step_completed (hw : m.memory.fetch m.registers.pc = .ok w)
    (hi : Instruction.decode? w = some i) (hx : m.begun.execute i = .ok () m') :
    m.step = ⟨⟨.ok m'.progress, m.opening w ++ m.stalling m'⟩, m'.counted⟩ := by
  unfold begun at hx
  simp only [step, hw, hi, hx]
  cases hk : m'.awaitingKey with
  | false => simp [progress, stalling, counted, opening, hk]
  | true => cases hm : m.awaitingKey <;> simp [progress, stalling, counted, opening, hk, hm]

theorem step_passage (m : Machine) : Passage m m.step := by
  cases hw : m.memory.fetch m.registers.pc with
  | error fault => rw [step_unfetched hw]; exact .unfetched hw
  | ok w =>
    cases hi : Instruction.decode? w with
    | none => rw [step_undecoded hw hi]; exact .undecoded hw hi
    | some i =>
      cases hx : m.begun.execute i with
      | error fault left => rw [step_obstructed hw hi hx]; exact .failed hw hi hx
      | ok _ m' => rw [step_completed hw hi hx]; exact .completed hw hi hx

theorem step_course (h : 0 ≤ m.registers.sp) (h' : m.registers.sp ≤ 16) : Course m m.step := by
  have hp := step_passage m
  generalize m.step = s at hp
  cases hp with
  | unfetched hw => exact .unfetched hw
  | undecoded hw hi => exact .undecoded hw hi
  | @failed w i fault left hw hi hx =>
    have ho := (execute_eq_error_iff (m := m.begun) h h' i fault).mp hx
    rw [ho.2]
    exact .obstructed hw hi ho.1
  | completed hw hi hx => exact .completed hw hi hx

/-- A fault leaves the machine as it was or as the instruction was begun. -/
theorem step_preserves {P : Machine → Prop} (h : 0 ≤ m.registers.sp) (h' : m.registers.sp ≤ 16)
    (hm : P m) (hbegun : P m.begun)
    (hdone : ∀ w i m', m.memory.fetch m.registers.pc = .ok w → Instruction.decode? w = some i →
      m.begun.execute i = .ok () m' → P m'.counted) :
    P m.step.machine := by
  have hc := step_course h h'
  generalize m.step = s at hc
  cases hc with
  | unfetched hw => exact hm
  | undecoded hw hi => exact hm
  | obstructed hw hi ho => exact hbegun
  | completed hw hi hx => exact hdone _ _ _ hw hi hx

end Chip8.Machine
