import Chip8.Proofs.Machine.Burst
import Chip8.Proofs.Machine.KeyHistory
import Chip8.Proofs.Machine.Presentation
import Chip8.Proofs.Machine.RandomStream
import Chip8.Proofs.Machine.Screen
import Chip8.Proofs.Machine.Timers

/-!
# The footprint of an instruction

Which parts of a machine an instruction may change can be told from the instruction alone. Whatever
is outside its footprint is as before the step. The program counter moves on by one instruction, or
by two when a skip is taken, unless the instruction is a jump or stalls.
-/
namespace Chip8

namespace Instruction

def writes (z : Nibble) : Instruction → Bool
  | .loadByte x _ | .addByte x _ | .copy x _ | .bitOr x _ | .bitAnd x _ | .bitXor x _ | .random x _
  | .readDelay x | .awaitKey x => z == x
  | .add x _ | .subtract x _ | .shiftRight x _ | .subtractFrom x _ | .shiftLeft x _ =>
    z == x || z == Registers.flag
  | .draw .. => z == Registers.flag
  | .loadBlock x => z ≤ x
  | _ => false

def writesIndex (legacyStore : Bool) : Instruction → Bool
  | .loadIndex _ | .addIndex _ | .glyph _ => true
  | .saveBlock _ | .loadBlock _ => legacyStore
  | _ => false

/-- How many bytes an instruction may store, from the index register on. -/
def storeLength : Instruction → Nat
  | .decimal _ => 3
  | .saveBlock x => x + 1
  | _ => 0

def jumps : Instruction → Bool
  | .ret | .jump _ | .call _ | .jumpOffset _ => true
  | _ => false

def isSkip : Instruction → Bool
  | .skipEqByte .. | .skipNeByte .. | .skipEq .. | .skipNe .. | .skipDown _ | .skipUp _ => true
  | _ => false

/-- The skip that is taken when this one is not. -/
def opposite? : Instruction → Option Instruction
  | .skipEqByte x kk => some (.skipNeByte x kk)
  | .skipEq x y => some (.skipNe x y)
  | .skipDown x => some (.skipUp x)
  | _ => none

theorem isSkip_of_opposite {i j : Instruction} (h : i.opposite? = some j) :
    i.isSkip = true ∧ j.isSkip = true := by
  cases i with
  | skipEqByte | skipEq | skipDown =>
    cases h
    exact ⟨rfl, rfl⟩
  | _ => cases h

end Instruction

namespace Memory

variable {m : Memory} {address a : Nat} {bs : List UInt8}

theorem mem_range_of_put_ne (h : (m.put address bs).byte a ≠ m.byte a) :
    address ≤ a ∧ a < address + bs.length := by
  rw [byte_put] at h
  by_cases ha : address ≤ a ∧ a < address + bs.length ∧ a < 4096
  · exact ⟨ha.1, ha.2.1⟩
  · rw [if_neg ha] at h
    exact absurd rfl h

end Memory

namespace Machine

variable {m m' n : Machine} {i j : Instruction} {x z : Nibble} {p : Progress}

def skips (m : Machine) : Instruction → Bool
  | .skipEqByte x kk => m.v x == kk.toNat
  | .skipNeByte x kk => m.v x != kk.toNat
  | .skipEq x y => m.v x == m.v y
  | .skipNe x y => m.v x != m.v y
  | .skipDown x => m.keyDown x
  | .skipUp x => !m.keyDown x
  | _ => false

theorem get_fillV (v : Vector Int 16) (k : Nat) (bs : List UInt8) (z : Nibble) :
    (fillV v k bs).get z =
      if k ≤ z ∧ z < k + bs.length then ((bs.getD (z - k) 0).toNat : Int) else v.get z := by
  induction bs generalizing v k with
  | nil =>
    rw [if_neg (by simp only [List.length_nil]; omega)]
    rfl
  | cons b rest ih =>
    rw [fillV, ih, get_setIfInBounds, List.length_cons]
    by_cases hk : k = z
    · subst hk
      rw [if_neg (by omega), if_pos rfl, if_pos (by omega), Nat.sub_self]
      rfl
    · rw [if_neg hk]
      by_cases hin : k + 1 ≤ z ∧ z < k + 1 + rest.length
      · have hnext : z - k = z - (k + 1) + 1 := by omega
        rw [if_pos hin, if_pos (by omega), hnext]
        rfl
      · rw [if_neg hin, if_neg (by omega)]

structure Moves (m : Machine) (i : Instruction) (m' : Machine) : Prop where
  data : ∀ z, i.writes z = false → m'.v z = m.v z
  index : i.writesIndex m.legacyStore = false → m'.registers.i = m.registers.i
  next : i.jumps = false → m'.awaitingKey = false →
    m'.registers.pc = m.registers.pc + if m.skips i then 4 else 2

theorem moves_of_execute (h : 0 ≤ m.registers.sp) (h' : m.registers.sp ≤ 16)
    (hx : m.execute i = .ok () m') : Moves m i m' := by
  have hc := obstacle_eq_none_of_ok hx
  cases i with
  -- Jumps, calls and returns do not go on behind themselves: nothing is said of where they lead.
  | jump | jumpOffset =>
    cases hx
    exact ⟨fun _ _ => rfl, fun _ => rfl, fun hj => Bool.noConfusion hj⟩
  | call a =>
    have hroom : ¬ 16 ≤ m.registers.sp := by simpa [obstacle_call] using hc
    rw [execute_call a h (by omega)] at hx
    cases hx
    exact ⟨fun _ _ => rfl, fun _ => rfl, fun hj => Bool.noConfusion hj⟩
  | ret =>
    have hentry : m.registers.sp ≠ 0 := by simpa [obstacle_ret] using hc
    rw [execute_ret (by omega) h'] at hx
    cases hx
    exact ⟨fun _ _ => rfl, fun _ => rfl, fun hj => Bool.noConfusion hj⟩
  | skipEqByte | skipNeByte | skipEq | skipNe | skipDown | skipUp =>
    change EStateM.Result.ok () (m.skipIf _) = _ at hx
    rw [skipIf_eq] at hx
    cases hx
    exact ⟨fun _ _ => rfl, fun _ => rfl, fun _ _ => rfl⟩
  | loadByte | addByte | copy | bitOr | bitAnd | bitXor | readDelay =>
    cases hx
    exact ⟨fun z hz => m.v_setV_of_ne (beq_eq_false_iff_ne.mp hz) _, fun _ => rfl, fun _ _ => rfl⟩
  | add | subtract | shiftRight | subtractFrom | shiftLeft =>
    cases hx
    refine ⟨fun z hz => ?_, fun _ => rfl, fun _ _ => rfl⟩
    obtain ⟨hx, hf⟩ := Bool.or_eq_false_iff.mp hz
    exact m.v_setFlagged_of_ne (beq_eq_false_iff_ne.mp hx) (beq_eq_false_iff_ne.mp hf) _ _
  | random x kk =>
    rw [execute_random] at hx
    cases hx
    exact ⟨fun z hz => v_setV_of_ne _ (beq_eq_false_iff_ne.mp hz) _, fun _ => rfl, fun _ _ => rfl⟩
  | draw x y n =>
    rw [execute_of_block rfl hc] at hx
    cases hx
    exact ⟨fun z hz => v_setV_of_ne _ (beq_eq_false_iff_ne.mp hz) _, fun _ => rfl, fun _ _ => rfl⟩
  | awaitKey x =>
    cases hl : m.keypad.latched with
    -- A stall raises the flag, so the program counter is left to the law on stalls.
    | none =>
      rw [execute_awaitKey_none x hl] at hx
      cases hx
      exact ⟨fun _ _ => rfl, fun _ => rfl, fun _ hk => Bool.noConfusion hk⟩
    | some k =>
      rw [execute_awaitKey_some x hl] at hx
      cases hx
      exact ⟨fun z hz => v_setV_of_ne _ (beq_eq_false_iff_ne.mp hz) _, fun _ => rfl,
        fun _ _ => rfl⟩
  | loadIndex | addIndex | glyph =>
    cases hx
    exact ⟨fun _ _ => rfl, fun hi => Bool.noConfusion hi, fun _ _ => rfl⟩
  | decimal x =>
    rw [execute_of_block rfl hc] at hx
    cases hx
    exact ⟨fun _ _ => rfl, fun _ => rfl, fun _ _ => rfl⟩
  | saveBlock x =>
    rw [execute_of_block rfl hc] at hx
    cases hx
    exact ⟨fun _ _ => rfl, fun hl => if_neg (Bool.eq_false_iff.mp hl), fun _ _ => rfl⟩
  | loadBlock x =>
    rw [execute_of_block rfl hc] at hx
    cases hx
    refine ⟨fun z hz => ?_, fun hl => if_neg (Bool.eq_false_iff.mp hl), fun _ _ => rfl⟩
    have hlater : x.val < z.val := Fin.not_le.mp (of_decide_eq_false hz)
    have hlength : (m.memory.block m.registers.i.toNat (x + 1)).length = x + 1 :=
      Memory.length_block _ _ _
    refine (get_fillV m.registers.v 0 _ z).trans (if_neg ?_)
    omega
  | clearScreen | setDelay | setSound =>
    cases hx
    exact ⟨fun _ _ => rfl, fun _ => rfl, fun _ _ => rfl⟩

theorem Effect.memory (he : Effect m i m') (hdecimal : ∀ x, i ≠ .decimal x)
    (hsave : ∀ x, i ≠ .saveBlock x) : m'.memory = m.memory := by
  cases he with
  | decimal => exact absurd rfl (hdecimal _)
  | saved => exact absurd rfl (hsave _)
  | registers | cleared | drawn | random | keyTaken | keyMissing => rfl

theorem Effect.legacyStore (he : Effect m i m') : m'.legacyStore = m.legacyStore := by
  cases he with
  | registers | cleared | drawn | decimal | saved | random | keyTaken | keyMissing => rfl

theorem Effect.down (he : Effect m i m') : m'.keypad.down = m.keypad.down := by
  cases he with
  | registers | cleared | drawn | decimal | saved | random | keyTaken | keyMissing => rfl

/-- Bytes are stored into the block at the index register only. -/
theorem stored_of_execute (hx : m.execute i = .ok () m') {a : Nat}
    (ha : m'.memory.byte a ≠ m.memory.byte a) :
    m.registers.i ≤ a ∧ a < m.registers.i + i.storeLength := by
  have hc := obstacle_eq_none_of_ok hx
  cases i with
  | decimal x =>
    have hin := inside_of_block (i := .decimal x) rfl hc
    rw [execute_of_block rfl hc] at hx
    cases hx
    have hrange := Memory.mem_range_of_put_ne ha
    have hstart := ((Memory.firstOutside?_eq_none_iff _ _).mp hin).1
    rw [List.length_map, show (decimalDigits (m.v x)).length = 3 from rfl] at hrange
    simp only [Instruction.storeLength]
    omega
  | saveBlock x =>
    have hin := inside_of_block (i := .saveBlock x) rfl hc
    rw [execute_of_block rfl hc] at hx
    cases hx
    have hrange := Memory.mem_range_of_put_ne ha
    have hstart := ((Memory.firstOutside?_eq_none_iff _ _).mp hin).1
    rw [List.length_map, length_take_v] at hrange
    simp only [Instruction.storeLength]
    omega
  | _ =>
    have hkept := (effect_of_execute hx).memory nofun nofun
    rw [hkept] at ha
    exact absurd rfl ha

/-- A key wait stalls without a latched key, and otherwise takes it. -/
theorem latched_of_awaitKey (hx : m.execute (.awaitKey x) = .ok () m') : m'.keypad.latched = none := by
  cases hl : m.keypad.latched with
  | none =>
    rw [execute_awaitKey_none x hl] at hx
    cases hx
    exact hl
  | some k =>
    rw [execute_awaitKey_some x hl] at hx
    cases hx
    rfl

/-- What a step of the instruction `i` that ends with `p` leaves alone, part by part, and where it
leads. Bytes are stored only into the block of `storeLength` at the index register. -/
structure Footprint (m : Machine) (i : Instruction) (p : Progress) (m' : Machine) : Prop where
  memory : ∀ a : Nat, m'.memory.byte a ≠ m.memory.byte a →
    m.registers.i ≤ a ∧ a < m.registers.i + i.storeLength
  cells : i ≠ .clearScreen → (∀ x y n, i ≠ .draw x y n) → m'.display.cells = m.display.cells
  dirty : m.display.dirty = true → m'.display.dirty = true
  stack : i ≠ .ret → (∀ a, i ≠ .call a) →
    m'.registers.sp = m.registers.sp ∧ m'.registers.stack = m.registers.stack
  index : i.writesIndex m.legacyStore = false → m'.registers.i = m.registers.i
  delay : (∀ x, i ≠ .setDelay x) → m'.registers.delay = m.registers.delay
  sound : (∀ x, i ≠ .setSound x) → m'.registers.sound = m.registers.sound
  random : (∀ x kk, i ≠ .random x kk) → m'.random = m.random
  latched : (∀ x, i ≠ .awaitKey x) → m'.keypad.latched = m.keypad.latched
  unlatched : ∀ x, i = .awaitKey x → m'.keypad.latched = none
  down : m'.keypad.down = m.keypad.down
  data : ∀ z, i.writes z = false → m'.v z = m.v z
  legacyStore : m'.legacyStore = m.legacyStore
  cycles : m'.cycles = m.cycles + 1
  stalled : p = .awaitingKey → (∃ x, i = .awaitKey x) ∧ m'.registers.pc = m.registers.pc
  next : p = .executed → i.jumps = false →
    m'.registers.pc = m.registers.pc + if m.skips i then 4 else 2

theorem Footprint.memory_of_no_store (hf : Footprint m i p m') (hi : i.storeLength = 0) (a : Nat) :
    m'.memory.byte a = m.memory.byte a := by
  by_contra ha
  obtain ⟨hfrom, hto⟩ := hf.memory a ha
  rw [hi] at hto
  omega

theorem RegisterEffect.timer_of_unset {r r' : Registers} (he : RegisterEffect r i r') {t : Timer}
    (ht : ∀ x, i ≠ t.setter x) : r'.timer t = r.timer t := by
  have hsource : t.source? i = none := by
    rw [Option.eq_none_iff_forall_ne_some]
    intro x hx
    exact ht x (Timer.source?_eq_some_iff.mp hx)
  rw [he.timer t, hsource]
  rfl

theorem footprint_of_execute (h : 0 ≤ m.registers.sp) (h' : m.registers.sp ≤ 16)
    (hx : m.begun.execute i = .ok () m') : Footprint m i m'.progress m'.counted := by
  have he : Effect m.begun i m' := effect_of_execute hx
  have hr : RegisterEffect m.registers i m'.registers :=
    registerEffect_of_execute (m := m.begun) h h' hx
  have hm : Moves m.begun i m' := moves_of_execute h h' hx
  constructor
  case memory => exact fun a => stored_of_execute hx
  case cells => exact fun hclear hdraw => congrArg (·.cells) (he.display hclear hdraw)
  case dirty =>
    intro hd
    rcases he.dirty with hsame | hdirty
    · exact (congrArg (·.dirty) hsame).trans hd
    · exact hdirty
  case stack => exact hr.stack
  case index => exact hm.index
  case delay => exact fun hset => hr.timer_of_unset (t := .delay) hset
  case sound => exact fun hset => hr.timer_of_unset (t := .sound) hset
  case random =>
    intro hrandom
    refine he.keeps_random (Bool.eq_false_iff.mpr fun hi => ?_)
    obtain ⟨x, kk, rfl⟩ := i.eq_random hi
    exact hrandom x kk rfl
  case latched => exact fun hwait => congrArg (·.latched) (he.keypad hwait)
  case unlatched =>
    rintro x rfl
    exact (latched_of_awaitKey hx : m'.keypad.latched = none)
  case down => exact he.down
  case data => exact hm.data
  case legacyStore => exact he.legacyStore
  case cycles => exact congrArg (· + 1) he.cycles
  case stalled =>
    intro hp
    have hk : m'.awaitingKey = true := by
      cases hk : m'.awaitingKey with
      | true => rfl
      | false =>
        rw [progress_eq_executed_iff.mpr hk] at hp
        cases hp
    obtain ⟨hwait, rfl⟩ := he.waiting rfl hk
    exact ⟨hwait, rfl⟩
  case next => exact fun hp hj => hm.next hj (progress_eq_executed_iff.mp hp)

/-- A step without a fault has carried out, or begun, the instruction at the program counter. -/
theorem footprint_of_ok (h : m.WellFormed) (hp : m.step.report.outcome = .ok p) :
    ∃ i, m.pending? = some i ∧ Footprint m i p m.step.machine := by
  have hc := step_course h.sp_nonneg h.sp_le
  generalize m.step = s at hc hp
  cases hc with
  | unfetched | undecoded | obstructed => cases hp
  | @completed w i m' hw hi hx =>
    cases hp
    exact ⟨i, (pending?_of_fetched hw).trans hi, footprint_of_execute h.sp_nonneg h.sp_le hx⟩

/-- One skip of a pair is taken exactly when the other is not. -/
theorem skips_opposite (hij : i.opposite? = some j) (hv : n.registers.v = m.registers.v)
    (hd : n.keypad.down = m.keypad.down) : n.skips j = !m.skips i := by
  have hkey (x : Nibble) : n.keyDown x = m.keyDown x := by
    unfold keyDown Keypad.isDown v
    rw [hv, hd]
  cases i with
  | skipEqByte x kk =>
    cases hij
    simp only [skips, v, hv, bne]
  | skipEq x y =>
    cases hij
    simp only [skips, v, hv, bne]
  | skipDown x =>
    cases hij
    simp only [skips, hkey]
  | _ => cases hij

/-- Nothing is in the way of a skip. -/
theorem next_of_skip (h : m.WellFormed) (hi : m.pending? = some i) (hs : i.isSkip = true) :
    m.step.report.outcome = .ok .executed ∧
      m.step.machine.registers.pc = m.registers.pc + if m.skips i then 4 else 2 := by
  have hfree : m.obstacle? i = none ∧ (∀ x, i ≠ .awaitKey x) ∧ i.jumps = false := by
    cases i with
    | skipEqByte | skipNeByte | skipEq | skipNe | skipDown | skipUp => exact ⟨rfl, nofun, rfl⟩
    | _ => cases hs
  obtain ⟨hclear, hwait, hjump⟩ := hfree
  have hx := executed?_of_clear h.sp_nonneg h.sp_le hi hclear hwait
  have hout := (executed?_eq_some_iff.mp hx).1
  obtain ⟨j, hj, hf⟩ := footprint_of_ok h hout
  obtain rfl : i = j := Option.some.inj (hi.symm.trans hj)
  exact ⟨hout, hf.next rfl hjump⟩

/-- A step without a fault stays within the footprint of its instruction. Two opposite skips, on
machines that agree in the data registers and the keys, are taken in turn. -/
theorem step_footprint (h : m.WellFormed) (hp : m.step.report.outcome = .ok p) :
    ∃ i : Instruction, m.memory.fetch m.registers.pc = .ok i.word ∧
      Footprint m i p m.step.machine ∧
      ∀ (n : Machine) (j : Instruction), i.opposite? = some j → n.WellFormed →
        n.memory.fetch n.registers.pc = .ok j.word →
        n.registers.v = m.registers.v → n.keypad.down = m.keypad.down →
        n.step.report.outcome = .ok .executed ∧
          (n.step.machine.registers.pc = n.registers.pc + 4 ↔
            m.step.machine.registers.pc = m.registers.pc + 2) := by
  obtain ⟨i, hi, hf⟩ := footprint_of_ok h hp
  refine ⟨i, pending?_eq_some_iff.mp hi, hf, ?_⟩
  intro n j hij hn hj hv hd
  obtain ⟨hs, hs'⟩ := Instruction.isSkip_of_opposite hij
  obtain ⟨-, hpc⟩ := next_of_skip h hi hs
  obtain ⟨hout, hpc'⟩ := next_of_skip hn (pending?_eq_some_iff.mpr hj) hs'
  refine ⟨hout, ?_⟩
  rw [hpc, hpc', skips_opposite hij hv hd]
  cases m.skips i with
  | true => simp
  | false => simp

/-- A skip that is taken, and its opposite on a machine that is like it. -/
theorem step_footprint_of_skips :
    let m := { fresh false 0 with memory := Memory.fresh.put 0x200 [0x30, 0x00] }
    let n := { fresh true 0 with memory := Memory.fresh.put 0x200 [0x40, 0x00] }
    m.WellFormed ∧ m.step.report.outcome = .ok .executed ∧
      (∀ a, m.step.machine.memory.byte a = m.memory.byte a) ∧
      m.step.machine.registers.pc = 0x204 ∧ n.step.machine.registers.pc ≠ 0x204 := by
  intro m n
  have hm : m.WellFormed := .of_initial rfl
  have hout : m.step.report.outcome = .ok .executed := by decide +kernel
  obtain ⟨i, hw, hf, hopposite⟩ := step_footprint hm hout
  have hskip : m.memory.fetch m.registers.pc = .ok (Instruction.skipEqByte 0 0).word := by
    decide +kernel
  obtain rfl : i = .skipEqByte 0 0 :=
    Instruction.word_injective (Except.ok.inj (hw.symm.trans hskip))
  have hpc : m.step.machine.registers.pc = 0x204 := hf.next rfl rfl
  refine ⟨hm, hout, hf.memory_of_no_store rfl, hpc, fun hn => ?_⟩
  have hboth := (hopposite n (.skipNeByte 0 0) rfl (.of_initial rfl) (by decide +kernel) rfl
    rfl).2.mp hn
  rw [hpc] at hboth
  exact absurd hboth (by decide)

end Machine

end Chip8
