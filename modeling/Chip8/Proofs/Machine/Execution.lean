import Chip8.Machine.Step
import Chip8.Proofs.Memory.Access

/-!
# What carrying an instruction out can do

An instruction meets an obstacle, which is known from the machine before it, or it succeeds. Six
instructions have obstacles: what they leave of the machine when they meet one is the machine, and
their successes are written out here as plain updates. What an instruction leaves alone outside the
registers is its footprint.
-/
namespace Chip8

def Instruction.blockLength? : Instruction → Option Nat
  | .draw _ _ n => some n
  | .decimal _ => some 3
  | .saveBlock x | .loadBlock x => some (x + 1)
  | _ => none

section Bind

variable {ε σ α β : Type} {x : EStateM ε σ α} {s s' : σ} {a : α} {e : ε} {f : α → EStateM ε σ β}

theorem bind_of_ok (h : x s = .ok a s') : (x >>= f) s = f a s' := by
  change EStateM.bind x f s = _
  simp only [EStateM.bind, h]

theorem bind_of_error (h : x s = .error e s') : (x >>= f) s = .error e s' := by
  change EStateM.bind x f s = _
  simp only [EStateM.bind, h]

theorem ofExcept_of_ok {r : Except ε α} (h : r = .ok a) (s : σ) :
    (MonadExcept.ofExcept r : EStateM ε σ α) s = .ok a s := by
  rw [h]
  rfl

theorem ofExcept_of_error {r : Except ε α} (h : r = .error e) (s : σ) :
    (MonadExcept.ofExcept r : EStateM ε σ α) s = .error e s := by
  rw [h]
  rfl

end Bind

namespace Registers

variable {r : Registers}

theorem slot?_of_mem {position : Int} (h : 0 ≤ position) (h' : position < 16) :
    slot? position = some (Nibble.ofInt position) :=
  if_pos ⟨by omega, h'⟩

/-- A push by its cases. Neither fault leaves a trace. -/
theorem push_eq (r : Registers) (address : Int) : push address r =
    if r.sp ≥ 16 then .error (.stackOverflow r.pc) r
    else
      match slot? r.sp with
      | none => .error (.noSlot .push r.sp) r
      | some k => .ok () { r with stack := r.stack.set k address k.isLt, sp := r.sp + 1 } := by
  change (if r.sp ≥ 16 then _ else _ : EStateM Fault Registers Unit) r = _
  split
  · rfl
  · cases slot? r.sp <;> rfl

/-- A pop by its cases. Where there is no slot, the stack pointer has been lowered. -/
theorem pop_eq (r : Registers) : pop r =
    if r.sp = 0 then .error (.stackUnderflow r.pc) r
    else
      match slot? (r.sp - 1) with
      | none => .error (.noSlot .pop (r.sp - 1)) { r with sp := r.sp - 1 }
      | some k => .ok (r.stack.get k) { r with sp := r.sp - 1 } := by
  change (if r.sp = 0 then _ else _ : EStateM Fault Registers Int) r = _
  split
  · rfl
  · change (match slot? (r.sp - 1) with | none => _ | some k => _ :
      EStateM Fault Registers Int) { r with sp := r.sp - 1 } = _
    cases slot? (r.sp - 1) <;> rfl

theorem push_eq_error {address : Int} {fault : Fault} {r' : Registers}
    (h : push address r = .error fault r') :
    16 ≤ r.sp ∨ fault = .noSlot .push r.sp ∧ r' = r := by
  rw [push_eq] at h
  split at h
  · exact Or.inl ‹_›
  · split at h
    · cases h
      exact Or.inr ⟨rfl, rfl⟩
    · cases h

theorem pop_eq_error {fault : Fault} {r' : Registers} (h : pop r = .error fault r') :
    r.sp = 0 ∨ fault = .noSlot .pop (r.sp - 1) ∧ r' = { r with sp := r.sp - 1 } := by
  rw [pop_eq] at h
  split at h
  · exact Or.inl ‹_›
  · split at h
    · cases h
      exact Or.inr ⟨rfl, rfl⟩
    · cases h

theorem push_of_room (h : 0 ≤ r.sp) (h' : r.sp < 16) (address : Int) :
    push address r = .ok () { r with
      stack := r.stack.set (Nibble.ofInt r.sp) address, sp := r.sp + 1 } := by
  simp only [push_eq, slot?_of_mem h h', if_neg (show ¬ r.sp ≥ 16 by omega)]

theorem pop_of_entry (h : 0 < r.sp) (h' : r.sp ≤ 16) :
    pop r = .ok (r.stack.get (Nibble.ofInt (r.sp - 1))) { r with sp := r.sp - 1 } := by
  simp only [pop_eq, slot?_of_mem (show 0 ≤ r.sp - 1 by omega) (by omega),
    if_neg (show ¬ r.sp = 0 by omega)]

end Registers

namespace Machine

variable {m m' : Machine}

section Parts

variable {ε α : Type} {a : α} {e : ε}

theorem inMemory_of_ok {act : EStateM ε Memory α} {memory : Memory}
    (h : act m.memory = .ok a memory) : inMemory act m = .ok a { m with memory := memory } := by
  simp only [inMemory, within, h]

theorem inMemory_of_error {act : EStateM ε Memory α} {memory : Memory}
    (h : act m.memory = .error e memory) :
    inMemory act m = .error e { m with memory := memory } := by
  simp only [inMemory, within, h]

theorem inRegisters_of_ok {act : EStateM ε Registers α} {r : Registers}
    (h : act m.registers = .ok a r) : inRegisters act m = .ok a { m with registers := r } := by
  simp only [inRegisters, within, h]

theorem inRegisters_of_error {act : EStateM ε Registers α} {r : Registers}
    (h : act m.registers = .error e r) :
    inRegisters act m = .error e { m with registers := r } := by
  simp only [inRegisters, within, h]

end Parts

/-- The fault that an instruction is bound to meet. -/
def obstacle? (m : Machine) (i : Instruction) : Option Fault :=
  match i.blockLength? with
  | some n => (Memory.firstOutside? m.registers.i n).map (Fault.memory .data)
  | none =>
    match i with
    | .call _ => if 16 ≤ m.registers.sp then some (.stackOverflow m.registers.pc) else none
    | .ret => if m.registers.sp = 0 then some (.stackUnderflow m.registers.pc) else none
    | _ => none

theorem obstacle_of_block {i : Instruction} {n : Nat} (h : i.blockLength? = some n) :
    m.obstacle? i = (Memory.firstOutside? m.registers.i n).map (Fault.memory .data) := by
  unfold obstacle?
  rw [h]

theorem obstacle_call (m : Machine) (a : Fin 4096) : m.obstacle? (.call a) =
    if 16 ≤ m.registers.sp then some (.stackOverflow m.registers.pc) else none := rfl

theorem obstacle_ret (m : Machine) : m.obstacle? .ret =
    if m.registers.sp = 0 then some (.stackUnderflow m.registers.pc) else none := rfl

theorem inside_of_block {i : Instruction} {n : Nat} (h : i.blockLength? = some n)
    (hc : m.obstacle? i = none) : Memory.firstOutside? m.registers.i n = none := by
  rw [obstacle_of_block h] at hc
  exact Option.map_eq_none_iff.mp hc

theorem outside_of_block {i : Instruction} {n : Nat} {fault : Fault} (h : i.blockLength? = some n)
    (hc : m.obstacle? i = some fault) : ∃ outside,
      Memory.firstOutside? m.registers.i n = some outside ∧ Fault.memory .data outside = fault := by
  rw [obstacle_of_block h] at hc
  exact Option.map_eq_some_iff.mp hc

theorem fault_of_obstacle {i : Instruction} {fault : Fault} (h : m.obstacle? i = some fault) :
    (∃ outside, fault = .memory .data outside) ∨ fault = .stackOverflow m.registers.pc ∨
      fault = .stackUnderflow m.registers.pc := by
  cases hb : i.blockLength? with
  | some n =>
    obtain ⟨outside, _, rfl⟩ := outside_of_block hb h
    exact Or.inl ⟨outside, rfl⟩
  | none =>
    cases i with
    | call a =>
      obtain ⟨_, hfault⟩ := Option.ite_none_right_eq_some.mp (obstacle_call m a ▸ h)
      exact Or.inr (Or.inl (Option.some.inj hfault).symm)
    | ret =>
      obtain ⟨_, hfault⟩ := Option.ite_none_right_eq_some.mp (obstacle_ret m ▸ h)
      exact Or.inr (Or.inr (Option.some.inj hfault).symm)
    | draw | decimal | saveBlock | loadBlock => cases hb
    | _ => cases h

theorem skipIf_eq (m : Machine) (condition : Bool) :
    m.skipIf condition = m.jump (m.registers.pc + if condition then 4 else 2) := by
  cases condition <;> rfl

theorem passBlock_eq (m : Machine) (x : Nibble) :
    m.passBlock x = m.setIndex
      (if m.legacyStore then (m.registers.i + x + 1) % 65536 else m.registers.i) := by
  unfold passBlock
  split <;> rfl

theorem length_take_v (r : Registers) (x : Nibble) : (r.v.toList.take (x + 1)).length = x + 1 := by
  have := x.isLt
  simp only [List.length_take, Vector.length_toList]
  omega

/-- A call ends as its push does, and jumps if that went well. -/
theorem execute_call_eq (m : Machine) (a : Fin 4096) : m.execute (.call a) =
    match Registers.push m.registers.pc m.registers with
    | .error fault r => .error fault { m with registers := r }
    | .ok _ r => .ok () ({ m with registers := r }.jump a) := by
  change (inRegisters (Registers.push m.registers.pc) >>= fun _ => modify (·.jump a)) m = _
  cases hp : Registers.push m.registers.pc m.registers with
  | error fault r => rw [bind_of_error (inRegisters_of_error hp)]
  | ok _ r =>
    rw [bind_of_ok (inRegisters_of_ok hp)]
    rfl

theorem execute_ret_eq (m : Machine) : m.execute .ret =
    match Registers.pop m.registers with
    | .error fault r => .error fault { m with registers := r }
    | .ok address r => .ok () ({ m with registers := r }.jump (address + 2)) := by
  change (inRegisters Registers.pop >>= fun address => modify (·.jump (address + 2))) m = _
  cases hp : Registers.pop m.registers with
  | error fault r => rw [bind_of_error (inRegisters_of_error hp)]
  | ok address r =>
    rw [bind_of_ok (inRegisters_of_ok hp)]
    rfl

theorem execute_call (a : Fin 4096) (h : 0 ≤ m.registers.sp) (h' : m.registers.sp < 16) :
    m.execute (.call a) = .ok () ({ m with registers := { m.registers with
      stack := m.registers.stack.set (Nibble.ofInt m.registers.sp) m.registers.pc
      sp := m.registers.sp + 1 } }.jump a) := by
  rw [execute_call_eq, Registers.push_of_room h h']

theorem execute_ret (h : 0 < m.registers.sp) (h' : m.registers.sp ≤ 16) :
    m.execute .ret = .ok () ({ m with registers := { m.registers with
      sp := m.registers.sp - 1 } }.jump
        (m.registers.stack.get (Nibble.ofInt (m.registers.sp - 1)) + 2)) := by
  rw [execute_ret_eq, Registers.pop_of_entry h h']

theorem execute_draw (x y n : Nibble) (h : Memory.firstOutside? m.registers.i n = none) :
    m.execute (.draw x y n) =
      let drawn := m.display.draw (m.v x) (m.v y) (m.memory.block m.registers.i.toNat n)
      let shown := { m with display := drawn.1 }
      .ok () (shown.setV Registers.flag (if drawn.2 then 1 else 0)).advance := by
  have hrows := Memory.readBlock_of_inside m.memory (by omega) h
  change ((MonadExcept.ofExcept _ : EStateM Fault Machine (List UInt8)) >>= _) m = _
  rw [bind_of_ok (ofExcept_of_ok hrows m)]
  rfl

theorem execute_decimal (x : Nibble) (h : Memory.firstOutside? m.registers.i 3 = none) :
    m.execute (.decimal x) = .ok () { m with
      memory := m.memory.put m.registers.i.toNat
        ((decimalDigits (m.v x)).map UInt8.ofInt) }.advance := by
  have hw : Memory.writeBlock m.registers.i (decimalDigits (m.v x)) m.memory = .ok () _ :=
    m.memory.writeBlock_of_inside h
  change (inMemory (Memory.writeBlock m.registers.i (decimalDigits (m.v x))) >>= _) m = _
  rw [bind_of_ok (inMemory_of_ok hw)]
  rfl

theorem execute_saveBlock (x : Nibble)
    (h : Memory.firstOutside? m.registers.i ((x + 1 : Nat) : Int) = none) :
    m.execute (.saveBlock x) = .ok () ({ m with
      memory := m.memory.put m.registers.i.toNat
        ((m.registers.v.toList.take (x + 1)).map UInt8.ofInt) }.passBlock x).advance := by
  rw [← length_take_v m.registers x] at h
  have hw := Memory.writeBlock_of_inside m.memory h
  change (inMemory (Memory.writeBlock m.registers.i (m.registers.v.toList.take (x + 1))) >>= _) m = _
  rw [bind_of_ok (inMemory_of_ok hw)]
  rfl

theorem execute_loadBlock (x : Nibble)
    (h : Memory.firstOutside? m.registers.i ((x + 1 : Nat) : Int) = none) :
    m.execute (.loadBlock x) = .ok () ({ m with registers := { m.registers with
      v := fillV m.registers.v 0 (m.memory.block m.registers.i.toNat (x + 1)) } }.passBlock
        x).advance := by
  have hin : Memory.firstOutside? m.registers.i ((x : Int) + 1) = none := h
  have hbytes := Memory.readBlock_of_inside m.memory (by omega) hin
  change ((MonadExcept.ofExcept _ : EStateM Fault Machine (List UInt8)) >>= _) m = _
  rw [bind_of_ok (ofExcept_of_ok hbytes m)]
  rfl

/-- What is left by an instruction whose block of memory lies inside the store. -/
def afterBlock (m : Machine) : Instruction → Machine
  | .draw x y n =>
    let drawn := m.display.draw (m.v x) (m.v y) (m.memory.block m.registers.i.toNat n)
    let shown := { m with display := drawn.1 }
    (shown.setV Registers.flag (if drawn.2 then 1 else 0)).advance
  | .decimal x =>
    let bytes := (decimalDigits (m.v x)).map UInt8.ofInt
    { m with memory := m.memory.put m.registers.i.toNat bytes }.advance
  | .saveBlock x =>
    let bytes := (m.registers.v.toList.take (x + 1)).map UInt8.ofInt
    let saved := { m with memory := m.memory.put m.registers.i.toNat bytes }
    (saved.setIndex
      (if m.legacyStore then (m.registers.i + x + 1) % 65536 else m.registers.i)).advance
  | .loadBlock x =>
    let v := fillV m.registers.v 0 (m.memory.block m.registers.i.toNat (x + 1))
    let loaded := { m with registers := { m.registers with v := v } }
    (loaded.setIndex
      (if m.legacyStore then (m.registers.i + x + 1) % 65536 else m.registers.i)).advance
  | _ => m

theorem execute_of_block {i : Instruction} {n : Nat} (h : i.blockLength? = some n)
    (hc : m.obstacle? i = none) : m.execute i = .ok () (m.afterBlock i) := by
  cases i with
  | draw x y k => exact execute_draw x y k (inside_of_block rfl hc)
  | decimal x => exact execute_decimal x (inside_of_block rfl hc)
  | saveBlock x =>
    rw [execute_saveBlock x (inside_of_block rfl hc), passBlock_eq]
    rfl
  | loadBlock x =>
    rw [execute_loadBlock x (inside_of_block rfl hc), passBlock_eq]
    rfl
  | _ => cases h

theorem execute_random (x : Nibble) (kk : UInt8) :
    m.execute (.random x kk) = .ok () ({ m with random := m.random.nextByte.1 }.setV x
      (m.random.nextByte.2 &&& kk).toNat).advance := rfl

theorem execute_awaitKey_none (x : Nibble) (h : m.keypad.latched = none) :
    m.execute (.awaitKey x) = .ok () { m with awaitingKey := true } := by
  change EStateM.Result.ok () (match m.keypad.latched with | none => _ | some k => _) = _
  rw [h]

theorem execute_awaitKey_some (x : Nibble) {k : Nibble} (h : m.keypad.latched = some k) :
    m.execute (.awaitKey x) =
      .ok () ({ m with keypad := m.keypad.clearLatch }.setV x k).advance := by
  change EStateM.Result.ok () (match m.keypad.latched with | none => _ | some k => _) = _
  rw [h]

/-- An obstacle is met before anything has changed. -/
theorem execute_of_obstacle {i : Instruction} {fault : Fault} (h : m.obstacle? i = some fault) :
    m.execute i = .error fault m := by
  cases i with
  | call a =>
    obtain ⟨hfull, hfault⟩ := Option.ite_none_right_eq_some.mp (obstacle_call m a ▸ h)
    rw [execute_call_eq, Registers.push_eq, if_pos hfull, ← Option.some.inj hfault]
  | ret =>
    obtain ⟨hempty, hfault⟩ := Option.ite_none_right_eq_some.mp (obstacle_ret m ▸ h)
    rw [execute_ret_eq, Registers.pop_eq, if_pos hempty, ← Option.some.inj hfault]
  | draw x y n =>
    obtain ⟨outside, ho, rfl⟩ := outside_of_block rfl h
    have hrows := Memory.readBlock_of_outside m.memory ho
    change ((MonadExcept.ofExcept _ : EStateM Fault Machine (List UInt8)) >>= _) m = _
    rw [bind_of_error (ofExcept_of_error hrows m)]
  | decimal x =>
    obtain ⟨outside, ho, rfl⟩ := outside_of_block rfl h
    have hw : Memory.writeBlock m.registers.i (decimalDigits (m.v x)) m.memory = .error _ m.memory :=
      m.memory.writeBlock_of_outside ho
    change (inMemory (Memory.writeBlock m.registers.i (decimalDigits (m.v x))) >>= _) m = _
    rw [bind_of_error (inMemory_of_error hw)]
  | saveBlock x =>
    obtain ⟨outside, ho, rfl⟩ := outside_of_block rfl h
    rw [← length_take_v m.registers x] at ho
    have hw := Memory.writeBlock_of_outside m.memory ho
    change (inMemory (Memory.writeBlock m.registers.i (m.registers.v.toList.take (x + 1))) >>= _)
      m = _
    rw [bind_of_error (inMemory_of_error hw)]
  | loadBlock x =>
    obtain ⟨outside, ho, rfl⟩ := outside_of_block rfl h
    have hout : Memory.firstOutside? m.registers.i ((x : Int) + 1) = some outside := ho
    have hbytes := Memory.readBlock_of_outside m.memory hout
    change ((MonadExcept.ofExcept _ : EStateM Fault Machine (List UInt8)) >>= _) m = _
    rw [bind_of_error (ofExcept_of_error hbytes m)]
  | _ => cases h

theorem obstacle_eq_none_of_ok {i : Instruction} (h : m.execute i = .ok () m') :
    m.obstacle? i = none := by
  cases ho : m.obstacle? i with
  | none => rfl
  | some fault => rw [execute_of_obstacle ho] at h; cases h

/-- What a success changes outside the registers, and for which instruction. The registers are left
open here: each of them has a law of its own. -/
inductive Effect (m : Machine) : Instruction → Machine → Prop where
  | registers {i} (r : Registers) : Effect m i { m with registers := r }
  | cleared (r : Registers) :
      Effect m .clearScreen { m with display := m.display.clear, registers := r }
  | drawn {x y n} (rows : List UInt8) (r : Registers) : Effect m (.draw x y n)
      { m with display := (m.display.draw (m.v x) (m.v y) rows).1, registers := r }
  | decimal {x} (bytes : List UInt8) (r : Registers) : Effect m (.decimal x)
      { m with memory := m.memory.put m.registers.i.toNat bytes, registers := r }
  | saved {x} (bytes : List UInt8) (r : Registers) : Effect m (.saveBlock x)
      { m with memory := m.memory.put m.registers.i.toNat bytes, registers := r }
  | random {x kk} (r : Registers) : Effect m (.random x kk)
      { m with random := m.random.nextByte.1, registers := r }
  | keyTaken {x k} (h : m.keypad.latched = some k) (r : Registers) : Effect m (.awaitKey x)
      { m with keypad := m.keypad.clearLatch, registers := r }
  | keyMissing {x} (h : m.keypad.latched = none) : Effect m (.awaitKey x)
      { m with awaitingKey := true }

/-- A success has the effect of its instruction, wherever the stack pointer may be. -/
theorem effect_of_execute {i : Instruction} (hx : m.execute i = .ok () m') : Effect m i m' := by
  have hc := obstacle_eq_none_of_ok hx
  cases i with
  | clearScreen =>
    cases hx
    exact .cleared _
  | call a =>
    rw [execute_call_eq] at hx
    cases hp : Registers.push m.registers.pc m.registers with
    | error fault r => rw [hp] at hx; cases hx
    | ok _ r =>
      rw [hp] at hx
      cases hx
      exact .registers _
  | ret =>
    rw [execute_ret_eq] at hx
    cases hp : Registers.pop m.registers with
    | error fault r => rw [hp] at hx; cases hx
    | ok address r =>
      rw [hp] at hx
      cases hx
      exact .registers _
  | draw x y n =>
    rw [execute_of_block rfl hc] at hx
    cases hx
    exact .drawn _ _
  | decimal x =>
    rw [execute_of_block rfl hc] at hx
    cases hx
    exact .decimal _ _
  | saveBlock x =>
    rw [execute_of_block rfl hc] at hx
    cases hx
    exact .saved _ _
  | loadBlock x =>
    rw [execute_of_block rfl hc] at hx
    cases hx
    exact .registers _
  | random x kk =>
    rw [execute_random] at hx
    cases hx
    exact .random _
  | awaitKey x =>
    cases hl : m.keypad.latched with
    | none =>
      rw [execute_awaitKey_none x hl] at hx
      cases hx
      exact .keyMissing hl
    | some k =>
      rw [execute_awaitKey_some x hl] at hx
      cases hx
      exact .keyTaken hl _
  | skipEqByte | skipNeByte | skipEq | skipNe | skipDown | skipUp =>
    change EStateM.Result.ok () (m.skipIf _) = _ at hx
    rw [skipIf_eq] at hx
    cases hx
    exact .registers _
  | _ =>
    cases hx
    exact .registers _

/-- Only a key wait without a key makes a machine wait, and it does nothing else. -/
theorem Effect.waiting {i : Instruction} (he : Effect m i m') (h : m.awaitingKey = false)
    (h' : m'.awaitingKey = true) :
    (∃ x, i = .awaitKey x) ∧ m' = { m with awaitingKey := true } := by
  cases he with
  | keyMissing hl => exact ⟨⟨_, rfl⟩, rfl⟩
  | registers | cleared | drawn | decimal | saved | random | keyTaken =>
    change m.awaitingKey = true at h'
    rw [h] at h'
    cases h'

/-- Without an obstacle only a call or a return can fail. -/
theorem execute_of_clear_offStack {i : Instruction} (hc : m.obstacle? i = none)
    (hret : i ≠ .ret) (hcall : ∀ a, i ≠ .call a) : ∃ m', m.execute i = .ok () m' := by
  cases i with
  | call a => exact absurd rfl (hcall a)
  | ret => exact absurd rfl hret
  | draw | decimal | saveBlock | loadBlock => exact ⟨_, execute_of_block rfl hc⟩
  | awaitKey x =>
    cases hl : m.keypad.latched with
    | none => exact ⟨_, execute_awaitKey_none x hl⟩
    | some k => exact ⟨_, execute_awaitKey_some x hl⟩
  | _ => exact ⟨_, rfl⟩

/-- On a stack pointer in range an instruction without an obstacle succeeds. -/
theorem execute_of_clear {i : Instruction} (h : 0 ≤ m.registers.sp) (h' : m.registers.sp ≤ 16)
    (hc : m.obstacle? i = none) : ∃ m', m.execute i = .ok () m' := by
  by_cases hret : i = .ret
  · subst hret
    have hentry : m.registers.sp ≠ 0 := by
      simpa [obstacle_ret] using hc
    exact ⟨_, execute_ret (by omega) h'⟩
  · by_cases hcall : ∃ a, i = .call a
    · obtain ⟨a, rfl⟩ := hcall
      have hroom : ¬ 16 ≤ m.registers.sp := by
        simpa [obstacle_call] using hc
      exact ⟨_, execute_call a h (by omega)⟩
    · exact execute_of_clear_offStack hc hret (not_exists.mp hcall)

/-- On a stack pointer in range the obstacles are all the faults there are, and they leave no trace. -/
theorem execute_eq_error_iff (h : 0 ≤ m.registers.sp) (h' : m.registers.sp ≤ 16)
    (i : Instruction) (fault : Fault) :
    m.execute i = .error fault m' ↔ m.obstacle? i = some fault ∧ m' = m := by
  constructor
  · intro hx
    cases ho : m.obstacle? i with
    | none =>
      obtain ⟨after, hafter⟩ := execute_of_clear h h' ho
      rw [hafter] at hx
      cases hx
    | some other =>
      rw [execute_of_obstacle ho] at hx
      cases hx
      exact ⟨rfl, rfl⟩
  · rintro ⟨ho, rfl⟩
    exact execute_of_obstacle ho

/-- An instruction that fails has met its obstacle, or it is a call or a return on a stack pointer
that names no slot. -/
theorem fault_of_execute {i : Instruction} {fault : Fault} (hx : m.execute i = .error fault m') :
    m.obstacle? i = some fault ∧ m' = m ∨ ∃ way position, fault = .noSlot way position ∧
      m' = { m with registers := { m.registers with sp := m'.registers.sp } } := by
  cases ho : m.obstacle? i with
  | some other =>
    rw [execute_of_obstacle ho] at hx
    cases hx
    exact Or.inl ⟨rfl, rfl⟩
  | none =>
    by_cases hret : i = .ret
    · rw [hret, execute_ret_eq] at hx
      cases hp : Registers.pop m.registers with
      | ok address r => rw [hp] at hx; cases hx
      | error other r =>
        rw [hp] at hx
        cases hx
        rcases Registers.pop_eq_error hp with hempty | ⟨rfl, rfl⟩
        · rw [hret, obstacle_ret, if_pos hempty] at ho
          cases ho
        · exact Or.inr ⟨_, _, rfl, rfl⟩
    · by_cases hcall : ∃ a, i = .call a
      · obtain ⟨a, rfl⟩ := hcall
        rw [execute_call_eq] at hx
        cases hp : Registers.push m.registers.pc m.registers with
        | ok _ r => rw [hp] at hx; cases hx
        | error other r =>
          rw [hp] at hx
          cases hx
          rcases Registers.push_eq_error hp with hfull | ⟨rfl, rfl⟩
          · rw [obstacle_call, if_pos hfull] at ho
            cases ho
          · exact Or.inr ⟨_, _, rfl, rfl⟩
      · obtain ⟨after, hafter⟩ := execute_of_clear_offStack ho hret (not_exists.mp hcall)
        rw [hafter] at hx
        cases hx

/-- Wherever the stack pointer may be, a fault leaves everything else as it was. -/
theorem left_of_fault {i : Instruction} {fault : Fault} (hx : m.execute i = .error fault m') :
    m' = { m with registers := { m.registers with sp := m'.registers.sp } } := by
  rcases fault_of_execute hx with ⟨_, rfl⟩ | ⟨_, _, _, hleft⟩
  · rfl
  · exact hleft

end Machine

end Chip8
