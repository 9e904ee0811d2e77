import Chip8.Proofs.Machine.Account
import Chip8.Proofs.Machine.KeyWait

/-!
# The random bytes of a history

A generator stands for a stream of bytes. The account of a history is the number of random
instructions that were carried out. It is the place in the stream where the generator stands, and
nothing else moves the generator, so each of these instructions gets the next byte of the stream.
-/
namespace Chip8

namespace Random

def after (r : Random) : Nat → Random
  | 0 => r
  | n + 1 => (r.after n).nextByte.1

def stream (r : Random) (j : Nat) : UInt8 := (r.after j).nextByte.2

theorem after_succ (r : Random) (n : Nat) : r.after (n + 1) = r.nextByte.1.after n := by
  induction n with
  | zero => rfl
  | succ n ih => exact congrArg (fun r => r.nextByte.1) ih

theorem stream_succ (r : Random) (j : Nat) : r.stream (j + 1) = r.nextByte.1.stream j :=
  congrArg (fun r => r.nextByte.2) (r.after_succ j)

theorem take_eq_map_stream (r : Random) (n : Nat) : take n r = (List.range n).map r.stream := by
  induction n generalizing r with
  | zero => rfl
  | succ n ih =>
    rw [List.range_succ_eq_map, List.map_cons, List.map_map]
    have htail : List.map (r.stream ∘ Nat.succ) (List.range n) = take n r.nextByte.1 := by
      rw [ih]
      exact List.map_congr_left fun j _ => r.stream_succ j
    rw [htail]
    rfl

end Random

def Instruction.isRandom : Instruction → Bool
  | .random .. => true
  | _ => false

theorem Instruction.eq_random {i : Instruction} (h : i.isRandom = true) :
    ∃ x kk, i = .random x kk := by
  cases i with
  | random x kk => exact ⟨x, kk, rfl⟩
  | _ => cases h

namespace Machine

variable {m m' : Machine} {i : Instruction} {x : Nibble} {kk : UInt8} {op : Operation}

def takesRandom : Machine × Operation → Bool
  | (m, .step) => m.executed?.any Instruction.isRandom
  | _ => false

def randomCount (m : Machine) (ops : List Operation) : Nat := (m.trace ops).countP takesRandom

theorem Effect.keeps_random (he : Effect m i m') (hi : i.isRandom = false) : m'.random = m.random := by
  cases he with
  | random => cases hi
  | registers | cleared | drawn | decimal | saved | keyTaken | keyMissing => rfl

theorem step_of_random (h : m.executed? = some (.random x kk)) :
    m.step.machine = ({ m.begun with random := m.random.nextByte.1 }.setV x
      (m.random.nextByte.2 &&& kk).toNat).advance.counted := by
  obtain ⟨m', hx, -, hs⟩ := step_of_executed h
  rw [execute_random] at hx
  cases hx
  exact hs

/-- Nothing is in the way of a random instruction. -/
theorem executed?_of_random (hr : m.InRange) (hp : m.pending? = some (.random x kk)) :
    m.executed? = some (.random x kk) :=
  executed?_of_clear hr.sp_nonneg hr.sp_le hp rfl fun _ hi => nomatch hi

theorem step_keeps_random (h : takesRandom (m, .step) = false) :
    m.step.machine.random = m.random := by
  have ht := step_turn m
  generalize m.step.machine = after at ht
  cases ht with
  | idle => rfl
  | carried hi hx =>
    simp only [takesRandom, hi, Option.any_some] at h
    exact (effect_of_execute hx).keeps_random h

theorem takesRandom_iff : takesRandom (m, op) = true ↔
    op = .step ∧ ∃ x kk, m.executed? = some (.random x kk) := by
  constructor
  · intro h
    cases op with
    | step =>
      cases hi : m.executed? with
      | none =>
        simp only [takesRandom, hi] at h
        cases h
      | some i =>
        simp only [takesRandom, hi] at h
        obtain ⟨x, kk, rfl⟩ := i.eq_random h
        exact ⟨rfl, x, kk, rfl⟩
    | load | tick | key | display | render => cases h
  · rintro ⟨rfl, x, kk, h⟩
    simp only [takesRandom, h]
    rfl

theorem perform_keeps_random (h : takesRandom (m, op) = false) :
    (m.perform op).random = m.random := by
  cases op with
  | step => exact step_keeps_random h
  | load program => exact load_preserves (P := fun m' => m'.random = m.random) rfl fun _ => rfl
  | tick | key | display | render => rfl

theorem perform_takes_random (h : takesRandom (m, op) = true) :
    (m.perform op).random = m.random.nextByte.1 := by
  obtain ⟨rfl, x, kk, hx⟩ := takesRandom_iff.mp h
  exact congrArg (·.random) (step_of_random hx)

/-- The generator stands behind the bytes that were taken. -/
theorem replay_random (m : Machine) (ops : List Operation) :
    (m.replay ops).random = m.random.after (m.randomCount ops) := by
  induction ops generalizing m with
  | nil => rfl
  | cons op rest ih =>
    have hcount : m.randomCount (op :: rest) =
        (m.perform op).randomCount rest + if takesRandom (m, op) then 1 else 0 :=
      List.countP_cons
    have hrest : (m.replay (op :: rest)).random = _ := ih (m.perform op)
    rw [hrest, hcount]
    cases h : takesRandom (m, op) with
    | true =>
      rw [perform_takes_random h]
      exact (m.random.after_succ _).symm
    | false =>
      rw [perform_keeps_random h]
      rfl

/-- On a machine with a seed, the random instruction that is carried out as number `j` loads byte `j`
of the stream of that seed, masked by its operand. No other operation moves the generator, be it a
step that stalls or faults. -/
theorem random_reproducible (seed : Int) (m : Machine) (hm : m.random = Random.ofSeed seed)
    (ops : List Operation) :
    let b := (Random.ofSeed seed).stream
    let m' := m.replay ops
    (∀ n, Random.take n (Random.ofSeed seed) = (List.range n).map b) ∧
    (∀ x kk, m'.executed? = some (.random x kk) →
      m'.step.machine.v x = (b (m.randomCount ops) &&& kk).toNat) ∧
    (∀ op, (op = .step → ∀ x kk, m'.executed? ≠ some (.random x kk)) →
      (m'.perform op).random = m'.random) := by
  intro b m'
  refine ⟨Random.take_eq_map_stream _, ?_, ?_⟩
  · intro x kk hx
    have hplace : m'.random = (Random.ofSeed seed).after (m.randomCount ops) := by
      rw [← hm]
      exact replay_random m ops
    rw [step_of_random hx, hplace]
    exact (get_set m'.registers.v x x _).trans (if_pos rfl)
  · intro op hop
    apply perform_keeps_random
    rw [Bool.eq_false_iff]
    intro h
    obtain ⟨rfl, x, kk, hx⟩ := takesRandom_iff.mp h
    exact hop rfl x kk hx

/-- A fault, a load, a key wait and a random instruction come first. -/
theorem random_reproducible_second_byte :
    let m := fresh true 7
    let before : List Operation := [.step, .load [0xF1, 0x0A, 0xC2, 0xFF, 0xC3, 0x0F], .step, .tick,
      .key (.press 4), .step]
    let m' := m.replay (before ++ [.step])
    m'.step.machine.v 3 = ((Random.ofSeed 7).stream 1 &&& 0x0F).toNat ∧
      m'.tick.random = m'.random := by
  intro m before m'
  have hfirst : (m.replay before).executed? = some (.random 2 0xFF) :=
    executed?_of_random (reachable_inRange true 7 _) (by decide +kernel)
  -- The bytes stay symbols: no step of this proof evaluates the generator.
  have hlast : ∀ m₁ : Machine, m₁.replay [.step] = m₁.step.machine := fun _ => rfl
  have hm' : m' = (m.replay before).step.machine :=
    (replay_append m before [.step]).trans (hlast _)
  have hsecond : m'.executed? = some (.random 3 0x0F) := by
    have hp : m'.pending? = some (.random 3 0x0F) := by
      rw [hm', step_of_random hfirst]
      decide +kernel
    exact executed?_of_random (reachable_inRange true 7 _) hp
  have hcount : m.randomCount (before ++ [.step]) = 1 := by
    unfold randomCount
    rw [trace_append, List.countP_append]
    have hnone : (m.trace before).countP takesRandom = 0 := by decide +kernel
    have hone : [(m.replay before, Operation.step)].countP takesRandom = 1 := by
      rw [List.countP_singleton, if_pos (takesRandom_iff.mpr ⟨rfl, 2, 0xFF, hfirst⟩)]
    rw [hnone]
    exact congrArg (0 + ·) hone
  obtain ⟨-, hbyte, hkept⟩ := random_reproducible 7 m rfl (before ++ [.step])
  have hloaded := hbyte 3 0x0F hsecond
  rw [hcount] at hloaded
  exact ⟨hloaded, hkept .tick nofun⟩

end Machine

end Chip8
