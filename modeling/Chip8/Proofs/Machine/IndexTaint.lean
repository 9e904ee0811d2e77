import Chip8.Proofs.Latest
import Chip8.Proofs.Machine.Account
import Chip8.Proofs.Machine.Lockstep

/-!
# What the block transfers leave in the index register

Machines that differ in `legacyStore` differ in what a block transfer leaves in the index register.
From there on the register is tainted, until an instruction loads it anew. The difference goes
nowhere else as long as no instruction reads the register while it is tainted.
-/
namespace Chip8

theorem Registers.offStack_index (index : Int) : OffStack fun r => { r with i := index } where
  sp _ := rfl
  pc _ := rfl
  stack _ := rfl
  comm _ _ _ := rfl

namespace Instruction

def readsIndex : Instruction → Bool
  | .draw .. | .addIndex _ | .decimal _ | .saveBlock _ | .loadBlock _ => true
  | _ => false

def taints (tainted : Bool) : Instruction → Bool
  | .saveBlock _ | .loadBlock _ => true
  | .loadIndex _ | .glyph _ => false
  | _ => tainted

end Instruction

namespace Machine

variable {m n : Machine} {legacy tainted : Bool} {i : Instruction} {op : Operation}
  {ops : List Operation} {k : Nat}

def taintAfter (tainted : Bool) : Machine × Operation → Bool
  | (m, .step) =>
    match m.executed? with
    | some i => i.taints tainted
    | none => tainted
  | _ => tainted

/-- A block has been transferred since the index register was loaded last. -/
def indexTainted (m : Machine) (ops : List Operation) : Bool :=
  (m.trace ops).foldl taintAfter false

def variant (m : Machine) (legacyStore : Bool) (index : Int) : Machine :=
  { m with legacyStore := legacyStore, registers := { m.registers with i := index } }

/-- The second machine has the flag `legacy`. The machines agree in all else, but for the index
register while that is tainted. -/
structure Kin (legacy tainted : Bool) (m n : Machine) : Prop where
  apart : n = m.variant legacy n.registers.i
  index : tainted = false → n.registers.i = m.registers.i

theorem unseen_kin (legacy tainted : Bool) : Unseen (Kin legacy tainted) where
  memory h := congrArg (·.memory) h.apart
  pc h := congrArg (·.registers.pc) h.apart
  awaitingKey h := congrArg (·.awaitingKey) h.apart
  begun h := ⟨congrArg Machine.begun h.apart, h.index⟩
  counted h := ⟨congrArg Machine.counted h.apart, h.index⟩

/-- An instruction passes the taint on, unless it loads the index register or reads it. -/
theorem execute_kin (h : Kin legacy tainted m n) (hi : tainted = true → i.readsIndex = false) :
    Matched (Kin legacy tainted) (Kin legacy (i.taints tainted)) (m.execute i) (n.execute i) := by
  rcases h with ⟨happart, hindex⟩
  rw [happart]
  generalize n.registers.i = index at hindex
  have hread : i.readsIndex = true → index = m.registers.i := by
    intro hr
    apply hindex
    cases ht : tainted with
    | false => rfl
    | true => exact absurd hr (by rw [hi ht]; exact Bool.false_ne_true)
  have hobstacle : (m.variant legacy index).obstacle? i = m.obstacle? i := by
    cases i with
    | draw | decimal | saveBlock | loadBlock =>
      obtain rfl := hread rfl
      rfl
    | _ => rfl
  have hstack := Registers.offStack_index index
  refine matched_of_clear ⟨rfl, hindex⟩ hobstacle fun ho ho' => ?_
  cases i with
  | draw | decimal =>
    obtain rfl := hread rfl
    exact matched_block rfl ho ho' ⟨rfl, fun _ => rfl⟩
  | saveBlock | loadBlock =>
    obtain rfl := hread rfl
    exact matched_block rfl ho ho' ⟨rfl, fun ht => nomatch ht⟩
  | addIndex x =>
    obtain rfl := hread rfl
    exact .ok () ⟨rfl, fun _ => rfl⟩
  | loadIndex | glyph => exact .ok () ⟨rfl, fun _ => rfl⟩
  | call a =>
    cases tainted with
    | false =>
      obtain rfl := hindex rfl
      exact matched_call_of_eq rfl (fun _ => ⟨rfl, fun _ => rfl⟩) fun _ => ⟨rfl, fun _ => rfl⟩
    | true =>
      apply matched_call (hstack.push m.registers m.registers.pc)
      · rintro r - rfl
        exact ⟨rfl, fun ht => nomatch ht⟩
      · rintro r - rfl
        exact ⟨rfl, fun ht => nomatch ht⟩
  | ret =>
    cases tainted with
    | false =>
      obtain rfl := hindex rfl
      exact matched_ret_of_eq rfl (fun _ => ⟨rfl, fun _ => rfl⟩) fun _ _ => ⟨rfl, fun _ => rfl⟩
    | true =>
      apply matched_ret (hstack.pop m.registers)
      · rintro r - rfl
        exact ⟨rfl, fun ht => nomatch ht⟩
      · rintro r - address rfl
        exact ⟨rfl, fun ht => nomatch ht⟩
  | awaitKey x => exact matched_awaitKey rfl ⟨rfl, hindex⟩ fun _ => ⟨rfl, hindex⟩
  | skipEqByte | skipNeByte | skipEq | skipNe | skipDown | skipUp =>
    exact matched_skipIf fun _ => ⟨rfl, hindex⟩
  | _ => exact .ok () ⟨rfl, hindex⟩

theorem taintAfter_of_executed (h : m.executed? = some i) :
    taintAfter tainted (m, .step) = i.taints tainted := by
  simp only [taintAfter, h]

theorem taintAfter_of_idle (h : m.executed? = none) :
    taintAfter tainted (m, .step) = tainted := by
  simp only [taintAfter, h]

theorem step_kin (h : Kin legacy tainted m n)
    (hi : tainted = true → ∀ i, m.pending? = some i → i.readsIndex = false) :
    n.step.report = m.step.report ∧
      Kin legacy (taintAfter tainted (m, .step)) m.step.machine n.step.machine := by
  have hunseen := unseen_kin legacy tainted
  have hmatched : ∀ i : Instruction, m.memory.fetch m.registers.pc = .ok i.word →
      Matched (Kin legacy tainted) (Kin legacy (i.taints tainted)) (m.begun.execute i) (n.begun.execute i) := by
    intro i hw
    apply execute_kin (hunseen.begun h)
    intro ht
    exact hi ht i (pending?_eq_some_iff.mpr hw)
  obtain ⟨hreport, hpaired⟩ := hunseen.step_paired (fun i => unseen_kin legacy (i.taints tainted)) h hmatched
  refine ⟨hreport, ?_⟩
  cases hpaired with
  | faulted hout h' =>
    rw [taintAfter_of_idle (executed?_of_error hout)]
    exact h'
  | @carried i m' hw hx hs hout h' =>
    have hp := pending?_eq_some_iff.mpr hw
    cases hk : m'.awaitingKey with
    | false =>
      rw [progress_eq_executed_iff.mpr hk] at hout
      rw [taintAfter_of_executed ((executed?_of_executed hout).trans hp)]
      exact h'
    | true =>
      -- A stall carries nothing out, and it taints nothing.
      obtain ⟨⟨x, rfl⟩, -⟩ := (effect_of_execute hx).waiting rfl hk
      have hstall : m.step.report.outcome = .ok .awaitingKey := by
        rw [hout]
        simp only [progress, hk, if_true]
      rw [taintAfter_of_idle (executed?_of_stall hstall)]
      exact h'

theorem perform_kin (h : Kin legacy tainted m n)
    (hi : op = .step → tainted = true → ∀ i, m.pending? = some i → i.readsIndex = false) :
    Kin legacy (taintAfter tainted (m, op)) (m.perform op) (n.perform op) := by
  cases op with
  | step => exact (step_kin h (hi rfl)).2
  | load program =>
    have hmemory : n.memory = m.memory := congrArg (·.memory) h.apart
    rw [perform_load, perform_load, hmemory]
    exact ⟨congrArg (fun n => { n with memory := stateOf (Memory.load program m.memory) }) h.apart,
      h.index⟩
  | tick => exact ⟨congrArg Machine.tick h.apart, h.index⟩
  | key op => exact ⟨congrArg (·.keyed op) h.apart, h.index⟩
  | display op => exact ⟨congrArg (·.perform (.display op)) h.apart, h.index⟩
  | render => exact ⟨congrArg Machine.presented h.apart, h.index⟩

/-- No instruction of the run reads the index register while it is tainted. -/
def IndexUnread (m : Machine) (tainted : Bool) (ops : List Operation) : Prop :=
  ∀ k, ops[k]? = some .step → (m.trace (ops.take k)).foldl taintAfter tainted = true →
    ∀ i, (m.replay (ops.take k)).pending? = some i → i.readsIndex = false

theorem IndexUnread.head (h : m.IndexUnread tainted (op :: ops)) (hop : op = .step)
    (ht : tainted = true) : ∀ i, m.pending? = some i → i.readsIndex = false :=
  h 0 (congrArg some hop) ht

theorem IndexUnread.tail (h : m.IndexUnread tainted (op :: ops)) :
    (m.perform op).IndexUnread (taintAfter tainted (m, op)) ops :=
  fun k => h (k + 1)

theorem IndexUnread.take (h : m.IndexUnread tainted ops) (k : Nat) :
    m.IndexUnread tainted (ops.take k) := by
  intro j hop
  have hj := lt_length_of_getElem? hop
  rw [List.length_take] at hj
  rw [List.getElem?_take_of_lt (by omega)] at hop
  rw [List.take_take, Nat.min_eq_left (by omega)]
  exact h j hop

theorem replay_kin (h : Kin legacy tainted m n) (hi : m.IndexUnread tainted ops) :
    Kin legacy ((m.trace ops).foldl taintAfter tainted) (m.replay ops) (n.replay ops) := by
  induction ops generalizing m n tainted with
  | nil => exact h
  | cons op rest ih => exact ih (perform_kin h hi.head) hi.tail

theorem readsIndex_word (h : i.readsIndex = true) : ∃ x y z : Nibble,
    i.word ∈ [Instruction.nibbles 0xD x y z, Instruction.nibbles 0xF x 0x1 0xE,
      Instruction.nibbles 0xF x 0x3 0x3, Instruction.nibbles 0xF x 0x5 0x5,
      Instruction.nibbles 0xF x 0x6 0x5] := by
  cases i with
  | draw x y n => exact ⟨x, y, n, by simp [Instruction.word]⟩
  | addIndex x | decimal x | saveBlock x | loadBlock x =>
    exact ⟨x, x, x, by simp [Instruction.word]⟩
  | _ => cases h

/-- Machines that agree but for the flag stay so, but for a tainted index register, and their steps
report the same, unless a word `Dxyn`, `Fx1E`, `Fx33`, `Fx55` or `Fx65` is fetched while the register
is tainted. -/
theorem legacyStore_leaks_through_index (m n : Machine) (ops : List Operation)
    (happart : n = { m with legacyStore := n.legacyStore })
    (hunread : ∀ k w, ops[k]? = some .step → m.indexTainted (ops.take k) = true →
      (m.replay (ops.take k)).memory.fetch (m.replay (ops.take k)).registers.pc = .ok w →
      ∀ x y z : Nibble, w ∉ [Instruction.nibbles 0xD x y z, Instruction.nibbles 0xF x 0x1 0xE,
        Instruction.nibbles 0xF x 0x3 0x3, Instruction.nibbles 0xF x 0x5 0x5,
        Instruction.nibbles 0xF x 0x6 0x5]) :
    ∀ k,
      let m' := m.replay (ops.take k)
      let n' := n.replay (ops.take k)
      n' = { m' with
        legacyStore := n.legacyStore
        registers := { m'.registers with i := n'.registers.i } } ∧
      (m.indexTainted (ops.take k) = false → n'.registers.i = m'.registers.i) ∧
      (ops[k]? = some .step → n'.step.report = m'.step.report) := by
  have hindex : n.registers.i = m.registers.i := congrArg (·.registers.i) happart
  have hkin : Kin n.legacyStore false m n := by
    refine ⟨?_, fun _ => hindex⟩
    rw [hindex]
    exact happart
  have hguard : m.IndexUnread false ops := by
    intro k hop ht i hp
    cases hr : i.readsIndex with
    | false => rfl
    | true =>
      obtain ⟨x, y, z, hword⟩ := readsIndex_word hr
      exact absurd hword (hunread k i.word hop ht (pending?_eq_some_iff.mp hp) x y z)
  intro k m' n'
  have h : Kin n.legacyStore (m.indexTainted (ops.take k)) m' n' := replay_kin hkin (hguard.take k)
  exact ⟨h.apart, h.index, fun hop => (step_kin h (hguard k hop)).1⟩

/-- Two registers are stored, and the index register is loaded anew before a sprite is drawn. -/
theorem legacyStore_leaks_until_loaded :
    let m := fresh true 0
    let n := fresh false 0
    let ops : List Operation :=
      [.load [0xF1, 0x55, 0xA3, 0x00, 0xD0, 0x15], .step, .tick, .step, .key (.press 3), .step]
    n = { m with legacyStore := false } ∧
      ((m.replay (ops.take 2)).registers.i = 2 ∧ (n.replay (ops.take 2)).registers.i = 0) ∧
      (n.replay (ops.take 5)).registers.i = (m.replay (ops.take 5)).registers.i ∧
      (n.replay (ops.take 5)).step.report = (m.replay (ops.take 5)).step.report := by
  intro m n ops
  have htainted : ∀ k < 6, ops[k]? = some .step → m.indexTainted (ops.take k) = true → k = 3 := by
    decide +kernel
  have hlaw := legacyStore_leaks_through_index m n ops rfl (by
    intro k w hop ht hw x y z
    obtain rfl := htainted k (lt_length_of_getElem? hop) hop ht
    obtain rfl : w = 0xA300 := by
      rw [(Memory.fetch_eq_ok hw).2]
      decide +kernel
    simp [Instruction.nibbles]
    omega)
  obtain ⟨-, hindex, hreport⟩ := hlaw 5
  exact ⟨rfl, by decide +kernel, hindex (by decide +kernel), hreport rfl⟩

end Machine

end Chip8
