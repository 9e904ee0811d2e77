import Mathlib.Data.List.Basic
import Mathlib.Data.List.Induction
import Chip8.Proofs.Latest
import Chip8.Proofs.Machine.Account
import Chip8.Proofs.Machine.KeyWait

/-!
# The keypad over a history

A history is read as a sequence of key events, one for each operation. A key wait that is carried
out is an event of its own, for it takes the latched key. The latch and the keys follow from the
events alone, and so does which press a wait is served by.
-/
namespace Chip8

inductive KeyEvent where
  | pressed (k : Nibble)
  | released (k : Nibble)
  | releasedAll
  | cleared
  | taken (x : Nibble)
  | other
  deriving DecidableEq, Repr

theorem Nibble.val_lt (k : Nibble) : (k : Nat) < 16 := k.isLt

namespace KeyEvent

def isPress : KeyEvent → Bool
  | .pressed _ => true
  | _ => false

/-- The events after which nothing before them can be in the latch. A release is none of them. -/
def settles : KeyEvent → Bool
  | .pressed _ | .releasedAll | .cleared | .taken _ => true
  | .released _ | .other => false

def moves (k : Nibble) : KeyEvent → Bool
  | .pressed j | .released j => j == k
  | .releasedAll => true
  | .cleared | .taken _ | .other => false

def act (p : Keypad) : KeyEvent → Keypad
  | .pressed k => ⟨p.down.set k true k.val_lt, some k⟩
  | .released k => { p with down := p.down.set k false k.val_lt }
  | .releasedAll => .released
  | .cleared | .taken _ => { p with latched := none }
  | .other => p

end KeyEvent

/-- Whatever number a key is given by, only its value modulo sixteen counts. -/
theorem Keypad.key_eq_mod (z : Int) : ((Keypad.key z : Nat) : Int) = z % 16 :=
  Int.toNat_of_nonneg (Int.emod_nonneg z (by decide))

theorem Keypad.key_eq_iff {z : Int} {k : Nibble} : Keypad.key z = k ↔ z % 16 = (k : Nat) := by
  rw [← Keypad.key_eq_mod, Fin.ext_iff, Int.natCast_inj]

def KeyOp.event : KeyOp → KeyEvent
  | .press k => .pressed (Keypad.key k)
  | .release k => .released (Keypad.key k)
  | .set k isDown => if isDown then .pressed (Keypad.key k) else .released (Keypad.key k)
  | .releaseAll => .releasedAll
  | .clearLatch => .cleared

theorem Keypad.apply_eq_act (p : Keypad) (op : KeyOp) : p.apply op = KeyEvent.act p op.event := by
  cases op with
  | press => rfl
  | release => rfl
  | set k isDown => cases isDown <;> rfl
  | releaseAll => rfl
  | clearLatch => rfl

theorem KeyOp.event_ne_taken (op : KeyOp) (x : Nibble) : op.event ≠ .taken x := by
  cases op with
  | set k isDown => cases isDown <;> simp [KeyOp.event]
  | press | release | releaseAll | clearLatch => simp [KeyOp.event]

theorem KeyOp.event_eq_pressed_iff {op : KeyOp} {k : Nibble} : op.event = .pressed k ↔
    ∃ z : Int, (op = .press z ∨ op = .set z true) ∧ z % 16 = (k : Nat) := by
  cases op with
  | press z => simp [KeyOp.event, Keypad.key_eq_iff]
  | set z isDown => cases isDown <;> simp [KeyOp.event, Keypad.key_eq_iff]
  | release | releaseAll | clearLatch => simp [KeyOp.event]

theorem KeyOp.event_eq_released_iff {op : KeyOp} {k : Nibble} : op.event = .released k ↔
    ∃ z : Int, (op = .release z ∨ op = .set z false) ∧ z % 16 = (k : Nat) := by
  cases op with
  | release z => simp [KeyOp.event, Keypad.key_eq_iff]
  | set z isDown => cases isDown <;> simp [KeyOp.event, Keypad.key_eq_iff]
  | press | releaseAll | clearLatch => simp [KeyOp.event]

section Laws

variable {es : List KeyEvent} {k : Nibble}

theorem latched_act_iff (p : Keypad) (e : KeyEvent) :
    (KeyEvent.act p e).latched = some k ↔
      if e.settles = true then KeyEvent.pressed k = e else p.latched = some k := by
  cases e with
  | pressed j =>
    simp only [KeyEvent.act, KeyEvent.settles, if_true, Option.some.injEq, KeyEvent.pressed.injEq]
    exact eq_comm
  | released => exact Iff.rfl
  | releasedAll => simp [KeyEvent.act, KeyEvent.settles, Keypad.released]
  | cleared => simp [KeyEvent.act, KeyEvent.settles]
  | taken => simp [KeyEvent.act, KeyEvent.settles]
  | other => exact Iff.rfl

theorem down_act_iff (p : Keypad) (e : KeyEvent) :
    (KeyEvent.act p e).down.get k = true ↔
      if e.moves k = true then KeyEvent.pressed k = e else p.down.get k = true := by
  cases e with
  | pressed j =>
    simp only [KeyEvent.act, KeyEvent.moves, get_set, beq_iff_eq, KeyEvent.pressed.injEq]
    by_cases h : j = k
    · simp [h]
    · simp [h]
  | released j =>
    simp only [KeyEvent.act, KeyEvent.moves, get_set, beq_iff_eq]
    by_cases h : j = k
    · simp [h]
    · simp [h]
  | releasedAll => simp [KeyEvent.act, KeyEvent.moves, Keypad.released]
  | cleared => exact Iff.rfl
  | taken => exact Iff.rfl
  | other => exact Iff.rfl

theorem latched_foldl_act_iff : (es.foldl KeyEvent.act .released).latched = some k ↔
    ∃ j, LatestAt KeyEvent.settles es j (.pressed k) := by
  induction es using List.reverseRecOn with
  | nil => simp [not_latestAt_nil, Keypad.released]
  | append_singleton es e ih =>
    rw [List.foldl_concat, latched_act_iff, ih, exists_latestAt_concat]

theorem down_foldl_act_iff : (es.foldl KeyEvent.act .released).down.get k = true ↔
    ∃ j, LatestAt (KeyEvent.moves k) es j (.pressed k) := by
  induction es using List.reverseRecOn with
  | nil => simp [not_latestAt_nil, Keypad.released]
  | append_singleton es e ih =>
    rw [List.foldl_concat, down_act_iff, ih, exists_latestAt_concat]

end Laws

namespace Machine

variable {m m' : Machine} {i : Instruction} {x k : Nibble}

/-- What an operation is to the keypad of the machine that meets it. -/
def keyEvent : Machine × Operation → KeyEvent
  | (_, .key op) => op.event
  | (m, .step) =>
    match m.executed? with
    | some (.awaitKey x) => .taken x
    | _ => .other
  | _ => .other

theorem keyEvent_eq_taken_iff {op : Operation} :
    keyEvent (m, op) = .taken x ↔ op = .step ∧ m.executed? = some (.awaitKey x) := by
  constructor
  · intro h
    cases op with
    | key op => exact absurd h (op.event_ne_taken x)
    | step =>
      unfold keyEvent at h
      dsimp only at h
      split at h
      · rename_i y hy
        obtain rfl := KeyEvent.taken.inj h
        exact ⟨rfl, hy⟩
      · cases h
    | load | tick | display | render => cases h
  · rintro ⟨rfl, hx⟩
    simp only [keyEvent, hx]

/-- An event that moves the keypad and takes nothing from it comes from outside the machine. -/
theorem keyEvent_eq_iff {e : KeyEvent} {op : Operation} (hother : e ≠ .other)
    (htaken : ∀ x, e ≠ .taken x) : keyEvent (m, op) = e ↔ ∃ key, op = .key key ∧ key.event = e := by
  cases op with
  | key op => simp [keyEvent]
  | step =>
    have hne : keyEvent (m, .step) ≠ e := by
      unfold keyEvent
      dsimp only
      split
      · exact (htaken _).symm
      · exact hother.symm
    simp [hne]
  | load | tick | display | render => simp [keyEvent, hother.symm]

def keyEvents (m : Machine) (ops : List Operation) : List KeyEvent := (m.trace ops).map keyEvent

theorem Effect.keypad (he : Effect m i m') (hi : ∀ x, i ≠ .awaitKey x) :
    m'.keypad = m.keypad := by
  cases he with
  | keyTaken => exact absurd rfl (hi _)
  | keyMissing => exact absurd rfl (hi _)
  | registers | cleared | drawn | decimal | saved | random => rfl

theorem step_of_taken (h : m.executed? = some (.awaitKey x)) :
    ∃ k, m.keypad.latched = some k ∧ m.step.machine.keypad = m.keypad.clearLatch ∧
      m.step.machine.v x = k := by
  obtain ⟨m', hx, hk, hs⟩ := step_of_executed h
  rw [hs]
  cases hl : m.keypad.latched with
  | none =>
    rw [execute_awaitKey_none (m := m.begun) x hl] at hx
    cases hx
    cases hk
  | some k =>
    rw [execute_awaitKey_some (m := m.begun) x hl] at hx
    cases hx
    refine ⟨k, rfl, rfl, ?_⟩
    exact (get_set m.registers.v x x (k : Int)).trans (if_pos rfl)

theorem step_keypad (m : Machine) :
    m.step.machine.keypad = KeyEvent.act m.keypad (keyEvent (m, .step)) := by
  unfold keyEvent
  dsimp only
  split
  · rename_i x hx
    obtain ⟨k, _, hkeypad, _⟩ := step_of_taken hx
    exact hkeypad
  · rename_i hno
    have ht := step_turn m
    generalize m.step.machine = after at ht
    cases ht with
    | idle => rfl
    | carried hi hx =>
      refine (effect_of_execute hx).keypad ?_
      rintro x rfl
      exact hno x hi

theorem perform_keypad (m : Machine) (op : Operation) :
    (m.perform op).keypad = KeyEvent.act m.keypad (keyEvent (m, op)) := by
  cases op with
  | load program => exact load_preserves (P := fun m' => m'.keypad = m.keypad) rfl fun _ => rfl
  | step => exact step_keypad m
  | tick => rfl
  | key op => exact Keypad.apply_eq_act m.keypad op
  | display => rfl
  | render => rfl

theorem replay_keypad (m : Machine) (ops : List Operation) :
    (m.replay ops).keypad = (m.keyEvents ops).foldl KeyEvent.act m.keypad := by
  unfold keyEvents
  rw [List.foldl_map]
  refine account_invariant (R := fun m p => m.keypad = p) ?_ rfl
  rintro op - m p rfl
  exact perform_keypad m op

theorem keyEvents_take (m : Machine) (ops : List Operation) (n : Nat) :
    m.keyEvents (ops.take n) = (m.keyEvents ops).take n := by
  unfold keyEvents
  rw [trace_take, List.map_take]

section Released

variable {ops : List Operation} {s j : Nat}

theorem latched_replay_iff (hm : m.keypad = .released) :
    (m.replay ops).keypad.latched = some k ↔
      ∃ j, LatestAt KeyEvent.settles (m.keyEvents ops) j (.pressed k) := by
  rw [replay_keypad, hm]
  exact latched_foldl_act_iff

theorem down_replay_iff (hm : m.keypad = .released) :
    (m.replay ops).keypad.down.get k = true ↔
      ∃ j, LatestAt (KeyEvent.moves k) (m.keyEvents ops) j (.pressed k) := by
  rw [replay_keypad, hm]
  exact down_foldl_act_iff

theorem taken_at_iff : (m.keyEvents ops)[s]? = some (.taken x) ↔
    ops[s]? = some .step ∧ (m.replay (ops.take s)).executed? = some (.awaitKey x) := by
  unfold keyEvents
  rw [List.getElem?_map, getElem?_trace]
  constructor
  · intro h
    obtain ⟨met, hmet, he⟩ := Option.map_eq_some_iff.mp h
    obtain ⟨op, hop, rfl⟩ := Option.map_eq_some_iff.mp hmet
    obtain ⟨rfl, hx⟩ := keyEvent_eq_taken_iff.mp he
    exact ⟨hop, hx⟩
  · rintro ⟨hop, hx⟩
    rw [hop]
    exact congrArg some (keyEvent_eq_taken_iff.mpr ⟨rfl, hx⟩)

theorem event_at_iff {e : KeyEvent} (hother : e ≠ .other) (htaken : ∀ x, e ≠ .taken x) :
    (m.keyEvents ops)[j]? = some e ↔ ∃ key, ops[j]? = some (.key key) ∧ key.event = e := by
  unfold keyEvents
  rw [List.getElem?_map, getElem?_trace, Option.map_map, Option.map_eq_some_iff]
  constructor
  · rintro ⟨op, hop, he⟩
    obtain ⟨key, rfl, hkey⟩ := (keyEvent_eq_iff hother htaken).mp he
    exact ⟨key, hop, hkey⟩
  · rintro ⟨key, hop, hkey⟩
    exact ⟨_, hop, hkey⟩

theorem pressed_at_iff : (m.keyEvents ops)[j]? = some (.pressed k) ↔
    ∃ z : Int, (ops[j]? = some (.key (.press z)) ∨ ops[j]? = some (.key (.set z true))) ∧
      z % 16 = (k : Nat) := by
  have hother : KeyEvent.pressed k ≠ .other := nofun
  simp only [event_at_iff hother fun _ => nofun, KeyOp.event_eq_pressed_iff]
  grind

theorem released_at_iff : (m.keyEvents ops)[j]? = some (.released k) ↔
    ∃ z : Int, (ops[j]? = some (.key (.release z)) ∨ ops[j]? = some (.key (.set z false))) ∧
      z % 16 = (k : Nat) := by
  have hother : KeyEvent.released k ≠ .other := nofun
  simp only [event_at_iff hother fun _ => nofun, KeyOp.event_eq_released_iff]
  grind

theorem latest_press_of_taken (hm : m.keypad = .released)
    (h : (m.keyEvents ops)[s]? = some (.taken x)) :
    ∃ j k, LatestAt KeyEvent.settles ((m.keyEvents ops).take s) j (.pressed k) ∧
      (m.replay (ops.take (s + 1))).v x = k := by
  obtain ⟨hop, hx⟩ := taken_at_iff.mp h
  obtain ⟨k, hl, _, hv⟩ := step_of_taken hx
  obtain ⟨j, hj⟩ := (latched_replay_iff hm).mp hl
  rw [keyEvents_take] at hj
  refine ⟨j, k, hj, ?_⟩
  rw [replay_take_succ m hop]
  exact hv

theorem taken_lt_press {es : List KeyEvent} {s' : Nat} {y : Nibble}
    (hj : LatestAt KeyEvent.settles (es.take s) j (.pressed k)) (hs : s' < s)
    (h : es[s']? = some (.taken y)) : s' < j := by
  have h' : (es.take s)[s']? = some (.taken y) := by
    rw [List.getElem?_take_of_lt hs]
    exact h
  rcases Nat.lt_trichotomy s' j with hlt | rfl | hgt
  · exact hlt
  · cases hj.here.symm.trans h'
  · cases hj.later s' _ hgt h'

theorem press_lt_taken {es : List KeyEvent} {e : KeyEvent} {counts : KeyEvent → Bool}
    (hj : LatestAt counts (es.take s) j e) : j < s := by
  have := lt_length_of_getElem? hj.here
  rw [List.length_take] at this
  omega

theorem settles_of_isPress (e : KeyEvent) (h : e.isPress = true) : e.settles = true := by
  cases e with
  | pressed => rfl
  | released | releasedAll | cleared | taken | other => cases h

/-- A press that is still latched when a key wait comes up serves it. -/
theorem taken_of_latched (hm : m.keypad = .released)
    (hj : LatestAt KeyEvent.settles ((m.keyEvents ops).take s) j (.pressed k))
    (hop : ops[s]? = some .step) (hx : (m.replay (ops.take s)).pending? = some (.awaitKey x)) :
    (m.keyEvents ops)[s]? = some (.taken x) ∧ (m.replay (ops.take (s + 1))).v x = k := by
  rw [← keyEvents_take] at hj
  have hl := (latched_replay_iff hm).mpr ⟨j, hj⟩
  have hwait : (m.replay (ops.take s)).AtWait x := pending?_eq_some_iff.mp hx
  obtain ⟨hout, hleft⟩ := step_at_wait_some hwait hl
  refine ⟨taken_at_iff.mpr ⟨hop, (executed?_of_executed hout).trans hx⟩, ?_⟩
  rw [replay_take_succ m hop]
  change (m.replay (ops.take s)).step.machine.v x = k
  rw [hleft]
  exact (get_set _ x x (k : Int)).trans (if_pos rfl)

/-- Of a keypad that starts released, the latch and the keys tell the most recent events. Every wait
that is carried out is served by the most recent press, which lies behind every earlier wait; no
press serves two; and a press is not lost when the key is let go before the wait comes up. -/
theorem keypad_history (m : Machine) (hm : m.keypad = .released) (ops : List Operation) :
    let p := (m.replay ops).keypad
    let es := m.keyEvents ops
    (∀ k, p.latched = some k ↔ ∃ j, LatestAt KeyEvent.settles es j (.pressed k)) ∧
    (∀ k : Nibble, p.isDown k = true ↔ ∃ j, LatestAt (KeyEvent.moves k) es j (.pressed k)) ∧
    (∀ z : Int, ¬ (0 ≤ z ∧ z ≤ 15) → p.isDown z = false) ∧
    (∀ s x, es[s]? = some (.taken x) → ∃ j k,
      LatestAt KeyEvent.isPress (es.take s) j (.pressed k) ∧
      (∀ s' y, s' < s → es[s']? = some (.taken y) → s' < j) ∧
      (m.replay (ops.take (s + 1))).v x = k) ∧
    (∀ s s' x y j e e', es[s]? = some (.taken x) → es[s']? = some (.taken y) →
      LatestAt KeyEvent.isPress (es.take s) j e → LatestAt KeyEvent.isPress (es.take s') j e' →
      s = s') ∧
    (∀ s x j k, LatestAt KeyEvent.settles (es.take s) j (.pressed k) → ops[s]? = some .step →
      (m.replay (ops.take s)).pending? = some (.awaitKey x) →
      es[s]? = some (.taken x) ∧ (m.replay (ops.take (s + 1))).v x = k) ∧
    (∀ (j : Nat) k, es[j]? = some (.pressed k) ↔ ∃ z : Int,
      (ops[j]? = some (.key (.press z)) ∨ ops[j]? = some (.key (.set z true))) ∧
      z % 16 = (k : Nat)) ∧
    (∀ (j : Nat) k, es[j]? = some (.released k) ↔ ∃ z : Int,
      (ops[j]? = some (.key (.release z)) ∨ ops[j]? = some (.key (.set z false))) ∧
      z % 16 = (k : Nat)) := by
  intro p es
  have hserved : ∀ s x, es[s]? = some (.taken x) → ∃ j k,
      LatestAt KeyEvent.isPress (es.take s) j (.pressed k) ∧
      (∀ s' y, s' < s → es[s']? = some (.taken y) → s' < j) ∧
      (m.replay (ops.take (s + 1))).v x = k := by
    intro s x h
    obtain ⟨j, k, hj, hv⟩ := latest_press_of_taken hm h
    exact ⟨j, k, hj.mono settles_of_isPress rfl, fun s' y hs hy => taken_lt_press hj hs hy, hv⟩
  -- Of two waits that one press serves, the later one would have to be served from behind the other.
  have hapart : ∀ s s' x y j e e', s < s' → es[s]? = some (.taken x) → es[s']? = some (.taken y) →
      LatestAt KeyEvent.isPress (es.take s) j e → ¬ LatestAt KeyEvent.isPress (es.take s') j e' := by
    intro s s' x y j e e' hlt hx hy hj hj'
    obtain ⟨j', k', hlast, hbehind, _⟩ := hserved s' y hy
    have hs := hbehind s x hlt hx
    rw [hlast.unique hj'] at hs
    have := press_lt_taken hj
    omega
  refine ⟨fun k => latched_replay_iff hm, fun k => ?_, fun z hz => if_neg hz, hserved, ?_, ?_,
    fun j k => pressed_at_iff, fun j k => released_at_iff⟩
  · have hk : Keypad.key k = k := Keypad.key_eq_iff.mpr (by omega)
    rw [Keypad.isDown, if_pos (by omega), hk]
    exact down_replay_iff hm
  · intro s s' x y j e e' hx hy hj hj'
    rcases Nat.lt_trichotomy s s' with hlt | heq | hgt
    · exact absurd hj' (hapart s s' x y j e e' hlt hx hy hj)
    · exact heq
    · exact absurd hj (hapart s' s y x j e' e hgt hy hx hj')
  · intro s x j k hj hop hx
    exact taken_of_latched hm hj hop hx

/-- Two taps and a wait between them. -/
theorem keypad_history_tapped :
    let m := fresh false 0
    let ops : List Operation := [.load [0xF3, 0x0A, 0xF4, 0x0A], .step, .key (.press 21),
      .key (.release 5), .step, .key (.press 7), .key (.release 7), .step]
    m.keypad = .released ∧ (m.keyEvents ops)[7]? = some (.taken 4) ∧
      ∃ j k, 4 < j ∧ LatestAt KeyEvent.isPress ((m.keyEvents ops).take 7) j (.pressed k) ∧
        (m.replay (ops.take 8)).v 4 = k := by
  intro m ops
  have hfirst : (m.keyEvents ops)[4]? = some (.taken 3) := by decide +kernel
  have hsecond : (m.keyEvents ops)[7]? = some (.taken 4) := by decide +kernel
  obtain ⟨_, _, _, hserved, _⟩ := keypad_history m rfl ops
  obtain ⟨j, k, hj, hbehind, hv⟩ := hserved 7 4 hsecond
  exact ⟨rfl, hsecond, j, k, hbehind 4 3 (by decide) hfirst, hj, hv⟩

end Released

end Machine

end Chip8
