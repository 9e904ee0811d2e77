import Mathlib.Data.List.Basic
import Mathlib.Data.List.Induction
import Chip8.Host
import Chip8.Proofs.Latest
import Chip8.Proofs.Vector

/-!
# From the window to the keypad

Window events arrive in batches, and are handled in order until one of them ends the run. Up to that
point each key of the pad follows the events of its own code, and the latch follows the key presses
that have a code. An event of any other code is nothing to the pad.
-/
namespace Chip8

open Window

namespace WindowEvent

/-- How an event ends the run: Escape is a request to quit, whichever way it goes. -/
def stop? : WindowEvent → Option Stop
  | .quit => some .quit
  | .interrupt => some .interrupt
  | .keyDown c | .keyUp c => if c = escape then some .quit else none
  | .other => none

def concerns (k : Nibble) : WindowEvent → Bool
  | .keyDown c | .keyUp c => c == code k
  | .quit | .interrupt | .other => false

def isPress : WindowEvent → Bool
  | .keyDown c => decide (∃ k, c = code k)
  | .keyUp _ | .quit | .interrupt | .other => false

end WindowEvent

namespace Window

def handle (p : Keypad) (batch : List WindowEvent) : Keypad × Option Stop :=
  Host.poll p (batch.filterMap toHost)

/-- Handles batches until one of them ends the run, and tells which one that was. -/
def handleAll (p : Keypad) : List (List WindowEvent) → Keypad × Option (Nat × Stop)
  | [] => (p, none)
  | batch :: rest =>
    match handle p batch with
    | (p, some stop) => (p, some (0, stop))
    | (p, none) =>
      let (p, ended) := handleAll p rest
      (p, ended.map fun (i, stop) => (i + 1, stop))

/-- The batches as far as a point: `i` of them, and `n` events of the next. -/
def upTo (batches : List (List WindowEvent)) (i n : Nat) : List (List WindowEvent) :=
  batches.take i ++ [(batches.getD i []).take n]

def Quiet (events : List WindowEvent) : Prop := ∀ e ∈ events, e.stop? = none

/-- The run ends `n` events into the batch `i`, and not before. -/
def EndsAt (batches : List (List WindowEvent)) (i n : Nat) (stop : Stop) : Prop :=
  ∃ e, (batches.getD i [])[n]? = some e ∧ e.stop? = some stop ∧ Quiet (upTo batches i n).flatten

/-- What the pad has to tell of the events that have been handled: whether a key is down, by the
latest event of its code, and the latest press, if there has been any. -/
structure Tells (p : Keypad) (handled : List WindowEvent) : Prop where
  down_iff : ∀ k : Nibble, p.isDown k = true ↔
    ∃ j, LatestAt (WindowEvent.concerns k) handled j (.keyDown (code k))
  latched_iff : ∀ k : Nibble, p.latched = some k ↔
    ∃ j, LatestAt WindowEvent.isPress handled j (.keyDown (code k))
  unlatched_iff : p.latched = none ↔ ∀ e ∈ handled, e.isPress = false

variable {p : Keypad} {e : WindowEvent} {k : Nibble} {c : Int} {i n : Nat} {stop : Stop}
  {before after events handled : List WindowEvent} {earlier later : List (List WindowEvent)}

/-! Codes and keys. -/

/-- No two keys lie under one code. -/
theorem code_eq_iff : ∀ j k : Nibble, code j = code k ↔ j = k := by decide

theorem code_ne_escape : ∀ k : Nibble, code k ≠ escape := by decide

theorem key?_code (k : Nibble) : key? (code k) = some k := by
  revert k
  decide

theorem key?_eq_none (h : ∀ k, c ≠ code k) : key? c = none := by
  rw [key?, List.find?_eq_none]
  intro k _ hk
  exact h k (beq_iff_eq.mp hk).symm

theorem key_of_nibble (k : Nibble) : Keypad.key k = k := by
  apply Fin.ext
  simp only [Keypad.key, Nibble.ofInt]
  omega

theorem isDown_of_nibble (p : Keypad) (k : Nibble) : p.isDown k = p.down.get k := by
  rw [Keypad.isDown, if_pos (by omega), key_of_nibble]

/-! One event. -/

def took (p : Keypad) (e : WindowEvent) : Keypad := (handle p [e]).1

theorem handle_cons_of_stop (h : e.stop? = some stop) (p : Keypad) (rest : List WindowEvent) :
    handle p (e :: rest) = (p, some stop) := by
  cases e with
  | quit | interrupt =>
    cases h
    rfl
  | other => cases h
  | keyDown c | keyUp c =>
    obtain ⟨hescape, hstop⟩ := Option.ite_none_right_eq_some.mp h
    cases hstop
    simp [handle, toHost, hescape, Host.poll]

theorem toHost_of_quiet (h : e.stop? = none) :
    toHost e = none ∨ ∃ op, toHost e = some (.key op) := by
  cases e with
  | quit | interrupt => cases h
  | other => exact Or.inl rfl
  | keyDown c | keyUp c =>
    have hescape : c ≠ escape := by simpa [WindowEvent.stop?] using h
    cases hkey : key? c with
    | none => exact Or.inl (by simp [toHost, hescape, hkey])
    | some k => exact Or.inr ⟨_, by simp only [toHost, hescape, hkey, if_false]; rfl⟩

theorem handle_cons_of_quiet (h : e.stop? = none) (p : Keypad) (rest : List WindowEvent) :
    handle p (e :: rest) = handle (took p e) rest := by
  unfold took handle
  rcases toHost_of_quiet h with hnone | ⟨op, hop⟩
  · rw [List.filterMap_cons_none hnone, List.filterMap_cons_none hnone]
    rfl
  · rw [List.filterMap_cons_some hop, List.filterMap_cons_some hop]
    rfl

/-- A key event that does not end the run is forwarded to the pad, unless its code is refused. -/
theorem took_of_key (p : Keypad) (hc : c ≠ escape) :
    took p (.keyDown c) = (keyEvent? p c true).getD p ∧
      took p (.keyUp c) = (keyEvent? p c false).getD p := by
  unfold took handle keyEvent?
  cases hkey : key? c with
  | none => simp [toHost, hc, hkey, Host.poll]
  | some k => simp [toHost, hc, hkey, Host.poll, Keypad.apply]

theorem took_keyDown (p : Keypad) (k : Nibble) :
    took p (.keyDown (code k)) = ⟨p.down.set k true k.isLt, some k⟩ := by
  rw [(took_of_key p (code_ne_escape k)).1, keyEvent?, key?_code]
  change p.set k true = _
  simp only [Keypad.set, if_true, Keypad.press, key_of_nibble]

theorem took_keyUp (p : Keypad) (k : Nibble) :
    took p (.keyUp (code k)) = { p with down := p.down.set k false k.isLt } := by
  rw [(took_of_key p (code_ne_escape k)).2, keyEvent?, key?_code]
  change p.set k false = _
  simp only [Keypad.set, Bool.false_eq_true, if_false, Keypad.release, key_of_nibble]

theorem took_uncoded (p : Keypad) (h : ∀ k, e.concerns k = false) : took p e = p := by
  cases e with
  | quit | interrupt | other => rfl
  | keyDown c | keyUp c =>
    have hkey : key? c = none := by
      apply key?_eq_none
      rintro k rfl
      have := h k
      simp [WindowEvent.concerns] at this
    by_cases hescape : c = escape
    · simp [took, handle, toHost, hescape, Host.poll]
    · simp [took_of_key p hescape, keyEvent?, hkey]

/-- An event presses a key, or lets one go, or belongs to no key. -/
theorem coded_or_uncoded (e : WindowEvent) :
    (∃ k, e = .keyDown (code k)) ∨ (∃ k, e = .keyUp (code k)) ∨ ∀ k, e.concerns k = false := by
  by_cases h : ∀ k, e.concerns k = false
  · exact Or.inr (Or.inr h)
  · simp only [not_forall, Bool.not_eq_false] at h
    obtain ⟨k, hk⟩ := h
    cases e with
    | quit | interrupt | other => cases hk
    | keyDown c => exact Or.inl ⟨k, congrArg _ (beq_iff_eq.mp hk)⟩
    | keyUp c => exact Or.inr (Or.inl ⟨k, congrArg _ (beq_iff_eq.mp hk)⟩)

theorem isPress_iff : e.isPress = true ↔ ∃ k, e = .keyDown (code k) := by
  cases e with
  | keyDown c => simp [WindowEvent.isPress]
  | keyUp | quit | interrupt | other => simp [WindowEvent.isPress]

theorem isPress_of_uncoded (h : ∀ k, e.concerns k = false) : e.isPress = false := by
  rw [← Bool.not_eq_true, isPress_iff]
  rintro ⟨k, rfl⟩
  have := h k
  simp [WindowEvent.concerns] at this

theorem down_took_iff : (took p e).isDown k = true ↔
    if e.concerns k = true then .keyDown (code k) = e else p.isDown k = true := by
  rw [isDown_of_nibble, isDown_of_nibble]
  rcases coded_or_uncoded e with ⟨j, rfl⟩ | ⟨j, rfl⟩ | hnone
  · rw [took_keyDown, get_set]
    by_cases hj : j = k
    · simp [hj, WindowEvent.concerns]
    · simp [hj, code_eq_iff, WindowEvent.concerns]
  · rw [took_keyUp, get_set]
    by_cases hj : j = k
    · simp [hj, WindowEvent.concerns]
    · simp [hj, code_eq_iff, WindowEvent.concerns]
  · simp [took_uncoded p hnone, hnone k]

theorem latched_took_iff : (took p e).latched = some k ↔
    if e.isPress = true then .keyDown (code k) = e else p.latched = some k := by
  rcases coded_or_uncoded e with ⟨j, rfl⟩ | ⟨j, rfl⟩ | hnone
  · rw [took_keyDown, if_pos (isPress_iff.mpr ⟨j, rfl⟩)]
    simp only [Option.some.injEq, WindowEvent.keyDown.injEq, code_eq_iff]
    exact eq_comm
  · rw [took_keyUp]
    simp [WindowEvent.isPress]
  · simp [took_uncoded p hnone, isPress_of_uncoded hnone]

theorem unlatched_took_iff :
    (took p e).latched = none ↔ e.isPress = false ∧ p.latched = none := by
  rcases coded_or_uncoded e with ⟨j, rfl⟩ | ⟨j, rfl⟩ | hnone
  · have hpress : (WindowEvent.keyDown (code j)).isPress = true := isPress_iff.mpr ⟨j, rfl⟩
    simp [took_keyDown, hpress]
  · simp [took_keyUp, WindowEvent.isPress]
  · simp [took_uncoded p hnone, isPress_of_uncoded hnone]

/-! One batch, and all batches. -/

theorem quiet_append : Quiet (before ++ after) ↔ Quiet before ∧ Quiet after :=
  List.forall_mem_append

theorem handle_quiet (p : Keypad) (h : Quiet events) :
    handle p events = (events.foldl took p, none) := by
  induction events generalizing p with
  | nil => rfl
  | cons e rest ih =>
    obtain ⟨he, hrest⟩ := List.forall_mem_cons.mp h
    rw [handle_cons_of_quiet he, ih _ hrest]
    rfl

theorem handle_stopped (p : Keypad) (hbefore : Quiet before) (h : e.stop? = some stop)
    (after : List WindowEvent) :
    handle p (before ++ e :: after) = (before.foldl took p, some stop) := by
  induction before generalizing p with
  | nil => exact handle_cons_of_stop h p after
  | cons first rest ih =>
    obtain ⟨hfirst, hrest⟩ := List.forall_mem_cons.mp hbefore
    rw [List.cons_append, handle_cons_of_quiet hfirst, ih _ hrest]
    rfl

theorem handleAll_quiet (p : Keypad) {batches : List (List WindowEvent)}
    (h : Quiet batches.flatten) : handleAll p batches = (batches.flatten.foldl took p, none) := by
  induction batches generalizing p with
  | nil => rfl
  | cons batch rest ih =>
    obtain ⟨hbatch, hrest⟩ := quiet_append.mp h
    rw [handleAll, handle_quiet p hbatch, List.flatten_cons, List.foldl_append]
    simp only [ih _ hrest, Option.map_none]

/-- The batches behind an end are not handled, and neither is the rest of its own batch. -/
theorem handleAll_stopped (p : Keypad) (hbefore : Quiet (earlier.flatten ++ before))
    (h : e.stop? = some stop) (after : List WindowEvent) (later : List (List WindowEvent)) :
    handleAll p (earlier ++ (before ++ e :: after) :: later) =
      ((earlier.flatten ++ before).foldl took p, some (earlier.length, stop)) := by
  induction earlier generalizing p with
  | nil =>
    have hfirst : handle p (before ++ e :: after) = _ := handle_stopped p hbefore h after
    rw [List.nil_append, handleAll, hfirst]
    rfl
  | cons batch rest ih =>
    rw [List.flatten_cons, List.append_assoc] at hbefore
    obtain ⟨hbatch, hrest⟩ := quiet_append.mp hbefore
    rw [List.cons_append, handleAll, handle_quiet p hbatch, List.flatten_cons, List.append_assoc,
      List.foldl_append]
    simp only [ih _ hrest, Option.map_some, List.length_cons]

/-! The points of a run. -/

theorem split_of_getElem? {α : Type} {l : List α} {a : α} {j : Nat} (h : l[j]? = some a) :
    ∃ before after, l = before ++ a :: after ∧ before.length = j := by
  obtain ⟨hj, ha⟩ := List.getElem?_eq_some_iff.mp h
  refine ⟨l.take j, l.drop (j + 1), ?_, List.length_take_of_le (Nat.le_of_lt hj)⟩
  rw [← ha, ← List.drop_eq_getElem_cons hj, List.take_append_drop]

theorem split_of_point {batches : List (List WindowEvent)} (h : (batches.getD i [])[n]? = some e) :
    ∃ earlier before after later, batches = earlier ++ (before ++ e :: after) :: later ∧
      earlier.length = i ∧ before.length = n := by
  rw [List.getD_eq_getElem?_getD] at h
  cases hbatch : batches[i]? with
  | none => simp [hbatch] at h
  | some batch =>
    rw [hbatch] at h
    obtain ⟨before, after, rfl, hn⟩ := split_of_getElem? h
    obtain ⟨earlier, later, rfl, hi⟩ := split_of_getElem? hbatch
    exact ⟨earlier, before, after, later, rfl, hi, hn⟩

theorem upTo_split (earlier : List (List WindowEvent)) (before : List WindowEvent)
    (e : WindowEvent) (after : List WindowEvent) (later : List (List WindowEvent)) :
    upTo (earlier ++ (before ++ e :: after) :: later) earlier.length before.length =
      earlier ++ [before] := by
  simp [upTo]

theorem flatten_split (earlier : List (List WindowEvent)) (before : List WindowEvent) :
    (earlier ++ [before]).flatten = earlier.flatten ++ before := by
  simp

theorem quiet_or_stopped (batches : List (List WindowEvent)) :
    Quiet batches.flatten ∨ ∃ earlier before e after later stop,
      batches = earlier ++ (before ++ e :: after) :: later ∧
      Quiet (earlier.flatten ++ before) ∧ e.stop? = some stop := by
  induction batches with
  | nil => exact Or.inl (fun e he => absurd he List.not_mem_nil)
  | cons batch rest ih =>
    cases hfind : batch.find? fun e => e.stop?.isSome with
    | some e =>
      obtain ⟨he, before, after, rfl, hbefore⟩ := List.find?_eq_some_iff_append.mp hfind
      obtain ⟨stop, hstop⟩ := Option.isSome_iff_exists.mp he
      refine Or.inr ⟨[], before, e, after, rest, stop, rfl, ?_, hstop⟩
      intro e he
      simpa using hbefore e he
    | none =>
      have hbatch : Quiet batch := by
        intro e he
        simpa using List.find?_eq_none.mp hfind e he
      rcases ih with hrest | ⟨earlier, before, e, after, later, stop, rfl, hquiet, hstop⟩
      · exact Or.inl (quiet_append.mpr ⟨hbatch, hrest⟩)
      · refine Or.inr ⟨batch :: earlier, before, e, after, later, stop, rfl, ?_, hstop⟩
        rw [List.flatten_cons, List.append_assoc]
        exact quiet_append.mpr ⟨hbatch, hquiet⟩

theorem tells_of_taken (handled : List WindowEvent) :
    Tells (handled.foldl took .released) handled := by
  -- The latest event decides, and where it has no say the pad tells what it told before.
  induction handled using List.reverseRecOn with
  | nil =>
    constructor
    · simp [not_latestAt_nil, Keypad.released, isDown_of_nibble]
    · simp [not_latestAt_nil, Keypad.released]
    · simp [Keypad.released]
  | append_singleton handled e ih =>
    rw [List.foldl_concat]
    constructor
    · intro k
      rw [down_took_iff, ih.down_iff, exists_latestAt_concat]
    · intro k
      rw [latched_took_iff, ih.latched_iff, exists_latestAt_concat]
    · rw [unlatched_took_iff, ih.unlatched_iff, List.forall_mem_append, List.forall_mem_singleton]
      exact and_comm

/-! Where the run ends. -/

variable {batches : List (List WindowEvent)}

theorem handleAll_of_endsAt (p : Keypad) (h : EndsAt batches i n stop) :
    handleAll p batches = ((upTo batches i n).flatten.foldl took p, some (i, stop)) := by
  obtain ⟨e, he, hstop, hquiet⟩ := h
  obtain ⟨earlier, before, after, later, rfl, rfl, rfl⟩ := split_of_point he
  rw [upTo_split, flatten_split] at hquiet ⊢
  exact handleAll_stopped p hquiet hstop after later

theorem quiet_or_endsAt (batches : List (List WindowEvent)) :
    Quiet batches.flatten ∨ ∃ i n stop, EndsAt batches i n stop := by
  rcases quiet_or_stopped batches with h | ⟨earlier, before, e, after, later, stop, rfl, h, hstop⟩
  · exact Or.inl h
  · refine Or.inr ⟨earlier.length, before.length, stop, e, by simp, hstop, ?_⟩
    rw [upTo_split, flatten_split]
    exact h

theorem ended_iff (p : Keypad) :
    (handleAll p batches).2 = some (i, stop) ↔ ∃ n, EndsAt batches i n stop := by
  constructor
  · intro h
    rcases quiet_or_endsAt batches with hquiet | ⟨i', n, stop', hends⟩
    · rw [handleAll_quiet p hquiet] at h
      cases h
    · rw [handleAll_of_endsAt p hends] at h
      cases h
      exact ⟨n, hends⟩
  · rintro ⟨n, h⟩
    rw [handleAll_of_endsAt p h]

theorem unended_iff (p : Keypad) : (handleAll p batches).2 = none ↔ Quiet batches.flatten := by
  constructor
  · intro h
    rcases quiet_or_endsAt batches with hquiet | ⟨i, n, stop, hends⟩
    · exact hquiet
    · rw [handleAll_of_endsAt p hends] at h
      cases h
  · intro h
    rw [handleAll_quiet p h]

theorem isDown_took_of_other (h : e.concerns k = false) :
    (took p e).isDown k = p.isDown k := by
  have hdown := down_took_iff (p := p) (e := e) (k := k)
  rw [h, if_neg Bool.false_ne_true] at hdown
  exact Bool.eq_iff_iff.mpr hdown

theorem latched_took_of_other (h : e.isPress = false) : (took p e).latched = p.latched := by
  apply Option.ext
  intro k
  rw [latched_took_iff, h, if_neg Bool.false_ne_true]

/-- The run ends in the first batch that asks for it, at the first event that does, and what is
behind that event has no effect on the pad. At each point before, the pad tells the events that have
been handled. No event moves a key of another code, and only the press of a code moves the latch. -/
theorem window_events_reach_keypad (batches : List (List WindowEvent)) :
    let run := handleAll .released batches
    (∀ i stop, run.2 = some (i, stop) ↔ ∃ n, EndsAt batches i n stop) ∧
    (run.2 = none ↔ Quiet batches.flatten) ∧
    (∀ i n stop, EndsAt batches i n stop →
      run.1 = (handleAll .released (upTo batches i n)).1) ∧
    (∀ i n, Quiet (upTo batches i n).flatten →
      (handleAll .released (upTo batches i n)).2 = none ∧
      Tells (handleAll .released (upTo batches i n)).1 (upTo batches i n).flatten) ∧
    ∀ p e, (∀ k : Nibble, e.concerns k = false → (handle p [e]).1.isDown k = p.isDown k) ∧
      (e.isPress = false → (handle p [e]).1.latched = p.latched) := by
  intro run
  refine ⟨fun i stop => ended_iff _, unended_iff _, ?_, ?_, ?_⟩
  · rintro i n stop ⟨e, he, hstop, hquiet⟩
    have hrun := handleAll_of_endsAt .released ⟨e, he, hstop, hquiet⟩
    rw [show run = _ from hrun, handleAll_quiet .released hquiet]
  · intro i n hquiet
    rw [handleAll_quiet .released hquiet]
    exact ⟨rfl, tells_of_taken _⟩
  · intro p e
    exact ⟨fun k => isDown_took_of_other, latched_took_of_other⟩

/-- Two keys go down and one of them up again, before Escape is let go in the second batch. -/
theorem window_events_reach_keypad_until_escape :
    let batches : List (List WindowEvent) :=
      [[.keyDown 120, .keyDown 113, .keyUp 120], [.keyDown 999, .keyUp 27, .keyDown 49], [.quit]]
    let run := handleAll .released batches
    Quiet (upTo batches 1 1).flatten ∧ run.2 = some (1, .quit) ∧ run.1.isDown 4 = true ∧
      run.1.latched = some 4 := by
  intro batches run
  have hquiet : Quiet (upTo batches 1 1).flatten := by
    unfold Quiet
    decide
  have hends : EndsAt batches 1 1 .quit := ⟨.keyUp 27, rfl, rfl, hquiet⟩
  obtain ⟨hended, -, hpad, hpoint, -⟩ := window_events_reach_keypad batches
  obtain ⟨-, htells⟩ := hpoint 1 1 hquiet
  have hrun : run.1 = _ := hpad 1 1 .quit hends
  refine ⟨hquiet, (hended 1 .quit).mpr ⟨1, hends⟩, ?_, ?_⟩
  · rw [hrun]
    exact (htells.down_iff 4).mpr ⟨1, latestAt_of_drop rfl rfl (by decide)⟩
  · rw [hrun]
    exact (htells.latched_iff 4).mpr ⟨1, latestAt_of_drop rfl rfl (by decide)⟩

end Window

end Chip8
