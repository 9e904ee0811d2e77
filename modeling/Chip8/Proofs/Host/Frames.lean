import Chip8.Host
import Chip8.Proofs.Machine.Presentation

/-!
# Frames of a run

A frame completes when nothing stops the work of it and the clock has an answer. The trail of a run
is what its completed frames did, one after the other, and then what led out of the loop. To the
machine a completed frame is a history: the keys that arrived, the steps, the ticks, and a
presentation if the picture had changed.
-/
namespace Chip8.Host

variable {τ : Type} [Seconds τ]

structure Frame (τ : Type) where
  actions : List Action
  machine : Machine
  clock : Clock τ
  readings : Readings τ

def frame? (steps : Nat) (m : Machine) (clock : Clock τ) (readings : Readings τ)
    (events : List HostEvent) : Option (Frame τ) :=
  match work steps m events with
  | (_, _, some _) => none
  | (worked, m, none) =>
    match clock.due readings.current with
    | .error _ => none
    | .ok (due, clock) =>
      some ⟨worked ++ (settle m due).1, (settle m due).2, clock, readings.next⟩

def completed (steps : Nat) (m : Machine) (clock : Clock τ) (readings : Readings τ) :
    List (List HostEvent) → List (Frame τ)
  | [] => []
  | events :: rest =>
    match frame? steps m clock readings events with
    | none => []
    | some f => f :: completed steps f.machine f.clock f.readings rest

def runFrames (clockHz : Int) (m : Machine) (readings : Readings τ)
    (batches : List (List HostEvent)) : List (Frame τ) :=
  completed (budget clockHz) m (Clock.ofRate Clock.timerRate readings.current) readings.next batches

def Frame.onward (f : Frame τ) (steps : Nat) (rest : List (List HostEvent)) : Run :=
  loop steps f.machine f.clock f.readings rest

variable {steps : Nat} {m m' : Machine} {clock : Clock τ} {readings : Readings τ}
  {events : List HostEvent} {rest : List (List HostEvent)} {f : Frame τ} {a : Action}

theorem frame?_eq_some (h : frame? steps m clock readings events = some f) :
    ∃ worked m' due clock', work steps m events = (worked, m', none) ∧
      clock.due readings.current = .ok (due, clock') ∧
      f = ⟨worked ++ (settle m' due).1, (settle m' due).2, clock', readings.next⟩ := by
  unfold frame? at h
  split at h
  · cases h
  · rename_i worked m' hwork
    split at h
    · cases h
    · rename_i due clock' hdue
      exact ⟨worked, m', due, clock', hwork, hdue, (Option.some.inj h).symm⟩

theorem loop_of_frame (h : frame? steps m clock readings events = some f) :
    loop steps m clock readings (events :: rest) =
      ⟨f.actions ++ (f.onward steps rest).trail, (f.onward steps rest).machine,
        (f.onward steps rest).stop⟩ := by
  obtain ⟨worked, m', due, clock', hwork, hdue, rfl⟩ := frame?_eq_some h
  simp only [loop, hwork, hdue, Frame.onward]

/-- Where no frame completes, the way out of the loop follows on the work. -/
theorem loop_of_no_frame (rest : List (List HostEvent))
    (h : frame? steps m clock readings events = none) :
    ∃ m' stop, loop steps m clock readings (events :: rest) =
      ⟨(work steps m events).1 ++ leave m' stop, m', stop⟩ := by
  rcases hwork : work steps m events with ⟨worked, m', _ | stop⟩
  · cases hdue : clock.due readings.current with
    | error e =>
      refine ⟨m', .clock e, ?_⟩
      simp only [loop, hwork, hdue]
    | ok passed =>
      unfold frame? at h
      rw [hwork, hdue] at h
      cases h
  · refine ⟨m', stop, ?_⟩
    simp only [loop, hwork]

/-! What the parts of a frame do to the machine. -/

theorem poll_eq_none {p q : Keypad} (h : poll p events = (q, none)) :
    ∃ keys : List KeyOp, events = keys.map .key ∧ q = keys.foldl Keypad.apply p := by
  induction events generalizing p with
  | nil =>
    cases h
    exact ⟨[], rfl, rfl⟩
  | cons event rest ih =>
    cases event with
    | key op =>
      obtain ⟨keys, rfl, rfl⟩ := ih h
      exact ⟨op :: keys, rfl, rfl⟩
    | quit => cases h
    | interrupt => cases h

theorem replay_keys (m : Machine) (keys : List KeyOp) :
    m.replay (keys.map .key) = { m with keypad := keys.foldl Keypad.apply m.keypad } := by
  induction keys generalizing m with
  | nil => rfl
  | cons op rest ih => exact ih (m.keyed op)

theorem ticks_replay (m : Machine) (n : Nat) : ticks m n = m.replay (List.replicate n .tick) := by
  induction n generalizing m with
  | zero => rfl
  | succ n ih => exact ih m.tick

def presentation (m : Machine) : List Operation := if m.display.dirty then [.render] else []

theorem settle_eq (m : Machine) (due : Int) : settle m due =
    (List.replicate due.toNat .ticked ++
      (((ticks m due.toNat).snapshots (presentation (ticks m due.toNat))).map .rendered ++
        [.paced Clock.timerRate]),
      (ticks m due.toNat).replay (presentation (ticks m due.toNat))) := by
  unfold presentation
  cases hd : (ticks m due.toNat).display.dirty with
  | true => exact if_pos hd
  | false => exact if_neg (Bool.eq_false_iff.mp hd)

theorem presentation_clean (m : Machine) :
    (m.replay (presentation m)).display.dirty = false := by
  unfold presentation
  cases hd : m.display.dirty with
  | true => rfl
  | false => exact hd

theorem work_of_events {p : Keypad} (steps : Nat) (h : poll m.keypad events = (p, none)) :
    ∃ stop, work steps m events =
      (.polled :: (({ m with keypad := p } : Machine).burst steps).1.map .stepped,
        (({ m with keypad := p } : Machine).burst steps).2, stop) := by
  unfold work
  rw [h]
  exact ⟨_, rfl⟩

/-- Work that is not stopped is the keys that arrived and then a burst. -/
theorem work_eq_none {worked : List Action} (h : work steps m events = (worked, m', none)) :
    ∃ keys : List KeyOp, events = keys.map .key ∧
      worked = .polled :: ((m.replay (keys.map .key)).burst steps).1.map .stepped ∧
      m' = ((m.replay (keys.map .key)).burst steps).2 := by
  cases hp : poll m.keypad events with
  | mk p stop =>
    cases stop with
    | some stop =>
      unfold work at h
      rw [hp] at h
      cases h
    | none =>
      obtain ⟨keys, hkeys, rfl⟩ := poll_eq_none hp
      obtain ⟨stop, hwork⟩ := work_of_events steps hp
      rw [← replay_keys, h] at hwork
      obtain ⟨rfl, rfl, -⟩ := hwork
      exact ⟨keys, hkeys, rfl, rfl⟩

theorem work_actions (steps : Nat) (m : Machine) (events : List HostEvent) :
    ∃ reports : List Report, (work steps m events).1 = .polled :: reports.map .stepped := by
  unfold work
  cases poll m.keypad events with
  | mk p stop =>
    cases stop with
    | some stop => exact ⟨[], rfl⟩
    | none => exact ⟨_, rfl⟩

/-! What the trail shows of a frame. -/

variable {β : Type} {g : Action → Option β}

theorem filterMap_work (hp : g .polled = none) (hs : ∀ report, g (.stepped report) = none) :
    (work steps m events).1.filterMap g = [] := by
  obtain ⟨reports, hw⟩ := work_actions steps m events
  rw [hw, List.filterMap_cons_none hp, List.filterMap_map, List.filterMap_eq_nil_iff]
  intro report _
  exact hs report

theorem filterMap_ticked (ht : g .ticked = none) (n : Nat) :
    (List.replicate n Action.ticked).filterMap g = [] := by
  rw [List.filterMap_eq_nil_iff]
  intro a ha
  rw [List.eq_of_mem_replicate ha]
  exact ht

theorem frame_paced (h : frame? steps m clock readings events = some f) :
    ∃ body, f.actions = body ++ [.paced Clock.timerRate] ∧ body.filterMap Action.rate? = [] := by
  obtain ⟨worked, m', due, clock', hwork, hdue, rfl⟩ := frame?_eq_some h
  have hworked : worked = (work steps m events).1 := by rw [hwork]
  rw [settle_eq, ← List.append_assoc, ← List.append_assoc]
  refine ⟨_, rfl, ?_⟩
  rw [List.filterMap_append, List.filterMap_append, hworked, filterMap_work rfl fun _ => rfl,
    filterMap_ticked rfl, List.filterMap_map, List.nil_append, List.nil_append,
    List.filterMap_eq_nil_iff]
  intro cells _
  rfl

theorem ticked_history {worked : List Action} (h : work steps m events = (worked, m', none))
    (n : Nat) : ∃ ops, ticks m' n = m.replay ops ∧ m.snapshots ops = [] := by
  obtain ⟨keys, -, -, rfl⟩ := work_eq_none h
  let steps' := ((m.replay (keys.map .key)).burst steps).1.length
  refine ⟨keys.map .key ++ List.replicate steps' .step ++ List.replicate n .tick, ?_, ?_⟩
  · rw [ticks_replay, Machine.burst_replay, Machine.replay_append, Machine.replay_append]
  · apply Machine.snapshots_eq_nil
    simp [List.mem_replicate]

/-- A completed frame is a history of its machine, and shows the pictures of that history. -/
theorem frame_history (h : frame? steps m clock readings events = some f) :
    ∃ ops, f.machine = m.replay ops ∧
      f.actions.filterMap Action.picture? = m.snapshots ops := by
  obtain ⟨worked, m', due, clock', hwork, hdue, rfl⟩ := frame?_eq_some h
  have hworked : worked = (work steps m events).1 := by rw [hwork]
  obtain ⟨ops, hops, hquiet⟩ := ticked_history hwork due.toNat
  refine ⟨ops ++ presentation (m.replay ops), ?_, ?_⟩
  · rw [settle_eq, hops, Machine.replay_append]
  · have hpictures (cells : List (Vector UInt8 2048)) :
        (cells.map Action.rendered).filterMap Action.picture? = cells := by
      rw [List.filterMap_map]
      exact List.filterMap_some
    rw [settle_eq, hops, Machine.snapshots_append, hquiet, hworked, List.filterMap_append,
      List.filterMap_append, List.filterMap_append, filterMap_work rfl fun _ => rfl,
      filterMap_ticked rfl, hpictures]
    exact List.append_nil _

theorem frame_clean (h : frame? steps m clock readings events = some f) :
    f.machine.display.dirty = false := by
  obtain ⟨worked, m', due, clock', hwork, hdue, rfl⟩ := frame?_eq_some h
  rw [settle_eq]
  exact presentation_clean (ticks m' due.toNat)

theorem leave_unpaced (m : Machine) (stop : Stop) : (leave m stop).filterMap Action.rate? = [] := by
  cases stop with
  | quit | interrupt | fault | clock => rfl

end Chip8.Host
