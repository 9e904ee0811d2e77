import Chip8.Proofs.Host.Course

/-!
# The trail is a record

Every action of a run is either something that happened to the machine or beside the point for it.
The history that is read off the trail leads to the machine at the end, and each report stands where
the machine of that history makes it.
-/
namespace Chip8

namespace Action

def report? : Action → Option Report
  | .stepped report => some report
  | _ => none

def isApart : Action → Bool
  | .paced _ | .logged _ | .printed _ | .dumped _ | .closed => true
  | _ => false

end Action

namespace Host

def reports (trail : List Action) : List Report := trail.filterMap Action.report?

/-- What the actions were to the machine. A poll finds the events of the next frame. -/
def history : List (List HostEvent) → List Action → List Operation
  | _, [] => []
  | batches, .polled :: trail => arrivals (batches.headD []) ++ history batches.tail trail
  | batches, .stepped _ :: trail => .step :: history batches trail
  | batches, .ticked :: trail => .tick :: history batches trail
  | batches, .rendered _ :: trail => .render :: history batches trail
  | batches, _ :: trail => history batches trail

/-- The first machine goes through the actions and ends as the second. -/
inductive Recorded : Machine → List (List HostEvent) → List Action → Machine → Prop where
  | nil {m batches} : Recorded m batches [] m
  | polled {m batches trail m'}
      (rest : Recorded (m.replay (arrivals (batches.headD []))) batches.tail trail m') :
      Recorded m batches (.polled :: trail) m'
  | stepped {m batches trail m'} (rest : Recorded m.step.machine batches trail m') :
      Recorded m batches (.stepped m.step.report :: trail) m'
  | ticked {m batches trail m'} (rest : Recorded m.tick batches trail m') :
      Recorded m batches (.ticked :: trail) m'
  | rendered {m batches trail m'} (rest : Recorded m.presented batches trail m') :
      Recorded m batches (.rendered m.display.cells :: trail) m'
  | apart {m batches a trail m'} (ha : a.isApart = true) (rest : Recorded m batches trail m') :
      Recorded m batches (a :: trail) m'

theorem mem_reports_iff {report : Report} {trail : List Action} :
    report ∈ reports trail ↔ .stepped report ∈ trail := by
  unfold reports
  rw [List.mem_filterMap]
  constructor
  · rintro ⟨a, ha, hr⟩
    cases a with
    | stepped =>
      obtain rfl := Option.some.inj hr
      exact ha
    | polled | ticked | rendered | paced | logged | printed | dumped | closed => cases hr
  · intro h
    exact ⟨_, h, rfl⟩

variable {τ : Type} [Seconds τ] {m n m' : Machine} {batches : List (List HostEvent)}
  {trail before after : List Action} {report : Report} {k steps : Nat} {r : Run}

theorem history_apart {a : Action} (ha : a.isApart = true) (batches : List (List HostEvent))
    (trail : List Action) : history batches (a :: trail) = history batches trail := by
  cases a with
  | polled | stepped | ticked | rendered => cases ha
  | paced | logged | printed | dumped | closed => rfl

/-- Which events are left for the second part depends on the polls of the first. -/
theorem history_append (batches : List (List HostEvent)) (before after : List Action) :
    ∃ left, history batches (before ++ after) = history batches before ++ history left after := by
  induction before generalizing batches with
  | nil => exact ⟨batches, rfl⟩
  | cons a before ih =>
    cases a with
    | polled =>
      obtain ⟨left, h⟩ := ih batches.tail
      refine ⟨left, ?_⟩
      rw [List.cons_append, history, history, h, List.append_assoc]
    | stepped | ticked | rendered =>
      obtain ⟨left, h⟩ := ih batches
      exact ⟨left, congrArg (_ :: ·) h⟩
    | paced | logged | printed | dumped | closed => exact ih batches

namespace Recorded

theorem burst {taken : List Report} (h : m.Burst k taken n) (rest : Recorded n batches trail m') :
    Recorded m batches (taken.map .stepped ++ trail) m' := by
  induction h with
  | spent => exact rest
  | ended => exact .stepped rest
  | executed _ _ ih => exact .stepped (ih rest)

theorem ticks (rest : Recorded (Host.ticks m k) batches trail m') :
    Recorded m batches (List.replicate k .ticked ++ trail) m' := by
  induction k generalizing m with
  | zero => exact rest
  | succ k ih => exact .ticked (ih rest)

theorem presentation (rest : Recorded (m.replay (Host.presentation m)) batches trail m') :
    Recorded m batches ((m.snapshots (Host.presentation m)).map .rendered ++ trail) m' := by
  unfold Host.presentation at rest ⊢
  cases hd : m.display.dirty with
  | true =>
    rw [hd] at rest
    exact .rendered rest
  | false =>
    rw [hd] at rest
    exact rest

theorem settle {due : Int} (rest : Recorded (Host.settle m due).2 batches trail m') :
    Recorded m batches ((Host.settle m due).1 ++ trail) m' := by
  rw [settle_eq] at rest ⊢
  simp only [List.append_assoc]
  exact .ticks (.presentation (.apart rfl rest))

theorem leave (m : Machine) (batches : List (List HostEvent)) (stop : Stop) :
    Recorded m batches (Host.leave m stop) m := by
  cases stop with
  | quit => exact .apart rfl (.apart rfl .nil)
  | interrupt => exact .apart rfl (.apart rfl .nil)
  | fault f => exact .apart rfl (.apart rfl (.apart rfl .nil))
  | clock e => exact .apart rfl .nil

theorem replay (h : Recorded m batches trail m') : m' = m.replay (history batches trail) := by
  induction h with
  | nil => rfl
  | @polled m batches trail m' _ ih =>
    rw [history, Machine.replay_append]
    exact ih
  | stepped _ ih => exact ih
  | ticked _ ih => exact ih
  | rendered _ ih => exact ih
  | apart ha _ ih =>
    rw [history_apart ha]
    exact ih

/-- What stands behind a place of the trail is the record of the machine as it was there. -/
theorem split (h : Recorded m batches (before ++ after) m') :
    ∃ batches', Recorded (m.replay (history batches before)) batches' after m' := by
  induction before generalizing m batches with
  | nil => exact ⟨batches, h⟩
  | cons a before ih =>
    rw [List.cons_append] at h
    cases h with
    | polled rest =>
      rw [history, Machine.replay_append]
      exact ih rest
    | stepped rest => exact ih rest
    | ticked rest => exact ih rest
    | rendered rest => exact ih rest
    | apart ha rest =>
      rw [history_apart ha]
      exact ih rest

theorem report_eq (h : Recorded m batches (before ++ .stepped report :: after) m') :
    report = (m.replay (history batches before)).step.report := by
  obtain ⟨batches', h⟩ := h.split
  cases h with
  | stepped => rfl
  | apart ha => cases ha

theorem cycles (h : Recorded m batches trail m') :
    m'.cycles = m.cycles + (reports trail).countP Report.succeeded := by
  induction h with
  | nil => rfl
  | @polled m batches trail m' _ ih =>
    rw [ih, replay_arrivals]
    rfl
  | @stepped m batches trail m' _ ih =>
    have hreports : reports (.stepped m.step.report :: trail) = [m.step.report] ++ reports trail :=
      rfl
    rw [ih, Machine.step_cycles, hreports, List.countP_append, Nat.add_assoc]
  | ticked _ ih => exact ih
  | rendered _ ih => exact ih
  | @apart m batches a trail m' ha _ ih =>
    cases a with
    | polled | stepped | ticked | rendered => cases ha
    | paced | logged | printed | dumped | closed => exact ih

end Recorded

theorem Course.recorded {clock : Clock τ} {readings : Readings τ}
    (h : Course steps m clock readings batches r) : Recorded m batches r.trail r.machine := by
  induction h with
  | deserted => exact .polled (.leave _ _ _)
  | stopped => exact .polled (.leave _ _ _)
  | faulted hburst => exact .polled (.burst hburst (.leave _ _ _))
  | unmeasured hburst => exact .polled (.burst hburst (.leave _ _ _))
  | framed hburst _ _ _ ih => exact .polled (.burst hburst (.settle ih))

end Host

end Chip8
