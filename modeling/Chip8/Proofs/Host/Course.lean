import Chip8.Proofs.Host.Frames
import Chip8.Proofs.Machine.Burst

/-!
# The course of a run

From the start of a frame a run can go five ways. The script is over, or the events ask for an end,
or a step faults, or the clock has no answer; each of these fixes the whole run. Otherwise the frame
completes, and the run is what the frame did and the run from there on.
-/
namespace Chip8.Host

/-- What the events of a frame do to the machine. Nothing is seen of those behind a request to
end. -/
def arrivals : List HostEvent → List Operation
  | .key op :: rest => .key op :: arrivals rest
  | _ => []

variable {τ : Type} [Seconds τ]

inductive Course (steps : Nat) :
    Machine → Clock τ → Readings τ → List (List HostEvent) → Run → Prop where
  | deserted {m clock readings} :
      Course steps m clock readings [] ⟨.polled :: leave m .quit, m, .quit⟩
  | stopped {m clock readings events rest stop} (hstop : stop = .quit ∨ stop = .interrupt) :
      Course steps m clock readings (events :: rest)
        ⟨.polled :: leave (m.replay (arrivals events)) stop, m.replay (arrivals events), stop⟩
  | faulted {m clock readings events rest reports report m' fault}
      (hburst : (m.replay (arrivals events)).Burst steps (reports ++ [report]) m')
      (hgood : ∀ r ∈ reports, r.succeeded = true) (hfault : report.outcome = .error fault) :
      Course steps m clock readings (events :: rest)
        ⟨.polled :: ((reports ++ [report]).map .stepped ++ leave m' (.fault fault)), m',
          .fault fault⟩
  | unmeasured {m clock readings events rest reports m' e}
      (hburst : (m.replay (arrivals events)).Burst steps reports m')
      (hgood : ∀ r ∈ reports, r.succeeded = true) (hdue : clock.due readings.current = .error e) :
      Course steps m clock readings (events :: rest)
        ⟨.polled :: (reports.map .stepped ++ leave m' (.clock e)), m', .clock e⟩
  | framed {m clock readings events rest reports m' due clock' run}
      (hburst : (m.replay (arrivals events)).Burst steps reports m')
      (hgood : ∀ r ∈ reports, r.succeeded = true)
      (hdue : clock.due readings.current = .ok (due, clock'))
      (onward : Course steps (settle m' due).2 clock' readings.next rest run) :
      Course steps m clock readings (events :: rest)
        ⟨.polled :: (reports.map .stepped ++ ((settle m' due).1 ++ run.trail)), run.machine,
          run.stop⟩

variable {steps : Nat} {m : Machine} {events : List HostEvent} {reports : List Report}
  {report : Report} {stop : Stop}

theorem replay_arrivals (m : Machine) (events : List HostEvent) :
    m.replay (arrivals events) = { m with keypad := (poll m.keypad events).1 } := by
  induction events generalizing m with
  | nil => rfl
  | cons event rest ih =>
    cases event with
    | key op => exact ih (m.keyed op)
    | quit | interrupt => rfl

theorem poll_asks {p : Keypad} (h : (poll p events).2 = some stop) :
    stop = .quit ∨ stop = .interrupt := by
  induction events generalizing p with
  | nil => cases h
  | cons event rest ih =>
    cases event with
    | key op => exact ih h
    | quit => exact Or.inl (Option.some.inj h).symm
    | interrupt => exact Or.inr (Option.some.inj h).symm

theorem work_of_asked (steps : Nat) (h : (poll m.keypad events).2 = some stop) :
    work steps m events = ([.polled], m.replay (arrivals events), some stop) := by
  rw [replay_arrivals]
  simp only [work, h]

def fault? (reports : List Report) : Option Stop :=
  reports.getLast?.bind fun r =>
    match r.outcome with
    | .error f => some (.fault f)
    | .ok _ => none

theorem work_of_unasked (steps : Nat) (h : (poll m.keypad events).2 = none) :
    work steps m events =
      (.polled :: ((m.replay (arrivals events)).burst steps).1.map .stepped,
        ((m.replay (arrivals events)).burst steps).2,
        fault? ((m.replay (arrivals events)).burst steps).1) := by
  rw [replay_arrivals]
  simp only [work, h]
  rfl

/-- The reports of a burst are good until the last, which may be a fault. -/
theorem good_or_fault {n : Machine} (h : m.Burst steps reports n) :
    ((∀ r ∈ reports, r.succeeded = true) ∧ fault? reports = none) ∨
      ∃ before report fault, reports = before ++ [report] ∧
        (∀ r ∈ before, r.succeeded = true) ∧ report.outcome = .error fault ∧
        fault? reports = some (.fault fault) := by
  cases hlast : reports.getLast? with
  | none =>
    rw [List.getLast?_eq_none_iff.mp hlast]
    exact Or.inl ⟨fun r hr => absurd hr List.not_mem_nil, rfl⟩
  | some report =>
    obtain ⟨before, rfl⟩ := List.getLast?_eq_some_iff.mp hlast
    have hbefore : ∀ r ∈ before, r.succeeded = true := by
      intro r hr
      apply Report.succeeded_of_executed
      apply h.executed_of_mem_dropLast
      rw [List.dropLast_concat]
      exact hr
    cases hout : report.outcome with
    | error fault =>
      refine Or.inr ⟨before, report, fault, rfl, hbefore, hout, ?_⟩
      simp only [fault?, hlast, Option.bind_some, hout]
    | ok progress =>
      refine Or.inl ⟨?_, by simp only [fault?, hlast, Option.bind_some, hout]⟩
      intro r hr
      rcases List.mem_append.mp hr with hr | hr
      · exact hbefore r hr
      · rw [List.mem_singleton.mp hr, Report.succeeded, hout]
        rfl

theorem loop_course (steps : Nat) (m : Machine) (clock : Clock τ) (readings : Readings τ)
    (batches : List (List HostEvent)) :
    Course steps m clock readings batches (loop steps m clock readings batches) := by
  induction batches generalizing m clock readings with
  | nil => exact .deserted
  | cons events rest ih =>
    cases hpoll : (poll m.keypad events).2 with
    | some stop =>
      simp only [loop, work_of_asked steps hpoll]
      exact .stopped (poll_asks hpoll)
    | none =>
      have hwork := work_of_unasked steps hpoll
      have hburst := (m.replay (arrivals events)).burst_spec steps
      rcases good_or_fault hburst with ⟨hgood, hnone⟩ | ⟨before, report, fault, hsplit, hgood,
        hfault, hsome⟩
      · rw [hnone] at hwork
        cases hdue : clock.due readings.current with
        | error e =>
          simp only [loop, hwork, hdue]
          exact .unmeasured hburst hgood hdue
        | ok passed =>
          simp only [loop, hwork, hdue, List.cons_append, List.append_assoc]
          exact .framed hburst hgood hdue (ih _ _ _)
      · rw [hsome] at hwork
        rw [hsplit] at hwork hburst
        simp only [loop, hwork]
        exact .faulted hburst hgood hfault

theorem run_course (clockHz : Int) (m : Machine) (readings : Readings τ)
    (batches : List (List HostEvent)) :
    Course (budget clockHz) m (Clock.ofRate Clock.timerRate readings.current) readings.next batches
      (run clockHz m readings batches) :=
  loop_course _ _ _ _ _

end Chip8.Host
