import Chip8.Proofs.Host.Parting
import Chip8.Proofs.Machine.Reachable
import Mathlib.Data.List.SplitBy

/-!
# The accounts of a run

A run polls once for each frame and once more, and closes the window once. Each frame keeps within
the budget of steps that the clock gives it. The cycles at the end are the steps that met no fault;
a fault ends the run with the step that met it, and is reported once.
-/
namespace Chip8

def Action.isPoll : Action → Bool
  | .polled => true
  | _ => false

namespace Host

/-- The trail cut before each poll. A round with a pace in it is a completed frame. -/
def Run.rounds (r : Run) : List (List Action) := r.trail.splitBy fun _ a => !a.isPoll

/-- A round within a budget of steps. Nothing is stepped behind a step that waits, and a frame
completes short of the budget only by such a step. -/
structure Budgeted (steps : Nat) (round : List Action) : Prop where
  until_last : ∀ report ∈ (reports round).dropLast, report.outcome = .ok .executed
  frame : ∀ rate, .paced rate ∈ round →
    1 ≤ (reports round).length ∧ (reports round).length ≤ steps ∧
      ((reports round).length < steps →
        ∃ report, (reports round).getLast? = some report ∧ report.outcome = .ok .awaitingKey)

def Readings.taken {τ : Type} (readings : Readings τ) : Nat → List τ
  | 0 => []
  | n + 1 => readings.current :: readings.next.taken n

variable {τ : Type} [Seconds τ] {m : Machine} {clock : Clock τ} {readings : Readings τ}
  {batches : List (List HostEvent)} {body tail : List Action} {taken : List Report} {steps : Nat}
  {r : Run}

/-! Rounds. -/

theorem reports_settle (m : Machine) (due : Int) : reports (settle m due).1 = [] :=
  List.filterMap_eq_nil_iff.mpr (forall_mem_settle m due rfl (fun _ => rfl) rfl)

theorem reports_leave (m : Machine) (stop : Stop) : reports (leave m stop) = [] := by
  cases stop with
  | quit | interrupt | fault | clock => rfl

theorem reports_round (taken : List Report) (h : reports tail = []) :
    reports (.polled :: (taken.map .stepped ++ tail)) = taken := by
  have htaken : reports (taken.map .stepped) = taken := by
    unfold reports
    rw [List.filterMap_map]
    exact List.filterMap_some
  unfold reports at h htaken ⊢
  rw [List.filterMap_cons_none rfl, List.filterMap_append, htaken, h, List.append_nil]

theorem unpolled_settle (m : Machine) (due : Int) : ∀ a ∈ (settle m due).1, a.isPoll = false :=
  forall_mem_settle m due rfl (fun _ => rfl) rfl

theorem unpolled_leave (m : Machine) (stop : Stop) : ∀ a ∈ leave m stop, a.isPoll = false := by
  cases stop with
  | quit | interrupt | fault | clock => simp [leave, Action.isPoll]

theorem unpolled_round (taken : List Report) (h : ∀ a ∈ tail, a.isPoll = false) :
    ∀ a ∈ taken.map .stepped ++ tail, a.isPoll = false :=
  List.forall_mem_append.mpr ⟨List.forall_mem_map.mpr fun _ _ => rfl, h⟩

theorem isChain_of_unpolled (h : ∀ a ∈ body, a.isPoll = false) (first : Action) :
    (first :: body).IsChain fun _ a => !a.isPoll := by
  induction body generalizing first with
  | nil => exact .singleton first
  | cons a body ih =>
    obtain ⟨ha, hbody⟩ := List.forall_mem_cons.mp h
    refine .cons_cons ?_ (ih hbody a)
    rw [ha]
    rfl

theorem rounds_behind (hbody : ∀ a ∈ body, a.isPoll = false)
    (hr : ∀ a ∈ r.trail.head?, a.isPoll = true) :
    (r.behind (.polled :: body)).rounds = (.polled :: body) :: r.rounds := by
  unfold Run.rounds Run.behind
  rw [List.splitBy_append, List.splitBy_of_isChain (List.cons_ne_nil _ _)
    (isChain_of_unpolled hbody _), List.singleton_append]
  intro x _ y hy
  rw [hr y hy]
  rfl

theorem rounds_last (hbody : ∀ a ∈ body, a.isPoll = false) {stop : Stop} :
    (⟨.polled :: body, m, stop⟩ : Run).rounds = [.polled :: body] :=
  List.splitBy_of_isChain (List.cons_ne_nil _ _) (isChain_of_unpolled hbody _)

theorem Course.polled_first (h : Course steps m clock readings batches r) :
    ∀ a ∈ r.trail.head?, a.isPoll = true := by
  cases h with
  | deserted | stopped | faulted | unmeasured | framed =>
    intro a ha
    cases ha
    rfl

/-- Induction over the rounds. The run leaves in its last round, and every other is a frame. -/
theorem Course.round_induction {P : Run → Prop} (h : Course steps m clock readings batches r)
    (last : ∀ (n m' : Machine) (k : Nat) (taken : List Report) (stop : Stop), n.Burst k taken m' →
      P ⟨.polled :: (taken.map .stepped ++ leave m' stop), m', stop⟩)
    (frame : ∀ (n m' : Machine) (taken : List Report) (due : Int) (run : Run),
      n.Burst steps taken m' → (∀ r ∈ taken, r.succeeded = true) →
      (∀ a ∈ run.trail.head?, a.isPoll = true) → P run →
      P (run.behind (.polled :: (taken.map .stepped ++ (settle m' due).1)))) : P r := by
  induction h with
  | deserted => exact last _ _ 0 [] .quit .spent
  | @stopped m clock readings events rest stop => exact last _ _ 0 [] stop .spent
  | faulted hburst => exact last _ _ _ _ _ hburst
  | unmeasured hburst => exact last _ _ _ _ _ hburst
  | @framed m clock readings events rest taken m' due clock' run hburst hgood _ onward ih =>
    have hframe := frame _ m' taken due run hburst hgood onward.polled_first ih
    unfold Run.behind at hframe
    rw [List.cons_append, List.append_assoc] at hframe
    exact hframe

theorem unpaced_leave (m : Machine) (stop : Stop) (rate : Nat) : .paced rate ∉ leave m stop :=
  not_mem_of_unpaced (leave_unpaced m stop) (Option.some_ne_none rate)

/-- A round in which no frame completes. -/
theorem Budgeted.of_last {n : Machine} {k : Nat} (hburst : n.Burst k taken m) (stop : Stop) :
    Budgeted steps (.polled :: (taken.map .stepped ++ leave m stop)) where
  until_last report hr := by
    rw [reports_round taken (reports_leave m stop)] at hr
    exact hburst.executed_of_mem_dropLast hr
  frame rate hmem := by
    simp [unpaced_leave] at hmem

theorem Budgeted.of_frame {n : Machine} (hsteps : 0 < steps) (hburst : n.Burst steps taken m)
    (hgood : ∀ r ∈ taken, r.succeeded = true) (due : Int) :
    Budgeted steps (.polled :: (taken.map .stepped ++ (settle m due).1)) where
  until_last report hr := by
    rw [reports_round taken (reports_settle m due)] at hr
    exact hburst.executed_of_mem_dropLast hr
  frame rate _ := by
    rw [reports_round taken (reports_settle m due)]
    refine ⟨List.length_pos_iff.mpr (hburst.ne_nil hsteps), hburst.length_le, ?_⟩
    intro hshort
    obtain ⟨report, hlast, hstall⟩ := hburst.getLast?_of_short hshort
    refine ⟨report, hlast, ?_⟩
    have hgood' : report.succeeded = true := hgood report (List.mem_of_getLast? hlast)
    cases hout : report.outcome with
    | error fault =>
      rw [Report.succeeded_eq_false_iff.mpr ⟨fault, hout⟩] at hgood'
      cases hgood'
    | ok progress =>
      cases progress with
      | executed => exact absurd hout hstall
      | awaitingKey => rfl

theorem Course.budgeted (hsteps : 0 < steps) (h : Course steps m clock readings batches r) :
    ∀ round ∈ r.rounds, Budgeted steps round := by
  refine h.round_induction (P := fun r => ∀ round ∈ r.rounds, Budgeted steps round) ?_ ?_
  · intro n m' k taken stop hburst
    rw [rounds_last (unpolled_round taken (unpolled_leave m' stop))]
    exact List.forall_mem_singleton.mpr (.of_last hburst stop)
  · intro n m' taken due run hburst hgood hpolled ih
    rw [rounds_behind (unpolled_round taken (unpolled_settle m' due)) hpolled]
    exact List.forall_mem_cons.mpr ⟨.of_frame hsteps hburst hgood due, ih⟩

/-! Counts. -/

theorem filterMap_taken {β : Type} {g : Action → Option β} (taken : List Report)
    (hg : ∀ report, g (.stepped report) = none) : (taken.map Action.stepped).filterMap g = [] := by
  rw [List.filterMap_map, List.filterMap_eq_nil_iff]
  intro report _
  exact hg report

theorem rates_settle (m : Machine) (due : Int) :
    (settle m due).1.filterMap Action.rate? = [Clock.timerRate] := by
  rw [settle_eq, List.filterMap_append, List.filterMap_append, filterMap_ticked rfl]
  simp [Function.comp_def, Action.rate?]

theorem pictures_settle (m : Machine) (due : Int) :
    ((settle m due).1.filterMap Action.picture?).length ≤ 1 := by
  rw [settle_eq, List.filterMap_append, List.filterMap_append, filterMap_ticked rfl]
  unfold presentation
  cases (ticks m due.toNat).display.dirty with
  | true => exact Nat.le_refl 1
  | false => exact Nat.zero_le 1

theorem pictures_leave (m : Machine) (stop : Stop) :
    (leave m stop).filterMap Action.picture? = [] := by
  cases stop with
  | quit | interrupt | fault | clock => rfl

theorem polls_eq (r : Run) : r.polls = r.trail.countP Action.isPoll := rfl

theorem countP_unpolled (h : ∀ a ∈ body, a.isPoll = false) : body.countP Action.isPoll = 0 := by
  rw [List.countP_eq_zero]
  intro a ha
  rw [h a ha]
  exact Bool.false_ne_true

theorem filterMap_round {β : Type} {g : Action → Option β} (taken : List Report)
    (tail : List Action) (hp : g .polled = none) (hs : ∀ report, g (.stepped report) = none) :
    (.polled :: (taken.map .stepped ++ tail)).filterMap g = tail.filterMap g := by
  rw [List.filterMap_cons_none hp, List.filterMap_append, filterMap_taken taken hs,
    List.nil_append]

theorem Course.counts (h : Course steps m clock readings batches r) :
    r.paces.length + 1 = r.polls ∧ r.pictures.length ≤ r.paces.length := by
  refine h.round_induction
    (P := fun r => r.paces.length + 1 = r.polls ∧ r.pictures.length ≤ r.paces.length) ?_ ?_
  · intro n m' k taken stop _
    have hpolls : (⟨.polled :: (taken.map .stepped ++ leave m' stop), m', stop⟩ : Run).polls = 1 := by
      rw [polls_eq, List.countP_cons_of_pos rfl,
        countP_unpolled (unpolled_round taken (unpolled_leave m' stop))]
    rw [hpolls]
    unfold Run.paces Run.pictures
    rw [filterMap_round taken _ rfl fun _ => rfl, filterMap_round taken _ rfl fun _ => rfl,
      leave_unpaced, pictures_leave]
    exact ⟨rfl, Nat.le_refl 0⟩
  · intro n m' taken due run _ _ _ ih
    obtain ⟨hpolls, hpictures⟩ := ih
    have hone := pictures_settle m' due
    unfold Run.paces Run.pictures Run.behind at *
    rw [polls_eq, List.countP_append, List.countP_cons_of_pos rfl,
      countP_unpolled (unpolled_round taken (unpolled_settle m' due)), List.filterMap_append,
      List.filterMap_append, filterMap_round taken _ rfl fun _ => rfl,
      filterMap_round taken _ rfl fun _ => rfl, rates_settle, List.length_append,
      List.length_append]
    rw [polls_eq] at hpolls
    simp only [List.length_singleton]
    omega

/-! The clock. -/

/-- If the clock answers to every reading that a frame may take, it does not end the run. -/
theorem Course.answered {answers : List (Int × Clock τ)}
    (h : Course steps m clock readings batches r)
    (hdues : clock.dues (readings.taken batches.length) = .ok answers) (e : ClockError) :
    r.stop ≠ .clock e := by
  induction h generalizing answers with
  | deserted => simp
  | stopped hstop =>
    rcases hstop with rfl | rfl
    · simp
    · simp
  | faulted => simp
  | @unmeasured m clock readings events rest taken m' e' _ _ hdue =>
    simp only [List.length_cons, Readings.taken, Clock.dues, hdue] at hdues
    cases hdues
  | @framed m clock readings events rest taken m' due clock' run _ _ hdue _ ih =>
    simp only [List.length_cons, Readings.taken, Clock.dues, hdue] at hdues
    cases hrest : clock'.dues (readings.next.taken rest.length) with
    | error e' =>
      change (clock'.dues (readings.next.taken rest.length) >>= _) = _ at hdues
      rw [hrest] at hdues
      cases hdues
    | ok answers' => exact ih hrest

/-! The accounts. -/

theorem Parted.status_iff (h : Parted r) :
    r.status = 255 ↔ ∃ report ∈ reports r.trail, ∃ fault, report.outcome = .error fault := by
  constructor
  · intro hstatus
    cases hstop : r.stop with
    | quit | interrupt | clock =>
      unfold Run.status at hstatus
      rw [hstop] at hstatus
      cases hstatus
    | fault fault =>
      obtain ⟨before, report, after, hsplit, hfault⟩ := h.exists_fault hstop
      exact ⟨report, mem_reports_iff.mpr (mem_of_split hsplit), fault, hfault⟩
  · rintro ⟨report, hmem, fault, hfault⟩
    obtain ⟨before, after, hsplit⟩ := List.append_of_mem (mem_reports_iff.mp hmem)
    unfold Run.status
    rw [(h.of_fault hsplit hfault).1]
    rfl

structure Accounted (clockHz : Int) (m : Machine) (batches : List (List HostEvent)) (r : Run) :
    Prop where
  closed_once : r.closes = 1
  paced : r.paces.length + 1 = r.polls
  rendered : r.pictures.length ≤ r.paces.length
  budgeted : ∀ steps : Nat, (steps : Int) = max 1 (clockHz / 60) →
    ∀ round ∈ r.rounds, Budgeted steps round
  machine : r.machine = m.replay (history batches r.trail)
  reported : ∀ before report after, r.trail = before ++ .stepped report :: after →
    report = (m.replay (history batches before)).step.report
  cycles : r.machine.cycles = (reports r.trail).countP Report.succeeded
  status_iff : r.status = 255 ↔
    ∃ report ∈ reports r.trail, ∃ fault, report.outcome = .error fault
  fault : ∀ before report after fault, r.trail = before ++ .stepped report :: after →
    report.outcome = .error fault →
      history batches r.trail = history batches before ++ [.step] ∧
      r.machine.registers.pc = (m.replay (history batches before)).registers.pc ∧
      r.errors = [.error ("Fatal: " ++ fault.message)] ∧
      r.dumped = "Dumping registers:\n" ++ r.machine.registers.dump ++ "\n"
  otherwise : r.status ≠ 255 → r.status = 0 ∧ r.errors = [] ∧ r.dumped = ""

/-- A step that faults is the last thing that happens to the machine. -/
theorem fault_is_last {before after : List Action} {report : Report} {fault : Fault}
    (h : Recorded m batches r.trail r.machine)
    (hsplit : r.trail = before ++ .stepped report :: after) (hfault : report.outcome = .error fault)
    (hafter : after = leave r.machine (.fault fault)) :
    history batches r.trail = history batches before ++ [.step] ∧
      r.machine.registers.pc = (m.replay (history batches before)).registers.pc := by
  obtain ⟨left, hleft⟩ := history_append batches before (.stepped report :: after)
  have hhistory : history batches r.trail = history batches before ++ [.step] := by
    rw [hsplit, hleft, hafter]
    rfl
  have hmachine : r.machine = (m.replay (history batches before)).step.machine := by
    rw [h.replay, hhistory, Machine.replay_append]
    rfl
  have hstep : (m.replay (history batches before)).step.report.outcome = .error fault := by
    rw [hsplit] at h
    rw [← h.report_eq, hfault]
  refine ⟨hhistory, ?_⟩
  rw [hmachine, Machine.step_pc_of_error hstep]

theorem Course.accounted {clockHz : Int} {answers : List (Int × Clock τ)}
    (h : Course (budget clockHz) m clock readings batches r) (hfresh : m.cycles = 0)
    (hdues : clock.dues (readings.taken batches.length) = .ok answers) :
    Accounted clockHz m batches r where
  closed_once := h.parted.closed_once
  paced := h.counts.1
  rendered := h.counts.2
  budgeted steps hsteps := by
    have hbudget : budget clockHz = steps := by
      unfold budget
      change (max 1 (clockHz / 60)).toNat = steps
      omega
    rw [← hbudget]
    exact h.budgeted (by omega)
  machine := h.recorded.replay
  reported before report after hsplit := by
    have hrecorded := h.recorded
    rw [hsplit] at hrecorded
    exact hrecorded.report_eq
  cycles := by
    rw [h.recorded.cycles, hfresh, Nat.zero_add]
  status_iff := h.parted.status_iff
  fault before report after fault hsplit hfault := by
    obtain ⟨-, hafter, hreported⟩ := h.parted.of_fault hsplit hfault
    obtain ⟨hhistory, hpc⟩ := fault_is_last h.recorded hsplit hfault hafter
    exact ⟨hhistory, hpc, hreported⟩
  otherwise hstatus := by
    have hgood : ∀ fault, r.stop ≠ .fault fault := by
      intro fault hstop
      apply hstatus
      unfold Run.status
      rw [hstop]
      rfl
    refine ⟨?_, h.parted.quiet hgood⟩
    unfold Run.status
    cases hstop : r.stop with
    | quit | interrupt => rfl
    | fault fault => exact absurd hstop (hgood fault)
    | clock e => exact absurd hstop (h.answered hdues e)

/-- Whatever the program, the rate of the clock and the events, the accounts of a run are in order,
provided the clock has an answer for every frame. -/
theorem run_accounted (legacy : Bool) (seed : Int) (program : List UInt8) (clockHz : Int)
    (readings : Readings τ) (batches : List (List HostEvent))
    (hclock : ∃ answers, (Clock.ofRate Clock.timerRate readings.current).dues
      (readings.next.taken batches.length) = .ok answers) :
    let m := (Machine.fresh legacy seed).perform (.load program)
    Accounted clockHz m batches (run clockHz m readings batches) := by
  intro m
  obtain ⟨answers, hdues⟩ := hclock
  have hfresh : m.cycles = 0 :=
    Machine.load_preserves (P := fun m => m.cycles = 0) rfl fun _ => rfl
  exact (run_course clockHz m readings batches).accounted hfresh hdues

/-- A clock below zero gives one step to each frame. The second frame returns from no call. -/
theorem run_accounted_of_underflow :
    let readings : Readings Rat := ⟨0, [1 / 60, 1 / 20]⟩
    let batches : List (List HostEvent) := [[.key (.press 3)], [], []]
    let m := (Machine.fresh false 0).perform (.load [0x00, 0xE0, 0x00, 0xEE])
    (∃ answers, (Clock.ofRate Clock.timerRate readings.current).dues
      (readings.next.taken batches.length) = .ok answers) ∧
    (run (-5) m readings batches).stop = .fault (.stackUnderflow 0x202) ∧
    Accounted (-5) m batches (run (-5) m readings batches) := by
  intro readings batches m
  have hclock : ∃ answers, (Clock.ofRate Clock.timerRate readings.current).dues
      (readings.next.taken batches.length) = .ok answers := ⟨_, rfl⟩
  refine ⟨hclock, by decide +kernel, ?_⟩
  exact run_accounted false 0 [0x00, 0xE0, 0x00, 0xEE] (-5) readings batches hclock

end Host

end Chip8
