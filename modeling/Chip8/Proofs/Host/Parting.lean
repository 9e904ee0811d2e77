import Chip8.Proofs.Host.Presentation
import Chip8.Proofs.Host.Record
import Chip8.Proofs.Machine.Tracing

/-!
# How a run ends

As long as a run goes on, no step of it faults and nothing is closed, dumped or logged as an error.
Then it leaves, because it was asked to, because the clock has no answer, or right after the first
step that faults.
-/
namespace Chip8

/-- The action belongs to a run that goes on. -/
def Action.isSmooth : Action → Bool
  | .polled | .ticked | .rendered _ | .paced _ => true
  | .stepped report => report.succeeded
  | .logged _ | .printed _ | .dumped _ | .closed => false

namespace Host

def Run.errors (r : Run) : List LogLine := r.lines.filter (·.level = .error)

def dumpText (m : Machine) : String := "Dumping registers:\n" ++ m.registers.dump ++ "\n"

def Run.behind (r : Run) (before : List Action) : Run := ⟨before ++ r.trail, r.machine, r.stop⟩

inductive Parted : Run → Prop where
  | asked {worked m stop} (hworked : ∀ a ∈ worked, a.isSmooth = true)
      (hstop : ∀ f, stop ≠ .fault f) : Parted ⟨worked ++ leave m stop, m, stop⟩
  | faulted {worked m report fault} (hworked : ∀ a ∈ worked, a.isSmooth = true)
      (hfault : report.outcome = .error fault) :
      Parted ⟨worked ++ .stepped report :: leave m (.fault fault), m, .fault fault⟩

variable {τ : Type} [Seconds τ] {m : Machine} {batches : List (List HostEvent)}
  {worked before after : List Action} {report : Report} {fault : Fault} {steps : Nat} {r : Run}

theorem smooth_polled : ∀ a ∈ [Action.polled], a.isSmooth = true := by
  simp [Action.isSmooth]

theorem smooth_work {taken : List Report} (h : ∀ r ∈ taken, r.succeeded = true) :
    ∀ a ∈ Action.polled :: taken.map .stepped, a.isSmooth = true :=
  List.forall_mem_cons.mpr ⟨rfl, List.forall_mem_map.mpr h⟩

/-- All that the second half of a frame can do. -/
theorem forall_mem_settle {P : Action → Prop} (m : Machine) (due : Int) (hticked : P .ticked)
    (hrendered : ∀ cells, P (.rendered cells)) (hpaced : P (.paced Clock.timerRate)) :
    ∀ a ∈ (settle m due).1, P a := by
  rw [settle_eq]
  refine List.forall_mem_append.mpr ⟨?_, List.forall_mem_append.mpr ⟨?_, ?_⟩⟩
  · intro a ha
    rw [List.eq_of_mem_replicate ha]
    exact hticked
  · exact List.forall_mem_map.mpr fun cells _ => hrendered cells
  · exact List.forall_mem_singleton.mpr hpaced

theorem smooth_settle (m : Machine) (due : Int) : ∀ a ∈ (settle m due).1, a.isSmooth = true :=
  forall_mem_settle m due rfl (fun _ => rfl) rfl

theorem Parted.behind (h : Parted r) (hbefore : ∀ a ∈ before, a.isSmooth = true) :
    Parted (r.behind before) := by
  unfold Run.behind
  cases h with
  | asked hworked hstop =>
    rw [← List.append_assoc]
    exact .asked (List.forall_mem_append.mpr ⟨hbefore, hworked⟩) hstop
  | faulted hworked hfault =>
    rw [← List.append_assoc]
    exact .faulted (List.forall_mem_append.mpr ⟨hbefore, hworked⟩) hfault

theorem Course.parted {clock : Clock τ} {readings : Readings τ}
    (h : Course steps m clock readings batches r) : Parted r := by
  induction h with
  | deserted => exact .asked smooth_polled (by simp)
  | stopped hstop =>
    refine .asked smooth_polled ?_
    rcases hstop with rfl | rfl
    · simp
    · simp
  | @faulted m clock readings events rest reports report m' fault _ hgood hfault =>
    rw [List.map_append, List.append_assoc]
    exact .faulted (smooth_work hgood) hfault
  | unmeasured _ hgood => exact .asked (smooth_work hgood) (by simp)
  | framed _ hgood _ _ ih => exact (ih.behind (smooth_settle _ _)).behind (smooth_work hgood)

/-! What a run that goes on leaves untouched. -/

theorem not_mem_of_smooth (hworked : ∀ a ∈ worked, a.isSmooth = true)
    (hfault : report.outcome = .error fault) : Action.stepped report ∉ worked := by
  intro hmem
  have hgood : report.succeeded = true := hworked _ hmem
  rw [Report.succeeded_eq_false_iff.mpr ⟨fault, hfault⟩] at hgood
  cases hgood

theorem closes_behind (h : ∀ a ∈ before, a.isSmooth = true) (r : Run) :
    (r.behind before).closes = r.closes := by
  unfold Run.closes Run.behind
  rw [List.countP_append, Nat.add_eq_right, List.countP_eq_zero]
  intro a ha
  have hsmooth := h a ha
  cases a with
  | closed => cases hsmooth
  | polled | stepped | ticked | rendered | paced | logged | printed | dumped => simp

theorem dumped_behind (h : ∀ a ∈ before, a.isSmooth = true) (r : Run) :
    (r.behind before).dumped = r.dumped := by
  have hnone : String.join (before.map Action.dump) = "" := by
    induction before with
    | nil => rfl
    | cons a before ih =>
      obtain ⟨ha, hbefore⟩ := List.forall_mem_cons.mp h
      rw [List.map_cons, String.join_cons, ih hbefore]
      cases a with
      | dumped => cases ha
      | polled | stepped | ticked | rendered | paced | logged | printed | closed => rfl
  unfold Run.dumped Run.behind
  rw [List.map_append, String.join_append, hnone, String.empty_append]

theorem errors_stepped (report : Report) :
    (Action.lines (.stepped report)).filter (·.level = .error) = [] := by
  rw [List.filter_eq_nil_iff]
  intro line hline
  obtain ⟨note, -, rfl⟩ := List.mem_map.mp hline
  simp [Note.level_line]

theorem errors_behind (h : ∀ a ∈ before, a.isSmooth = true) (r : Run) :
    (r.behind before).errors = r.errors := by
  have hnone : (before.flatMap Action.lines).filter (·.level = .error) = [] := by
    rw [List.filter_flatMap, List.flatMap_eq_nil_iff]
    intro a ha
    have hsmooth := h a ha
    cases a with
    | stepped report => exact errors_stepped report
    | polled | ticked | rendered | paced => rfl
    | logged | printed | dumped | closed => cases hsmooth
  unfold Run.errors Run.lines Run.behind
  rw [List.flatMap_append, List.filter_append, hnone, List.nil_append]

/-! What a run shows of its end. -/

theorem leave_closes (m : Machine) (stop : Stop) : (⟨leave m stop, m, stop⟩ : Run).closes = 1 := by
  cases stop with
  | quit | interrupt | fault | clock => rfl

theorem fallen_errors (m : Machine) (report : Report) (fault : Fault) :
    (⟨.stepped report :: leave m (.fault fault), m, .fault fault⟩ : Run).errors =
      [.error ("Fatal: " ++ fault.message)] := by
  change ((Action.lines (.stepped report)) ++ _).filter _ = _
  rw [List.filter_append, errors_stepped]
  rfl

theorem fallen_dumped (m : Machine) (report : Report) (fault : Fault) :
    (⟨.stepped report :: leave m (.fault fault), m, .fault fault⟩ : Run).dumped = dumpText m := by
  change String.join ["", "", dumpText m, ""] = _
  simp

theorem Parted.closed_once (h : Parted r) : r.closes = 1 := by
  cases h with
  | @asked worked m stop hworked =>
    exact (closes_behind hworked ⟨leave m stop, m, stop⟩).trans (leave_closes m stop)
  | @faulted worked m report fault hworked =>
    exact closes_behind hworked ⟨.stepped report :: leave m (.fault fault), m, .fault fault⟩

/-- The first step that faults is the last action of the loop, and what follows is fixed by it. -/
theorem Parted.of_fault (h : Parted r) (hsplit : r.trail = before ++ .stepped report :: after)
    (hfault : report.outcome = .error fault) :
    r.stop = .fault fault ∧ after = leave r.machine (.fault fault) ∧
      r.errors = [.error ("Fatal: " ++ fault.message)] ∧ r.dumped = dumpText r.machine := by
  cases h with
  | @asked worked m stop hworked hstop =>
    exfalso
    obtain ⟨between, -, hleave⟩ := split_of_unpaced (not_mem_of_smooth hworked hfault) hsplit
    have hmem := mem_of_split hleave
    cases stop with
    | fault f => exact hstop f rfl
    | quit | interrupt | clock => simp [leave] at hmem
  | @faulted worked m report' fault' hworked hfault' =>
    obtain ⟨between, -, hleave⟩ := split_of_unpaced (not_mem_of_smooth hworked hfault) hsplit
    -- Behind the work there is one report only.
    cases between with
    | cons a between =>
      obtain ⟨-, hleave⟩ := List.cons.inj hleave
      have hmem := mem_of_split hleave
      simp [leave] at hmem
    | nil =>
      obtain ⟨hreport, hafter⟩ := List.cons.inj hleave
      obtain rfl := Action.stepped.inj hreport
      obtain rfl : fault' = fault := Except.error.inj (hfault'.symm.trans hfault)
      refine ⟨rfl, hafter.symm, ?_, ?_⟩
      · exact (errors_behind hworked ⟨_, m, _⟩).trans (fallen_errors m report' fault')
      · exact (dumped_behind hworked ⟨_, m, _⟩).trans (fallen_dumped m report' fault')

theorem Parted.exists_fault (h : Parted r) (hstop : r.stop = .fault fault) :
    ∃ before report after, r.trail = before ++ .stepped report :: after ∧
      report.outcome = .error fault := by
  cases h with
  | asked _ hasked => exact absurd hstop (hasked fault)
  | @faulted worked m report fault' _ hfault =>
    obtain rfl := Stop.fault.inj hstop
    exact ⟨worked, report, _, rfl, hfault⟩

theorem Parted.quiet (h : Parted r) (hstop : ∀ f, r.stop ≠ .fault f) :
    r.errors = [] ∧ r.dumped = "" := by
  cases h with
  | @asked worked m stop hworked =>
    have hquiet : (⟨leave m stop, m, stop⟩ : Run).errors = [] ∧
        (⟨leave m stop, m, stop⟩ : Run).dumped = "" := by
      cases stop with
      | fault f => exact absurd rfl (hstop f)
      | quit | interrupt | clock => exact ⟨rfl, rfl⟩
    exact ⟨(errors_behind hworked _).trans hquiet.1, (dumped_behind hworked _).trans hquiet.2⟩
  | faulted => exact absurd rfl (hstop _)

end Host

end Chip8
