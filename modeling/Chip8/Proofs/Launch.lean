import Chip8.Launch
import Chip8.Proofs.CommandLine
import Chip8.Proofs.Host.Accounting
import Chip8.Proofs.Rom

/-!
# The status of a launch

A launch fails with status 1 when its program cannot be loaded, and a crash has that status, too. Once
the program is loaded, nothing is left that could break the launch off, provided that the options have
their numbers, the window opens and the clock has its answers.
-/
namespace Chip8

def Options.WindowOpens (toolkit : Window.Toolkit) (o : Options) : Prop :=
  ∀ z, o.scale = .number z → ∃ size, toolkit (Window.size (Window.scaleOf z)) = .ok size

theorem Setting.need_number (z : Int) (absent : Crash) : (Setting.number z).need absent = .ok z :=
  rfl

theorem Setting.need_empty (absent : Crash) : Setting.empty.need absent = .error absent := rfl

namespace Launch

-- A setup is taken apart by rewriting with these.
theorem ok_bind {α β : Type} (a : α) (f : α → Except Crash β) : (Except.ok a >>= f) = f a := rfl

theorem error_bind {α β : Type} (c : Crash) (f : α → Except Crash β) :
    (Except.error c >>= f) = .error c := rfl

theorem mapError_ok {ε α : Type} (f : ε → Crash) (a : α) :
    (Except.ok a : Except ε α).mapError f = .ok a := rfl

/-- A launch that breaks off has a status, too. -/
def exitStatus : Except Crash Launch → Nat
  | .ok launch => launch.status
  | .error _ => Stop.crashStatus

def ClockAnswers {τ : Type} [Seconds τ] (readings : Host.Readings τ) (frames : Nat) : Prop :=
  ∃ answers, (Clock.ofRate Clock.timerRate readings.current).dues (readings.next.taken frames) =
    .ok answers

variable {τ : Type} [Seconds τ] {p : Platform} {toolkit : Window.Toolkit} {o : Options}
  {argv : List String} {files : FileTree} {entropy : Int} {readings : Host.Readings τ}
  {frames : List (List WindowEvent)} {program : List UInt8}

theorem exitStatus_failure (o : Options) (e : LoadError) : exitStatus (failure o e) = 1 := by
  cases e <;> rfl

theorem seed_of_number (h : o.seed ≠ some .empty) (entropy : Int) :
    ∃ n, seed o entropy = .ok n := by
  unfold seed
  cases hseed : o.seed with
  | none => exact ⟨entropy, rfl⟩
  | some s =>
    cases s with
    | number n => exact ⟨n, rfl⟩
    | empty => exact absurd hseed h

/-- The clock is the last thing that a setup asks for. -/
theorem setup_of_window {n z : Int} {size : Nat × Nat} (hn : seed o entropy = .ok n)
    (hz : o.scale = .number z) (hsize : toolkit (Window.size (Window.scaleOf z)) = .ok size) :
    setup toolkit o entropy = o.clock.need .emptyClock >>= fun clock =>
      pure ⟨.fresh o.legacyStore n, size, clock⟩ := by
  rw [setup, hn, ok_bind, hz, Setting.need_number, ok_bind, hsize, mapError_ok, ok_bind]

theorem setup_of_numbers (h : ¬ o.LacksNumber) (hopens : o.WindowOpens toolkit) (entropy : Int) :
    ∃ s, setup toolkit o entropy = .ok s := by
  unfold Options.LacksNumber at h
  rw [not_or, not_or] at h
  obtain ⟨hseed, hscale, hclock⟩ := h
  obtain ⟨n, hn⟩ := seed_of_number hseed entropy
  cases hz : o.scale with
  | empty => exact absurd hz hscale
  | number z =>
    obtain ⟨size, hsize⟩ := hopens z hz
    rw [setup_of_window hn hz hsize]
    cases hk : o.clock with
    | empty => exact absurd hk hclock
    | number k => exact ⟨⟨.fresh o.legacyStore n, size, k⟩, rfl⟩

theorem setup_of_lacking (h : o.LacksNumber) (hopens : o.WindowOpens toolkit) (entropy : Int) :
    ∃ c, setup toolkit o entropy = .error c := by
  cases hn : seed o entropy with
  | error c =>
    refine ⟨c, ?_⟩
    rw [setup, hn, error_bind]
  | ok n =>
    cases hz : o.scale with
    | empty =>
      refine ⟨.emptyScale, ?_⟩
      rw [setup, hn, ok_bind, hz, Setting.need_empty, error_bind]
    | number z =>
      obtain ⟨size, hsize⟩ := hopens z hz
      rcases h with hseed | hscale | hclock
      · rw [seed, hseed] at hn
        cases hn
      · rw [hz] at hscale
        cases hscale
      · refine ⟨.emptyClock, ?_⟩
        rw [setup_of_window hn hz hsize, hclock, Setting.need_empty, error_bind]

/-- A machine that runs by a clock with all its answers ends with a quit or with a fault. -/
theorem start_of_answered (o : Options) (s : Setup) (program : List UInt8)
    (hclock : ClockAnswers readings frames.length) :
    ∃ launch, start o s program readings frames = .ok launch ∧
      (launch.status = 0 ∨ launch.status = 255) := by
  obtain ⟨answers, hdues⟩ := hclock
  rw [← List.length_map (f := (·.filterMap Window.toHost))] at hdues
  have hstop := (Host.run_course s.clock s.machine readings
    (frames.map (·.filterMap Window.toHost))).answered hdues
  generalize hrun : Host.run s.clock s.machine readings
    (frames.map (·.filterMap Window.toHost)) = run at hstop
  simp only [start, hrun]
  cases hs : run.stop with
  | quit | interrupt =>
    refine ⟨_, rfl, Or.inl ?_⟩
    exact congrArg Stop.status hs
  | fault fault =>
    refine ⟨_, rfl, Or.inr ?_⟩
    exact congrArg Stop.status hs
  | clock e => exact absurd hs (hstop e)

theorem ofArguments_of_unreadable {e : LoadError} (hparse : CommandLine.parse p.dash argv = .ok o)
    (h : Rom.read files o.rom = .error e) :
    ofArguments p argv files entropy readings frames = failure o e := by
  simp only [ofArguments, hparse, h]

theorem ofArguments_of_lacking {c : Crash} (hparse : CommandLine.parse p.dash argv = .ok o)
    (h : Rom.read files o.rom = .ok program) (hsetup : setup p.toolkit o entropy = .error c) :
    ofArguments p argv files entropy readings frames = .error c := by
  simp only [ofArguments, hparse, h, hsetup]
  rfl

theorem ofArguments_of_loaded {s : Setup} (hparse : CommandLine.parse p.dash argv = .ok o)
    (h : Rom.read files o.rom = .ok program) (hsetup : setup p.toolkit o entropy = .ok s)
    (readings : Host.Readings τ) (frames : List (List WindowEvent)) :
    ∃ s', ofArguments p argv files entropy readings frames =
      start o s' program readings frames := by
  have hload := s.machine.load_of_fits (Rom.read_eq_ok_iff.mp h).2
  refine ⟨{ s with machine := { s.machine with memory := s.machine.memory.put 0x200 program } }, ?_⟩
  simp only [ofArguments, hparse, h, hsetup, bind, Except.bind, hload]

/-- A program that can be read is run, if no option lacks its number. -/
theorem launch_of_readable (hparse : CommandLine.parse p.dash argv = .ok o)
    (hnumbers : ¬ o.LacksNumber) (hopens : o.WindowOpens p.toolkit)
    (hclock : ClockAnswers readings frames.length) (h : Rom.read files o.rom = .ok program) :
    ∃ launch, ofArguments p argv files entropy readings frames = .ok launch ∧
      (launch.status = 0 ∨ launch.status = 255) := by
  obtain ⟨s, hsetup⟩ := setup_of_numbers hnumbers hopens entropy
  obtain ⟨s', hstart⟩ := ofArguments_of_loaded hparse h hsetup readings frames
  rw [hstart]
  exact start_of_answered o s' program hclock

/-- Once the arguments are understood, the window opens and the clock answers, there are three ways to
status 1, and the last is barred where a double dash is refused. -/
theorem exitStatus_eq_one_iff (hparse : CommandLine.parse p.dash argv = .ok o)
    (hopens : o.WindowOpens p.toolkit) (hclock : ClockAnswers readings frames.length) :
    exitStatus (ofArguments p argv files entropy readings frames) = 1 ↔
      (¬ ∃ b, files.Holds o.rom b) ∨ (∃ b, files.Holds o.rom b ∧ 3584 < b.length) ∨
      o.LacksNumber := by
  cases hread : Rom.read files o.rom with
  | error e =>
    rw [ofArguments_of_unreadable hparse hread, exitStatus_failure]
    refine ⟨fun _ => ?_, fun _ => rfl⟩
    by_cases hfile : ∃ b, files.Holds o.rom b
    · obtain ⟨b, h⟩ := hfile
      refine Or.inr (Or.inl ⟨b, h, Nat.lt_of_not_le fun hb => ?_⟩)
      rw [Rom.read_of_fits h hb] at hread
      cases hread
    · exact Or.inl hfile
  | ok program =>
    have hloads := Rom.not_refused_of_read hread
    by_cases hlacks : o.LacksNumber
    · obtain ⟨c, hsetup⟩ := setup_of_lacking hlacks hopens entropy
      rw [ofArguments_of_lacking hparse hread hsetup]
      exact ⟨fun _ => Or.inr (Or.inr hlacks), fun _ => rfl⟩
    · have hrun : ∃ launch, ofArguments p argv files entropy readings frames = .ok launch ∧
          (launch.status = 0 ∨ launch.status = 255) :=
        launch_of_readable hparse hlacks hopens hclock hread
      obtain ⟨launch, hlaunch, hstatus⟩ := hrun
      rw [hlaunch]
      constructor
      · intro hone
        change launch.status = 1 at hone
        omega
      · rintro (hnone | hlong | hlacking)
        · exact absurd (Or.inl hnone) hloads
        · exact absurd (Or.inr hlong) hloads
        · exact absurd hlacking hlacks

/-- Reading a file, checking its size and placing it in memory agree on what fits. So once the
arguments are understood, the window opens and the clock answers, a launch ends with status 1 exactly
if the program cannot be read or does not fit; and with a program that can be read and fits it ends as
its run does. -/
theorem loaders_agree (files : FileTree) :
    (∀ path b, files.Holds path b → b.length ≤ 3584 →
      Rom.read files path = .ok b ∧ (∀ p, Rom.checkSize b.length p = .ok ()) ∧
      ∀ (legacy : Bool) (seed : Int), ∃ memory,
        (Machine.fresh legacy seed).load b =
          .ok () { Machine.fresh legacy seed with memory := memory } ∧
        (∀ k (hk : k < b.length), memory.byte (0x200 + k) = b[k]) ∧
        ∀ a, a < 0x200 ∨ 0x200 + b.length ≤ a → memory.byte a = Memory.fresh.byte a) ∧
    (∀ path b, files.Holds path b → 3584 < b.length →
      Rom.read files path = .error (.tooLarge 3585 3584 (some (FilePath.ofString path).text)) ∧
      (∀ p, Rom.checkSize b.length p = .error (.tooLarge b.length 3584 p)) ∧
      (∀ memory, Memory.load b memory = .error (.tooLarge b.length 3584 none) memory) ∧
      ∀ m : Machine, m.perform (.load b) = m) ∧
    (∀ path program, Rom.read files path = .ok program →
      ∀ m : Machine, ∃ m', m.load program = .ok () m') ∧
    ∀ toolkit argv o entropy (readings : Host.Readings τ) frames,
      CommandLine.parse .refused argv = .ok o → o.WindowOpens toolkit →
      (∃ answers, (Clock.ofRate Clock.timerRate readings.current).dues
        (readings.next.taken frames.length) = .ok answers) →
      (exitStatus (ofArguments ⟨.refused, toolkit⟩ argv files entropy readings frames) = 1 ↔
        (¬ ∃ b, files.Holds o.rom b) ∨ ∃ b, files.Holds o.rom b ∧ 3584 < b.length) ∧
      ∀ program, Rom.read files o.rom = .ok program →
        ∃ launch, ofArguments ⟨.refused, toolkit⟩ argv files entropy readings frames = .ok launch ∧
          (launch.status = 0 ∨ launch.status = 255) := by
  refine ⟨?_, ?_, ?_, ?_⟩
  · intro path b h hb
    refine ⟨Rom.read_of_fits h hb, Rom.checkSize_of_le hb, ?_⟩
    intro legacy seed
    refine ⟨_, (Machine.fresh legacy seed).load_of_fits hb, ?_, ?_⟩
    · intro k hk
      rw [Memory.byte_put, if_pos ⟨by omega, by omega, by omega⟩, Nat.add_sub_cancel_left]
      exact (List.getElem_eq_getD 0).symm
    · intro a ha
      rw [Memory.byte_put, if_neg (by omega)]
      rfl
  · intro path b h hb
    refine ⟨Rom.read_of_oversized h hb, Rom.checkSize_of_lt hb, ?_, ?_⟩
    · intro memory
      exact memory.load_of_oversized hb
    · intro m
      exact m.perform_of_oversized hb
  · intro path program h m
    exact ⟨_, m.load_of_fits (Rom.read_eq_ok_iff.mp h).2⟩
  · intro toolkit argv o entropy readings frames hparse hopens hclock
    have hnumbers := CommandLine.not_lacksNumber_of_parse hparse
    constructor
    · rw [exitStatus_eq_one_iff hparse hopens hclock]
      simp only [hnumbers, or_false]
    · intro program hread
      exact launch_of_readable hparse hnumbers hopens hclock hread

/-- A program of two bytes is run for a frame and left, one of 3585 bytes is refused, and there is no
third file. -/
theorem loaders_agree_on_three_paths :
    let files := FileTree.ofList [("a", some [0x12, 0x00]), ("b", some (List.replicate 3585 0))]
    let launch := fun path => ofArguments ⟨.refused, .ok⟩ [path] files 0
      (⟨0, [1 / 60]⟩ : Host.Readings Rat) [[]]
    Rom.read files "./a" = .ok [0x12, 0x00] ∧
      Rom.read files "b" = .error (.tooLarge 3585 3584 (some "b")) ∧
      exitStatus (launch "./a") ≠ 1 ∧ (∃ l, launch "./a" = .ok l ∧ (l.status = 0 ∨ l.status = 255)) ∧
      exitStatus (launch "b") = 1 ∧ exitStatus (launch "c") = 1 := by
  intro files launch
  have hshort : files.Holds "./a" [0x12, 0x00] := ⟨by decide, by decide, rfl⟩
  have hlong : files.Holds "b" (List.replicate 3585 0) := ⟨by decide, by decide, rfl⟩
  have hmissing : ¬ ∃ b, files.Holds "c" b := by
    rintro ⟨b, -, -, h⟩
    cases h
  have hlength : 3584 < (List.replicate 3585 (0 : UInt8)).length := by
    rw [List.length_replicate]
    decide
  have hopens : ∀ o : Options, o.WindowOpens .ok := fun _ _ _ => ⟨_, rfl⟩
  obtain ⟨hfits, hrefused, -, hstatus⟩ := @loaders_agree Rat inferInstance files
  have hread := (hfits "./a" _ hshort (by decide)).1
  obtain ⟨hone, hrun⟩ := hstatus .ok ["./a"] _ 0 ⟨0, [1 / 60]⟩ [[]] rfl (hopens _) ⟨_, rfl⟩
  refine ⟨hread, (hrefused "b" _ hlong hlength).1, ?_, hrun _ hread, ?_, ?_⟩
  · exact fun h => Rom.not_refused_of_read hread (hone.mp h)
  · exact (hstatus .ok ["b"] _ 0 ⟨0, [1 / 60]⟩ [[]] rfl (hopens _) ⟨_, rfl⟩).1.mpr
      (Or.inr ⟨_, hlong, hlength⟩)
  · exact (hstatus .ok ["c"] _ 0 ⟨0, [1 / 60]⟩ [[]] rfl (hopens _) ⟨_, rfl⟩).1.mpr (Or.inl hmissing)

end Launch

end Chip8
