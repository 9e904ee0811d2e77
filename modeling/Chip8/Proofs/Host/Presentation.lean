import Chip8.Proofs.Host.Frames

/-!
# The window is up to date

Whenever the picture of a machine counts as presented, the picture presented last is the one that
the machine holds, whatever has happened to it since it was built. In a run this is so each time
the host waits for the next frame.
-/
namespace Chip8.Host

variable {τ : Type} [Seconds τ] {steps : Nat} {m : Machine} {clock : Clock τ}
  {readings : Readings τ} {batches : List (List HostEvent)} {f : Frame τ} {a : Action}
  {before after body rest : List Action}

theorem mem_of_split (h : body = before ++ a :: after) : a ∈ body := by
  rw [h]
  exact List.mem_append_right before List.mem_cons_self

theorem not_mem_of_unpaced (hbody : body.filterMap Action.rate? = []) (ha : a.rate? ≠ none) :
    a ∉ body := by
  intro hmem
  exact ha (List.filterMap_eq_nil_iff.mp hbody a hmem)

theorem split_of_unpaced (hbody : a ∉ body) (h : body ++ rest = before ++ a :: after) :
    ∃ between, before = body ++ between ∧ rest = between ++ a :: after := by
  rcases List.append_eq_append_iff.mp h with ⟨between, hb, hr⟩ | ⟨between, hb, hr⟩
  · exact ⟨between, hb, hr⟩
  · cases between with
    | nil =>
      rw [List.append_nil] at hb
      exact ⟨[], by rw [hb, List.append_nil], hr.symm⟩
    | cons x between =>
      obtain ⟨rfl, -⟩ := List.cons.inj hr
      exact absurd (mem_of_split hb) hbody

/-- Every pace of the trail is the end of a completed frame, and the rest of the trail is the run
from there on. -/
theorem exists_completed_of_paced (ha : a.rate? ≠ none)
    (h : (loop steps m clock readings batches).trail = before ++ a :: after) :
    ∃ k f, (completed steps m clock readings batches)[k]? = some f ∧
      before ++ [a] =
        ((completed steps m clock readings batches).take (k + 1)).flatMap Frame.actions ∧
      after = (f.onward steps (batches.drop (k + 1))).trail := by
  induction batches generalizing m clock readings before with
  | nil =>
    have hnone : (loop steps m clock readings []).trail.filterMap Action.rate? = [] :=
      leave_unpaced m .quit
    exact absurd (mem_of_split h) (not_mem_of_unpaced hnone ha)
  | cons events rest ih =>
    cases hf : frame? steps m clock readings events with
    | none =>
      obtain ⟨m', stop, hloop⟩ := loop_of_no_frame rest hf
      rw [hloop] at h
      refine absurd (mem_of_split h) (not_mem_of_unpaced ?_ ha)
      rw [List.filterMap_append, filterMap_work rfl fun _ => rfl, leave_unpaced]
      rfl
    | some f =>
      obtain ⟨body, hbody, hnone⟩ := frame_paced hf
      rw [loop_of_frame hf, hbody, List.append_assoc] at h
      -- The pace is the one of this frame, or it stands in the run behind it.
      obtain ⟨between, rfl, htrail⟩ := split_of_unpaced (not_mem_of_unpaced hnone ha) h
      simp only [completed, hf]
      cases between with
      | nil =>
        obtain ⟨rfl, rfl⟩ := List.cons.inj htrail
        refine ⟨0, f, rfl, ?_, rfl⟩
        simp [hbody]
      | cons x between =>
        obtain ⟨rfl, hrest⟩ := List.cons.inj htrail
        obtain ⟨k, f', hk, htake, hafter⟩ := ih hrest
        refine ⟨k + 1, f', hk, ?_, hafter⟩
        rw [List.take_succ_cons, List.flatMap_cons, ← htake, hbody]
        simp

/-- Every completed frame ends in a pace of the trail. -/
theorem paced_of_completed {k : Nat}
    (hk : (completed steps m clock readings batches)[k]? = some f) :
    ∃ before, before ++ [.paced Clock.timerRate] =
        ((completed steps m clock readings batches).take (k + 1)).flatMap Frame.actions ∧
      (loop steps m clock readings batches).trail =
        before ++ .paced Clock.timerRate :: (f.onward steps (batches.drop (k + 1))).trail := by
  induction batches generalizing m clock readings k with
  | nil => cases hk
  | cons events rest ih =>
    cases hf : frame? steps m clock readings events with
    | none =>
      simp only [completed, hf] at hk
      cases hk
    | some first =>
      obtain ⟨body, hbody, -⟩ := frame_paced hf
      rw [loop_of_frame hf]
      simp only [completed, hf] at hk ⊢
      cases k with
      | zero =>
        obtain rfl : first = f := Option.some.inj hk
        exact ⟨body, by simp [hbody], by simp [hbody]⟩
      | succ k =>
        obtain ⟨before, htake, htrail⟩ := ih hk
        refine ⟨first.actions ++ before, ?_, ?_⟩
        · rw [List.take_succ_cons, List.flatMap_cons, ← htake, List.append_assoc]
        · change first.actions ++ (loop steps first.machine first.clock first.readings rest).trail = _
          rw [htrail, List.append_assoc]
          rfl

/-- The induction along the completed frames. What is shown before the first of them is kept. -/
theorem completed_presented {pictures : List (Vector UInt8 2048)} (h : m.Presented pictures) {k : Nat}
    (hk : (completed steps m clock readings batches)[k]? = some f) :
    f.machine.display.dirty = false ∧
      f.machine.Presented (pictures ++ (((completed steps m clock readings batches).take
        (k + 1)).flatMap Frame.actions).filterMap Action.picture?) := by
  induction batches generalizing m clock readings pictures k with
  | nil => cases hk
  | cons events rest ih =>
    cases hf : frame? steps m clock readings events with
    | none =>
      simp only [completed, hf] at hk
      cases hk
    | some first =>
      obtain ⟨ops, hmachine, hpictures⟩ := frame_history hf
      have hfirst : first.machine.Presented
          (pictures ++ first.actions.filterMap Action.picture?) := by
        rw [hmachine, hpictures]
        exact Machine.replay_preserves_presented h ops
      simp only [completed, hf] at hk ⊢
      cases k with
      | zero =>
        obtain rfl : first = f := Option.some.inj hk
        refine ⟨frame_clean hf, ?_⟩
        simpa using hfirst
      | succ k =>
        rw [List.take_succ_cons, List.flatMap_cons, List.filterMap_append, ← List.append_assoc]
        exact ih hfirst hk

theorem completed_shown (h : m.Presented []) {k rate : Nat}
    (hk : (completed steps m clock readings batches)[k]? = some f)
    (htake : before ++ [.paced rate] =
      ((completed steps m clock readings batches).take (k + 1)).flatMap Frame.actions) :
    f.machine.display.dirty = false ∧
      (before.filterMap Action.picture?).getLast? = some f.machine.display.cells := by
  obtain ⟨hclean, hshown⟩ := completed_presented h hk
  rw [← htake, List.filterMap_append] at hshown
  have hlast := hshown hclean
  exact ⟨hclean, by simpa [Action.picture?] using hlast⟩

/-- Where the picture counts as presented, it is the one that was presented last. In a run every pace
ends a completed frame, every completed frame ends in a pace, and there the picture is presented. -/
theorem picture_up_to_date (legacy : Bool) (seed : Int) :
    (∀ ops, let m := (Machine.fresh legacy seed).replay ops
      m.display.dirty = false →
        ((Machine.fresh legacy seed).snapshots ops).getLast? = some m.display.cells) ∧
    (∀ (program : List UInt8) (clockHz : Int) (readings : Readings τ)
      (batches : List (List HostEvent)) (before after : List Action) (rate : Nat),
      let m := (Machine.fresh legacy seed).perform (.load program)
      (run clockHz m readings batches).trail = before ++ .paced rate :: after →
        ∃ k f, (runFrames clockHz m readings batches)[k]? = some f ∧
          before ++ [.paced rate] =
            ((runFrames clockHz m readings batches).take (k + 1)).flatMap Frame.actions ∧
          after = (f.onward (budget clockHz) (batches.drop (k + 1))).trail ∧
          f.machine.display.dirty = false ∧
          (before.filterMap Action.picture?).getLast? = some f.machine.display.cells) ∧
    ∀ (program : List UInt8) (clockHz : Int) (readings : Readings τ)
      (batches : List (List HostEvent)) (k : Nat) (f : Frame τ),
      let m := (Machine.fresh legacy seed).perform (.load program)
      (runFrames clockHz m readings batches)[k]? = some f →
        f.machine.display.dirty = false ∧
        ∃ before, before ++ [.paced Clock.timerRate] =
            ((runFrames clockHz m readings batches).take (k + 1)).flatMap Frame.actions ∧
          (run clockHz m readings batches).trail = before ++ .paced Clock.timerRate ::
            (f.onward (budget clockHz) (batches.drop (k + 1))).trail ∧
          (before.filterMap Action.picture?).getLast? = some f.machine.display.cells := by
  have hfresh : (Machine.fresh legacy seed).Presented [] := .of_dirty rfl
  have hloaded : ∀ program, ((Machine.fresh legacy seed).perform (.load program)).Presented [] :=
    fun program => Machine.perform_preserves_presented hfresh (.load program)
  refine ⟨?_, ?_, ?_⟩
  · intro ops
    exact Machine.replay_preserves_presented hfresh ops
  · intro program clockHz readings batches before after rate m h
    have hrate : (Action.paced rate).rate? ≠ none := Option.some_ne_none rate
    obtain ⟨k, f, hk, htake, hafter⟩ := exists_completed_of_paced hrate h
    obtain ⟨hclean, hshown⟩ := completed_shown (hloaded program) hk htake
    exact ⟨k, f, hk, htake, hafter, hclean, hshown⟩
  · intro program clockHz readings batches k f m hk
    obtain ⟨before, htake, htrail⟩ := paced_of_completed hk
    obtain ⟨hclean, hshown⟩ := completed_shown (hloaded program) hk htake
    exact ⟨hclean, before, htake, htrail, hshown⟩

/-- Two frames of a step each. The first draws and is presented, and the second finds the picture
unchanged: the one picture of the run is that of the second frame, too. -/
theorem picture_up_to_date_of_two_frames :
    let m := (Machine.fresh false 0).perform (.load [0xD0, 0x05, 0x12, 0x00])
    let readings : Readings Rat := ⟨0, [1 / 60]⟩
    let r := run 60 m readings [[], []]
    ∃ f cells, (runFrames 60 m readings [[], []])[1]? = some f ∧ r.pictures = [cells] ∧
      f.machine.display.cells = cells ∧ f.machine.display.dirty = false ∧
      ∃ before after, r.trail = before ++ .paced 60 :: after ∧
        (before.filterMap Action.picture?).getLast? = some cells := by
  intro m readings r
  have hframes : 1 < (runFrames 60 m readings [[], []]).length := by decide +kernel
  have hcount : r.pictures.length = 1 := by decide +kernel
  obtain ⟨f, hk⟩ : ∃ f, (runFrames 60 m readings [[], []])[1]? = some f :=
    ⟨_, List.getElem?_eq_getElem hframes⟩
  obtain ⟨-, -, hends⟩ := @picture_up_to_date Rat inferInstance false 0
  obtain ⟨hclean, before, -, htrail, hshown⟩ := hends _ 60 readings [[], []] 1 f hk
  have hmem : f.machine.display.cells ∈ r.pictures := by
    obtain ⟨a, ha, hpicture⟩ := List.mem_filterMap.mp (List.mem_of_getLast? hshown)
    refine List.mem_filterMap.mpr ⟨a, ?_, hpicture⟩
    rw [htrail]
    exact List.mem_append_left _ ha
  obtain ⟨cells, hcells⟩ := List.length_eq_one_iff.mp hcount
  rw [hcells] at hmem
  obtain rfl := List.mem_singleton.mp hmem
  exact ⟨f, _, hk, hcells, rfl, hclean, before, _, htrail, hshown⟩

end Chip8.Host
