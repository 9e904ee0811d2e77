import Chip8.Proofs.Clock.Rest
import Chip8.Proofs.Host.Course
import Chip8.Proofs.Machine.DirtyFlag

/-!
# The frame rate does not matter

A run in which no key is touched and no time passes is nothing to its machine but steps. However
they are cut into frames, as many steps lead to the same machine; only the last presentation of the
picture is left of the frames.
-/
namespace Chip8.Host

def Readings.Still {τ : Type} (readings : Readings τ) : Prop :=
  ∀ t ∈ readings.later, t = readings.current

def Keyless (batches : List (List HostEvent)) : Prop :=
  ∀ events ∈ batches, ∀ op, .key op ∉ events

section Readings

variable {τ : Type} {readings : Readings τ}

theorem Readings.Still.next_current (h : readings.Still) :
    readings.next.current = readings.current := by
  unfold Readings.next
  cases hl : readings.later with
  | nil => rfl
  | cons t rest =>
    apply h t
    rw [hl]
    exact List.mem_cons_self

theorem Readings.Still.next (h : readings.Still) : readings.next.Still := by
  intro t ht
  rw [h.next_current]
  unfold Readings.next at ht
  cases hl : readings.later with
  | nil =>
    rw [hl] at ht
    exact h t ht
  | cons first rest =>
    rw [hl] at ht
    apply h t
    rw [hl]
    exact List.mem_cons_of_mem first ht

end Readings

variable {τ : Type} [Seconds τ] {m m' n : Machine} {clock : Clock τ} {readings : Readings τ}
  {batches : List (List HostEvent)} {events : List HostEvent} {steps : Nat} {r : Run}

theorem arrivals_of_keyless (h : ∀ op, .key op ∉ events) : arrivals events = [] := by
  cases events with
  | nil => rfl
  | cons event rest =>
    cases event with
    | key op => exact absurd List.mem_cons_self (h op)
    | quit | interrupt => rfl

/-- A frame without ticks does nothing behind its steps but lower the dirty flag. -/
theorem settle_undue (m : Machine) : (settle m 0).2 = m.presented := by
  rw [settle_eq]
  change m.replay (presentation m) = m.presented
  unfold presentation
  cases hd : m.display.dirty with
  | true => rfl
  | false => exact (Machine.presented_of_clean hd).symm

/-- Nothing but steps happened on the way from the first machine to the second, and the picture was
presented behind the last of them. -/
def SteppedOnly (m m' : Machine) : Prop :=
  ∃ k, m'.cycles = m.cycles + k ∧
    m' = if k = 0 then m else (m.replay (List.replicate k .step)).presented

theorem SteppedOnly.refl (m : Machine) : SteppedOnly m m := ⟨0, rfl, rfl⟩

theorem SteppedOnly.frame {k : Nat} (hk : 0 < k) (hcycles : n.cycles = m.cycles + k)
    (hn : n = m.replay (List.replicate k .step)) (h : SteppedOnly n.presented m') :
    SteppedOnly m m' := by
  obtain ⟨l, hl, hm'⟩ := h
  refine ⟨k + l, ?_, ?_⟩
  · rw [hl, ← Nat.add_assoc, ← hcycles]
    rfl
  · rw [if_neg (by omega), ← List.replicate_append_replicate, Machine.replay_append, ← hn, hm']
    -- Without a further step the presentation of this frame is the last one.
    by_cases hzero : l = 0
    · subst hzero
      rfl
    · rw [if_neg hzero]
      exact Machine.replay_steps_presented (m := n) (n := n.presented) rfl l

theorem Course.steppedOnly [StillSeconds τ] (hsteps : 0 < steps)
    (h : Course steps m clock readings batches r) (hstill : readings.Still)
    (hclock : clock = Clock.ofRate Clock.timerRate readings.current) (hkeys : Keyless batches)
    (hquit : r.stop = .quit) : SteppedOnly m r.machine := by
  induction h with
  | deserted => exact .refl _
  | stopped =>
    rw [arrivals_of_keyless (hkeys _ List.mem_cons_self)]
    exact .refl _
  | faulted => cases hquit
  | unmeasured => cases hquit
  | @framed m clock readings events rest taken m' due clock' run hburst hgood hdue _ ih =>
    rw [arrivals_of_keyless (hkeys _ List.mem_cons_self)] at hburst
    rw [hclock] at hdue
    -- No key and no tick: the frame is its steps and a presentation.
    obtain ⟨rfl, rfl⟩ := Clock.due_still hdue
    rw [settle_undue] at ih
    have hcycles : m'.cycles = m.cycles + taken.length := by
      rw [hburst.cycles, List.countP_eq_length.mpr hgood]
      rfl
    refine .frame (List.length_pos_iff.mpr (hburst.ne_nil hsteps)) hcycles hburst.replay ?_
    refine ih hstill.next ?_ ?_ hquit
    · rw [hstill.next_current]
    · intro events hmem
      exact hkeys events (List.mem_cons_of_mem _ hmem)

theorem SteppedOnly.presented_eq (h : SteppedOnly m m') (hfresh : m.cycles = 0) :
    m'.presented = (m.replay (List.replicate m'.cycles .step)).presented := by
  obtain ⟨k, hk, hm'⟩ := h
  have hcycles : m'.cycles = k := by omega
  rw [hcycles, hm']
  by_cases hzero : k = 0
  · subst hzero
    rfl
  · rw [if_neg hzero]
    rfl

theorem SteppedOnly.unique (h : SteppedOnly m m') (h' : SteppedOnly m n)
    (hcycles : m'.cycles = n.cycles) : m' = n := by
  obtain ⟨k, hk, hm'⟩ := h
  obtain ⟨l, hl, hn⟩ := h'
  obtain rfl : k = l := by omega
  rw [hm', hn]

theorem run_steppedOnly [StillSeconds τ] (clockHz : Int) (hstill : readings.Still)
    (hkeys : Keyless batches) (hquit : (run clockHz m readings batches).stop = .quit) :
    SteppedOnly m (run clockHz m readings batches).machine := by
  have hsteps : 0 < budget clockHz := by
    unfold budget
    omega
  have hcourse := run_course clockHz m readings batches
  rw [← hstill.next_current] at hcourse
  exact hcourse.steppedOnly hsteps hstill.next rfl hkeys hquit

/-- Two runs of one program at any two rates of the clock, each with one moment for all its readings
and without keys, that are quit after equally many cycles leave equal machines. As many steps in a
row leave the same machine but for the dirty flag. -/
theorem frame_rate_independent [StillSeconds τ] (legacy : Bool) (seed : Int) (program : List UInt8)
    (c₁ c₂ : Int) (readings₁ readings₂ : Readings τ) (batches₁ batches₂ : List (List HostEvent))
    (hstill₁ : readings₁.Still) (hstill₂ : readings₂.Still) (hkeys₁ : Keyless batches₁)
    (hkeys₂ : Keyless batches₂) :
    let m := (Machine.fresh legacy seed).perform (.load program)
    let r₁ := run c₁ m readings₁ batches₁
    let r₂ := run c₂ m readings₂ batches₂
    r₁.stop = .quit → r₂.stop = .quit → r₁.machine.cycles = r₂.machine.cycles →
      r₁.machine = r₂.machine ∧
        r₁.machine.presented =
          (m.replay (List.replicate r₁.machine.cycles .step)).presented := by
  intro m r₁ r₂ hquit₁ hquit₂ hcycles
  have hfresh : m.cycles = 0 :=
    Machine.load_preserves (P := fun m => m.cycles = 0) rfl fun _ => rfl
  have h₁ : SteppedOnly m r₁.machine := run_steppedOnly c₁ hstill₁ hkeys₁ hquit₁
  have h₂ : SteppedOnly m r₂.machine := run_steppedOnly c₂ hstill₂ hkeys₂ hquit₂
  exact ⟨h₁.unique h₂ hcycles, h₁.presented_eq hfresh⟩

/-- A sprite drawn over and over, at two steps a frame and at one, timed in double precision. -/
theorem frame_rate_independent_of_blinking :
    let program : List UInt8 := [0xD0, 0x05, 0x12, 0x00]
    let m := (Machine.fresh false 0).perform (.load program)
    let readings₁ : Readings Float := ⟨2.5, []⟩
    let readings₂ : Readings Float := ⟨0.1, [0.1]⟩
    let r₁ := run 120 m readings₁ [[], [.quit]]
    let r₂ := run 0 m readings₂ [[], []]
    (r₁.stop = .quit ∧ r₂.stop = .quit ∧ r₁.machine.cycles = 2 ∧ r₂.machine.cycles = 2) ∧
      r₁.machine = r₂.machine := by
  intro program m readings₁ readings₂ r₁ r₂
  have hstill₁ : readings₁.Still := by
    intro t ht
    cases ht
  have hstill₂ : readings₂.Still := by
    intro t ht
    exact List.mem_singleton.mp ht
  have hends : r₁.stop = .quit ∧ r₂.stop = .quit ∧ r₁.machine.cycles = 2 ∧
      r₂.machine.cycles = 2 := by
    decide +kernel
  obtain ⟨hquit₁, hquit₂, hcycles₁, hcycles₂⟩ := hends
  refine ⟨⟨hquit₁, hquit₂, hcycles₁, hcycles₂⟩, ?_⟩
  refine (frame_rate_independent false 0 program 120 0 readings₁ readings₂ [[], [.quit]] [[], []]
    hstill₁ hstill₂ ?_ ?_ hquit₁ hquit₂ (hcycles₁.trans hcycles₂.symm)).1
  · simp [Keyless]
  · simp [Keyless]

end Chip8.Host
