import Chip8.Machine.History
import Chip8.Proofs.Machine.Lockstep

/-!
# The dirty flag

A step does not ask whether the picture has been presented. Machines that differ in that only go
through the same steps and still differ in nothing else, whenever and how often the picture is
presented between the steps.
-/
namespace Chip8.Machine

variable {m n : Machine}

def withDirty (m : Machine) (dirty : Bool) : Machine :=
  { m with display := { m.display with dirty := dirty } }

theorem eq_withDirty_of_presented (h : n.presented = m.presented) :
    n = m.withDirty n.display.dirty :=
  calc n = n.presented.withDirty n.display.dirty := rfl
    _ = m.presented.withDirty n.display.dirty := by rw [h]
    _ = m.withDirty n.display.dirty := rfl

theorem presented_of_clean (h : m.display.dirty = false) : m.presented = m := by
  unfold presented
  rw [← h]

theorem unseen_presented : Unseen fun m n => n.presented = m.presented where
  memory h := congrArg (·.memory) h
  pc h := congrArg (·.registers.pc) h
  awaitingKey h := congrArg (·.awaitingKey) h
  begun h := congrArg Machine.begun h
  counted h := congrArg Machine.counted h

theorem execute_presented (h : n.presented = m.presented) (i : Instruction) :
    Matched (fun m n => n.presented = m.presented) (fun m n => n.presented = m.presented)
      (m.execute i) (n.execute i) := by
  rw [eq_withDirty_of_presented h]
  generalize n.display.dirty = dirty
  refine matched_of_clear rfl rfl fun ho ho' => ?_
  cases i with
  | call a => exact matched_call_of_eq rfl (fun _ => rfl) fun _ => rfl
  | ret => exact matched_ret_of_eq rfl (fun _ => rfl) fun _ _ => rfl
  | draw | decimal | saveBlock | loadBlock => exact matched_block rfl ho ho' rfl
  | awaitKey x => exact matched_awaitKey rfl rfl fun _ => rfl
  | skipEqByte | skipNeByte | skipEq | skipNe | skipDown | skipUp => exact matched_skipIf fun _ => rfl
  | _ => exact .ok () rfl

theorem step_presented (h : n.presented = m.presented) :
    n.step.report = m.step.report ∧ n.step.machine.presented = m.step.machine.presented :=
  unseen_presented.step h fun i _ => execute_presented (unseen_presented.begun h) i

theorem replay_steps_presented (h : n.presented = m.presented) (k : Nat) :
    (n.replay (List.replicate k .step)).presented =
      (m.replay (List.replicate k .step)).presented := by
  induction k generalizing m n with
  | zero => exact h
  | succ k ih => exact ih (step_presented h).2

end Chip8.Machine
