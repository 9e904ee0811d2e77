import Chip8.Proofs.Machine.Account
import Chip8.Proofs.Machine.Reachable

/-!
# Presenting the picture

The account of a history is the list of the pictures that were presented. A machine whose picture
counts as presented shows the last of them: whatever may change a cell says so.
-/
namespace Chip8.Machine

variable {m m' : Machine} {i : Instruction} {pictures : List (Vector UInt8 2048)}

def snapshot? : Machine × Operation → Option (Vector UInt8 2048)
  | (m, .render) => some m.display.cells
  | _ => none

def snapshots (m : Machine) (ops : List Operation) : List (Vector UInt8 2048) :=
  (m.trace ops).filterMap snapshot?

def Presented (m : Machine) (pictures : List (Vector UInt8 2048)) : Prop :=
  m.display.dirty = false → pictures.getLast? = some m.display.cells

theorem Presented.of_dirty (h : m.display.dirty = true) : m.Presented pictures := by
  intro hd
  rw [h] at hd
  cases hd

theorem Presented.of_display (h : m.Presented pictures) (hd : m'.display = m.display) :
    m'.Presented pictures := by
  unfold Presented
  rw [hd]
  exact h

/-- An instruction that touches the display raises the flag, even if no cell is changed by it. -/
theorem Effect.dirty (he : Effect m i m') : m'.display = m.display ∨ m'.display.dirty = true := by
  cases he with
  | cleared => exact Or.inr rfl
  | drawn => exact Or.inr rfl
  | registers | decimal | saved | random | keyTaken | keyMissing => exact Or.inl rfl

theorem step_preserves_presented (h : m.Presented pictures) :
    m.step.machine.Presented pictures := by
  have ht := step_turn m
  generalize m.step.machine = after at ht
  cases ht with
  | idle => exact h
  | carried hi hx hk =>
    rcases (effect_of_execute hx).dirty with hsame | hdirty
    · exact h.of_display hsame
    · exact .of_dirty hdirty

theorem apply_dirty (d : Display) (op : DisplayOp) : (d.apply op).dirty = true := by
  cases op with
  | set => rfl
  | clear => rfl
  | draw => rfl

theorem snapshot?_of_ne_render {op : Operation} (h : op ≠ .render) : snapshot? (m, op) = none := by
  cases op with
  | render => exact absurd rfl h
  | load | step | tick | key | display => rfl

theorem perform_preserves_presented (h : m.Presented pictures) (op : Operation) :
    (m.perform op).Presented (pictures ++ (snapshot? (m, op)).toList) := by
  by_cases hop : op = .render
  · subst hop
    intro _
    exact List.getLast?_concat
  · rw [snapshot?_of_ne_render hop, Option.toList_none, List.append_nil]
    cases op with
    | render => exact absurd rfl hop
    | load program => exact load_preserves (P := fun m => m.Presented pictures) h fun _ => h
    | step => exact step_preserves_presented h
    | tick => exact h
    | key op => exact h
    | display op => exact .of_dirty (apply_dirty m.display op)

theorem snapshots_cons (m : Machine) (op : Operation) (rest : List Operation) :
    m.snapshots (op :: rest) = (snapshot? (m, op)).toList ++ (m.perform op).snapshots rest := by
  unfold snapshots
  rw [trace, List.filterMap_cons]
  cases snapshot? (m, op) <;> rfl

theorem snapshots_append (m : Machine) (before after : List Operation) :
    m.snapshots (before ++ after) = m.snapshots before ++ (m.replay before).snapshots after := by
  unfold snapshots
  rw [trace_append, List.filterMap_append]

theorem snapshots_eq_nil {ops : List Operation} (h : .render ∉ ops) : m.snapshots ops = [] := by
  induction ops generalizing m with
  | nil => rfl
  | cons op rest ih =>
    have hop : op ≠ .render := (List.ne_of_not_mem_cons h).symm
    rw [snapshots_cons, snapshot?_of_ne_render hop, Option.toList_none, List.nil_append]
    exact ih (List.not_mem_of_not_mem_cons h)

theorem replay_preserves_presented (h : m.Presented pictures) (ops : List Operation) :
    (m.replay ops).Presented (pictures ++ m.snapshots ops) := by
  induction ops generalizing m pictures with
  | nil =>
    rw [show m.snapshots [] = [] from rfl, List.append_nil]
    exact h
  | cons op rest ih =>
    rw [snapshots_cons, ← List.append_assoc]
    exact ih (perform_preserves_presented h op)

end Chip8.Machine
