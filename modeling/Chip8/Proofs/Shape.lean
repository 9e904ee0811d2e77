/-!
# Sequences of which some places are known

A shape is what is known of the beginning of a text or of the digits of a word.
-/
namespace Chip8

/-- What is known of a sequence that begins so: `none` stands for anything. -/
abbrev Shape (α : Type) := List (Option α)

namespace Shape

variable {α : Type}

def Begins : Shape α → List α → Prop
  | [], _ => True
  | _ :: _, [] => False
  | s :: shape, c :: cs => (s = none ∨ s = some c) ∧ Begins shape cs

def clash [BEq α] : Shape α → Shape α → Bool
  | some c :: s, some d :: t => c != d || clash s t
  | _ :: s, _ :: t => clash s t
  | _, _ => false

variable {s t : Shape α} {cs ds : List α}

theorem not_clash [BEq α] [LawfulBEq α] (h : s.Begins cs) (h' : t.Begins cs) :
    clash s t = false := by
  fun_induction clash s t generalizing cs with
  | case1 c s d t ih =>
    cases cs with
    | nil => exact h.elim
    | cons e cs =>
      obtain ⟨hc | hc, hs⟩ := h
      · cases hc
      · obtain ⟨hd | hd, ht⟩ := h'
        · cases hd
        · obtain rfl := Option.some.inj hc
          obtain rfl := Option.some.inj hd
          rw [bne_self_eq_false, Bool.false_or]
          exact ih hs ht
  | case2 a s b t _ ih =>
    cases cs with
    | nil => exact h.elim
    | cons e cs => exact ih h.2 h'.2
  | case3 => rfl

theorem Begins.append (h : s.Begins cs) (hl : s.length = cs.length) (h' : t.Begins ds) :
    Begins (s ++ t) (cs ++ ds) := by
  induction s generalizing cs with
  | nil =>
    obtain rfl := List.length_eq_zero_iff.mp hl.symm
    exact h'
  | cons a s ih =>
    cases cs with
    | nil => cases hl
    | cons c cs => exact ⟨h.1, ih h.2 (Nat.succ.inj hl)⟩

theorem begins_literal (cs : List α) : Begins (cs.map some) cs := by
  induction cs with
  | nil => trivial
  | cons c cs ih => exact ⟨Or.inr rfl, ih⟩

theorem begins_any {n : Nat} (h : n = cs.length) : Begins (List.replicate n none) cs := by
  subst h
  induction cs with
  | nil => trivial
  | cons c cs ih => exact ⟨Or.inl rfl, ih⟩

instance decideBegins [DecidableEq α] (s : Shape α) (cs : List α) : Decidable (s.Begins cs) :=
  match s, cs with
  | [], _ => .isTrue trivial
  | _ :: _, [] => .isFalse id
  | _ :: s, _ :: cs => @instDecidableAnd _ _ inferInstance (decideBegins s cs)

end Shape

end Chip8
