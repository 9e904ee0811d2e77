import Chip8.Machine.History
import Chip8.Proofs.Machine.Account
import Chip8.Proofs.Machine.KeyWait
import Mathlib.Data.List.SplitBy

/-!
# What a log says about a history

The threshold of a log decides which lines are kept and nothing else. At the most talkative level the
lines of the steps can be read off the dispatches: whenever a step has fetched a word that is an
instruction, it hands the instruction over to be carried out. A key wait is handed over again by every
step until a key ends it, so dispatches are cut behind each one that does not stall. Every piece is one
instruction, and its lines are those of its first dispatch.
-/
namespace Chip8

/-- Steps write to the log at the most talkative level only. -/
theorem Note.level_line (note : Note) : note.line.level = .debug := by
  cases note <;> rfl

structure Dispatch where
  pc : Int
  opcode : Nat
  outcome : Except Fault Progress

namespace Dispatch

def stalls (d : Dispatch) : Bool :=
  match d.outcome with
  | .ok .awaitingKey => true
  | _ => false

/-- Behind a stall the same instruction is handed over once more. -/
def joins (d _ : Dispatch) : Bool := d.stalls

def announcement : List Dispatch → List LogLine
  | [] => []
  | d :: _ =>
    .debug (Hex.text 3 d.pc ++ ": " ++ Hex.text 4 d.opcode ++ "  " ++
      Instruction.disassemble d.opcode) ::
    if d.stalls then [.debug ("Waiting for key press at " ++ Hex.text 3 d.pc)] else []

/-- The lines of dispatches that come behind a stall or not. -/
def announced (stalled : Bool) : List Dispatch → List LogLine
  | [] => []
  | d :: ds => (if stalled then [] else announcement [d]) ++ announced d.stalls ds

def Follows (d e : Dispatch) : Prop := d.stalls = true → e.pc = d.pc ∧ e.opcode = d.opcode

variable {d : Dispatch} {ds g : List Dispatch} {stalled : Bool}

/-- Behind its first dispatch an instruction says nothing more. -/
theorem announced_append (hg : (d :: g).IsChain fun d e => joins d e)
    (hds : ds ≠ [] → ∀ last ∈ (d :: g).getLast?, last.stalls = false) :
    announced stalled (d :: g ++ ds) =
      (if stalled then [] else announcement (d :: g)) ++ announced false ds := by
  induction g generalizing d stalled with
  | nil =>
    cases ds with
    | nil => rfl
    | cons e ds =>
      have hd : d.stalls = false := hds (List.cons_ne_nil _ _) d rfl
      change _ ++ announced d.stalls (e :: ds) = _
      rw [hd]
  | cons e g ih =>
    obtain ⟨hd, hrest⟩ := List.isChain_cons_cons.mp hg
    have hstalled : d.stalls = true := hd
    change _ ++ announced d.stalls (e :: g ++ ds) = _
    rw [ih hrest hds, hstalled]
    rfl

theorem announced_flatten {gs : List (List Dispatch)} (hne : [] ∉ gs)
    (hg : ∀ g ∈ gs, g.IsChain fun d e => joins d e)
    (hgs : gs.IsChain fun a b => ∃ ha hb, joins (a.getLast ha) (b.head hb) = false) :
    announced false gs.flatten = gs.flatMap announcement := by
  induction gs with
  | nil => rfl
  | cons g gs ih =>
    obtain ⟨hfirst, hrest⟩ := List.forall_mem_cons.mp hg
    rw [List.flatten_cons, List.flatMap_cons,
      ← ih (fun h => hne (List.mem_cons_of_mem g h)) hrest hgs.tail]
    cases g with
    | nil => exact absurd List.mem_cons_self hne
    | cons d g =>
      apply announced_append hfirst
      intro hmore last hlast
      cases gs with
      | nil => exact absurd rfl hmore
      | cons b gs =>
        obtain ⟨⟨ha, hb, hborder⟩, -⟩ := List.isChain_cons_cons.mp hgs
        rw [List.getLast?_eq_some_getLast ha] at hlast
        obtain rfl := Option.some.inj hlast
        exact hborder

theorem announced_eq (ds : List Dispatch) :
    announced false ds = (ds.splitBy joins).flatMap announcement := by
  have hflat := announced_flatten (List.nil_notMem_splitBy joins ds)
    (fun g hg => List.isChain_of_mem_splitBy hg) (List.isChain_getLast_head_splitBy joins ds)
  rw [List.flatten_splitBy] at hflat
  exact hflat

theorem same_of_chains (hjoins : (d :: g).IsChain fun d e => joins d e)
    (hfollows : (d :: g).IsChain Follows) : ∀ e ∈ g, e.pc = d.pc ∧ e.opcode = d.opcode := by
  induction g generalizing d with
  | nil => exact nofun
  | cons e g ih =>
    obtain ⟨hd, hjoins⟩ := List.isChain_cons_cons.mp hjoins
    obtain ⟨hsame, hfollows⟩ := List.isChain_cons_cons.mp hfollows
    obtain ⟨hpc, hopcode⟩ := hsame hd
    intro e' he'
    rcases List.mem_cons.mp he' with rfl | he'
    · exact ⟨hpc, hopcode⟩
    · obtain ⟨hpc', hopcode'⟩ := ih hjoins hfollows e' he'
      exact ⟨hpc'.trans hpc, hopcode'.trans hopcode⟩

theorem stalls_of_continued (hjoins : (d :: g).IsChain fun d e => joins d e) (hg : g ≠ []) :
    d.stalls = true := by
  cases g with
  | nil => exact absurd rfl hg
  | cons => exact (List.isChain_cons_cons.mp hjoins).1

theorem stalls_of_chain (hjoins : g.IsChain fun d e => joins d e) : ∀ e ∈ g.dropLast, e.stalls := by
  induction g with
  | nil => exact nofun
  | cons d g ih =>
    cases g with
    | nil => exact nofun
    | cons e g =>
      obtain ⟨hd, hjoins⟩ := List.isChain_cons_cons.mp hjoins
      exact List.forall_mem_cons.mpr ⟨hd, ih hjoins⟩

end Dispatch

namespace Machine

open Dispatch

variable {m m' : Machine} {i : Instruction} {op : Operation} {ops : List Operation} {d : Dispatch}

def answer (m : Machine) : Operation → Answer
  | .load program =>
    match m.load program with
    | .error refusal _ => .loaded (.error refusal)
    | .ok _ _ => .loaded (.ok ())
  | .step => .stepped m.step.report.outcome
  | _ => .done

theorem level_of_mem_lines {l : LogLine} (h : l ∈ m.lines .step) : l.level = .debug := by
  obtain ⟨note, -, rfl⟩ := List.mem_map.mp h
  exact note.level_line

/-- What a step reports is shown whole or not at all. -/
theorem filter_lines_step (threshold : Level) (m : Machine) :
    (m.lines .step).filter (·.shownAt threshold) =
      if threshold.admits .debug then m.step.report.notes.map Note.line else [] := by
  have hshown : ∀ l ∈ m.lines .step, l.shownAt threshold = threshold.admits .debug :=
    fun l hl => congrArg threshold.admits (level_of_mem_lines hl)
  rw [List.filter_congr hshown]
  cases threshold.admits .debug with
  | false => exact List.filter_false _
  | true => exact List.filter_true _

/-- At every threshold a step goes as without a log. -/
theorem stepLogged_eq (threshold : Level) (m : Machine) :
    m.stepLogged threshold = ⟨.stepped m.step.report.outcome, m.step.machine,
      (m.lines .step).filter (·.shownAt threshold)⟩ := by
  rw [filter_lines_step]
  cases hw : m.memory.fetch m.registers.pc with
  | error fault => simp [stepLogged, hw, step_unfetched hw]
  | ok w =>
    cases hentry : Instruction.lookup w with
    | none =>
      have hi : Instruction.decode? w = none := by rw [Instruction.decode?, hentry]; rfl
      simp [stepLogged, hw, hentry, step_undecoded hw hi]
    | some entry =>
      have hi : Instruction.decode? w = some (entry.build (.ofOpcode w)) := by
        rw [Instruction.decode?, hentry]
        rfl
      have htext : Instruction.disassemble w = entry.mnemonic (.ofOpcode w) := by
        rw [Instruction.disassemble, hentry]
      cases hx : m.begun.execute (entry.build (.ofOpcode w)) with
      | error fault left =>
        rw [step_obstructed hw hi hx]
        unfold begun at hx
        simp only [stepLogged, hw, hentry, hx]
        cases threshold.admits .debug <;> cases hk : m.awaitingKey <;>
          simp [opening, hk, Note.line, htext]
      | ok _ m' =>
        rw [step_completed hw hi hx]
        unfold begun at hx
        simp only [stepLogged, hw, hentry, hx]
        cases threshold.admits .debug <;> cases hk : m.awaitingKey <;>
          cases hk' : m'.awaitingKey <;>
          simp [opening, stalling, progress, counted, hk, hk', Note.line, htext]

theorem performLogged_eq (threshold : Level) (m : Machine) (op : Operation) :
    m.performLogged threshold op =
      ⟨m.answer op, m.perform op, (m.lines op).filter (·.shownAt threshold)⟩ := by
  cases op with
  | step => exact stepLogged_eq threshold m
  | load program =>
    cases hl : m.load program with
    | error refusal left => simp only [performLogged, answer, perform, lines, hl]; rfl
    | ok _ after =>
      simp only [performLogged, answer, perform, lines, hl]
      cases threshold <;> rfl
  | tick | key | display | render => rfl

theorem session_eq (threshold : Level) (m : Machine) (ops : List Operation) :
    m.session threshold ops = (m.trace ops).map fun (m, op) =>
      ⟨m.answer op, m.perform op, (m.lines op).filter (·.shownAt threshold)⟩ := by
  induction ops generalizing m with
  | nil => rfl
  | cons op rest ih =>
    change m.performLogged threshold op :: (m.performLogged threshold op).machine.session _ rest = _
    rw [performLogged_eq, ih]
    rfl

def dispatch (m : Machine) (i : Instruction) : Dispatch :=
  ⟨m.registers.pc, i.word, m.step.report.outcome⟩

def dispatch? : Machine × Operation → Option Dispatch
  | (m, .step) => m.pending?.map m.dispatch
  | _ => none

def dispatches (m : Machine) (ops : List Operation) : List Dispatch :=
  (m.trace ops).filterMap dispatch?

def instructions (m : Machine) (ops : List Operation) : List (List Dispatch) :=
  (m.dispatches ops).splitBy joins

theorem step_of_not_pending (h : m.pending? = none) :
    m.lines .step = [] ∧ m.step.machine = m := by
  have hpassage := step_passage m
  unfold lines
  generalize m.step = s at hpassage
  cases hpassage with
  | unfetched | undecoded => exact ⟨rfl, rfl⟩
  | failed hw hi | completed hw hi =>
    rw [pending?_of_fetched hw, hi] at h
    cases h

theorem step_of_pending (h : m.pending? = some i) :
    m.lines .step = (if m.awaitingKey then [] else announcement [m.dispatch i]) ∧
      m.step.machine.awaitingKey = (m.dispatch i).stalls := by
  have hw := pending?_eq_some_iff.mp h
  have hi := Instruction.decode_word i
  unfold lines dispatch
  cases hx : m.begun.execute i with
  | error fault left =>
    have hleft : left.awaitingKey = false := congrArg (·.awaitingKey) (left_of_fault hx)
    rw [step_obstructed hw hi hx]
    cases hk : m.awaitingKey <;> simp [opening, hk, hleft, announcement, stalls, Note.line]
  | ok _ m' =>
    rw [step_completed hw hi hx]
    cases hk : m.awaitingKey <;> cases hk' : m'.awaitingKey <;>
      simp [opening, stalling, progress, counted, hk, hk', announcement, stalls, Note.line]

theorem step_of_stall (h : m.pending? = some i) (hd : (m.dispatch i).stalls = true) :
    (∃ x, i = .awaitKey x) ∧ m.step.machine.registers = m.registers ∧
      m.step.machine.memory = m.memory := by
  have hw := pending?_eq_some_iff.mp h
  have hi := Instruction.decode_word i
  unfold dispatch at hd
  cases hx : m.begun.execute i with
  | error fault =>
    rw [step_obstructed hw hi hx] at hd
    cases hd
  | ok _ m' =>
    rw [step_completed hw hi hx] at hd ⊢
    cases hk : m'.awaitingKey with
    | false =>
      rw [progress_eq_executed_iff.mpr hk] at hd
      cases hd
    | true =>
      obtain ⟨hwait, rfl⟩ := (effect_of_execute hx).waiting rfl hk
      exact ⟨hwait, rfl, rfl⟩

/-- The machine is at the instruction of the dispatch, if that has stalled. -/
def AtStall (m : Machine) (d : Dispatch) : Prop :=
  d.stalls = true → m.registers.pc = d.pc ∧ m.memory.fetch m.registers.pc = .ok d.opcode

theorem AtStall.step (h : m.pending? = some i) : m.step.machine.AtStall (m.dispatch i) := by
  intro hd
  obtain ⟨-, hregisters, hmemory⟩ := step_of_stall h hd
  rw [hregisters, hmemory]
  exact ⟨rfl, pending?_eq_some_iff.mp h⟩

theorem AtStall.follows (hm : m.AtStall d) (h : m.pending? = some i) : d.Follows (m.dispatch i) := by
  intro hd
  obtain ⟨hpc, hw⟩ := hm hd
  rw [pending?_eq_some_iff.mp h] at hw
  exact ⟨hpc, Except.ok.inj hw⟩

theorem dispatches_cons (m : Machine) (op : Operation) (rest : List Operation) :
    m.dispatches (op :: rest) =
      (dispatch? (m, op)).toList ++ (m.perform op).dispatches rest := by
  change List.filterMap dispatch? ((m, op) :: (m.perform op).trace rest) = _
  rw [List.filterMap_cons]
  cases dispatch? (m, op) <;> rfl

theorem dispatch?_step (m : Machine) : dispatch? (m, .step) = m.pending?.map m.dispatch := rfl

/-- As long as no program is loaded, a stalled instruction stays where it is. -/
theorem follows_dispatches (hm : m.AtStall d) (hops : ∀ op ∈ ops, op.isLoad = false) :
    (d :: m.dispatches ops).IsChain Follows := by
  induction ops generalizing m d with
  | nil => exact List.isChain_singleton d
  | cons op rest ih =>
    obtain ⟨hop, hrest⟩ := List.forall_mem_cons.mp hops
    rw [dispatches_cons]
    cases op with
    | load => cases hop
    | step =>
      rw [dispatch?_step]
      cases hi : m.pending? with
      | none =>
        rw [perform, (step_of_not_pending hi).2]
        exact ih hm hrest
      | some i => exact List.isChain_cons_cons.mpr ⟨hm.follows hi, ih (.step hi) hrest⟩
    | tick | key | display | render => exact ih hm hrest

theorem dispatches_of_no_step (h : .step ∉ ops) : m.dispatches ops = [] := by
  induction ops generalizing m with
  | nil => rfl
  | cons op rest ih =>
    obtain ⟨hop, hrest⟩ := List.ne_and_not_mem_of_not_mem_cons h
    rw [dispatches_cons, ih hrest]
    cases op with
    | step => exact absurd rfl hop
    | load | tick | key | display | render => rfl

theorem filter_debug_lines (m : Machine) (op : Operation) (ds : List Dispatch) :
    (m.lines op).filter (·.level = .debug) ++ announced (m.perform op).awaitingKey ds =
      announced m.awaitingKey ((dispatch? (m, op)).toList ++ ds) := by
  cases op with
  | step =>
    have hall : (m.lines .step).filter (·.level = .debug) = m.lines .step :=
      List.filter_eq_self.mpr fun l hl => decide_eq_true (level_of_mem_lines hl)
    rw [hall, dispatch?_step]
    cases hi : m.pending? with
    | none =>
      obtain ⟨hlines, hsame⟩ := step_of_not_pending hi
      rw [hlines, perform, hsame]
      rfl
    | some i =>
      obtain ⟨hlines, hwaiting⟩ := step_of_pending hi
      rw [hlines, perform, hwaiting]
      rfl
  | load program =>
    have hwaiting : (m.perform (.load program)).awaitingKey = m.awaitingKey :=
      load_preserves (P := fun m' => m'.awaitingKey = m.awaitingKey) rfl fun _ => rfl
    have hnone : (m.lines (.load program)).filter (·.level = .debug) = [] := by
      cases hl : m.load program with
      | error => simp only [lines, hl, List.filter_nil]
      | ok => simp only [lines, hl]; rfl
    rw [hwaiting, hnone]
    rfl
  | tick | key | display | render => rfl

/-- The lines of the steps are those of the instructions. -/
theorem transcript_debug (m : Machine) (ops : List Operation) :
    (m.transcript ops).filter (·.level = .debug) = announced m.awaitingKey (m.dispatches ops) := by
  induction ops generalizing m with
  | nil => rfl
  | cons op rest ih =>
    rw [transcript, List.filter_append, ih, filter_debug_lines, dispatches_cons]

theorem session_lines (m : Machine) (ops : List Operation) :
    (m.session .debug ops).flatMap Logged.lines = m.transcript ops := by
  induction ops generalizing m with
  | nil => rfl
  | cons op rest ih =>
    have hall : (m.lines op).filter (·.shownAt .debug) = m.lines op :=
      List.filter_eq_self.mpr fun l _ => decide_eq_true (Nat.zero_le _)
    rw [session, List.flatMap_cons, performLogged_eq, ih, hall, transcript]

/-- A dispatch of a history comes from a step of it. -/
theorem exists_of_mem_dispatches (h : d ∈ m.dispatches ops) :
    ∃ (m' : Machine) (i : Instruction), m'.pending? = some i ∧ d = m'.dispatch i := by
  obtain ⟨⟨m', op⟩, -, hd⟩ := List.mem_filterMap.mp h
  cases op with
  | step =>
    obtain ⟨i, hi, rfl⟩ := Option.map_eq_some_iff.mp hd
    exact ⟨m', i, hi, rfl⟩
  | load | tick | key | display | render => cases hd

theorem wait_of_stalls (h : d ∈ m.dispatches ops) (hd : d.stalls = true) :
    ∃ x, d.opcode = (Instruction.awaitKey x).word := by
  obtain ⟨m', i, hi, rfl⟩ := exists_of_mem_dispatches h
  obtain ⟨⟨x, rfl⟩, -⟩ := step_of_stall hi hd
  exact ⟨x, rfl⟩

/-- Nothing can go wrong with a key wait. -/
theorem outcome_of_wait {x : Nibble} (h : d ∈ m.dispatches ops)
    (hd : d.opcode = (Instruction.awaitKey x).word) : d.outcome.isOk = true := by
  obtain ⟨m', i, hi, rfl⟩ := exists_of_mem_dispatches h
  have hw : m'.AtWait x := (pending?_eq_some_iff.mp hi).trans (congrArg Except.ok hd)
  cases hl : m'.keypad.latched with
  | none => rw [dispatch, (step_at_wait_none hw hl).1]; rfl
  | some k => rw [dispatch, (step_at_wait_some hw hl).1]; rfl

theorem follows_history (legacy : Bool) (seed : Int) {before after : List Operation}
    (hbefore : .step ∉ before) (hafter : ∀ op ∈ after, op.isLoad = false) :
    ((fresh legacy seed).dispatches (before ++ after)).IsChain Follows := by
  have hsplit : (fresh legacy seed).dispatches (before ++ after) =
      ((fresh legacy seed).replay before).dispatches after := by
    have hnone := dispatches_of_no_step (m := fresh legacy seed) hbefore
    unfold dispatches at hnone ⊢
    rw [trace_append, List.filterMap_append, hnone, List.nil_append]
  rw [hsplit]
  -- The first dispatch follows none, just as if one that did not stall came before it.
  exact (follows_dispatches (d := ⟨0, 0, .ok .executed⟩) nofun hafter).tail

/-- The log threshold changes no answer and no machine. At the most talkative level there is one line
for each instruction that is begun, and behind it one line more if the instruction stalls. All
dispatches of an instruction are at the same address with the same word. -/
theorem tracing_transparent_and_complete (legacy : Bool) (seed : Int) (before after : List Operation)
    (hbefore : .step ∉ before) (hafter : ∀ op ∈ after, op.isLoad = false) :
    let m := fresh legacy seed
    let ops := before ++ after
    (∀ threshold threshold' : Level,
      ((m.session threshold ops).map fun l => (l.answer, l.machine)) =
        ((m.session threshold' ops).map fun l => (l.answer, l.machine))) ∧
    ((m.session .debug ops).flatMap Logged.lines).filter (·.level = .debug) =
      (m.instructions ops).flatMap announcement ∧
    ∀ g ∈ m.instructions ops, ∃ d rest, g = d :: rest ∧
      (∀ e ∈ rest, e.pc = d.pc ∧ e.opcode = d.opcode ∧ e.outcome.isOk) ∧
      (∀ e ∈ g.dropLast, e.stalls) ∧
      (∀ e ∈ g, e.stalls → d.stalls ∧
        ∃ x : Nibble, d.opcode = Instruction.nibbles 0xF x 0x0 0xA) := by
  intro m ops
  refine ⟨?_, ?_, ?_⟩
  · intro threshold threshold'
    rw [session_eq, session_eq, List.map_map, List.map_map]
    rfl
  · rw [session_lines, transcript_debug]
    exact announced_eq _
  · intro g hg
    have hjoins := List.isChain_of_mem_splitBy hg
    have hmem : ∀ e ∈ g, e ∈ m.dispatches ops := by
      intro e he
      rw [← List.flatten_splitBy joins (m.dispatches ops)]
      exact List.mem_flatten_of_mem hg he
    have hfollows : g.IsChain Follows := by
      have hwhole := follows_history legacy seed hbefore hafter
      rw [← List.flatten_splitBy joins (dispatches _ _),
        List.isChain_flatten (List.nil_notMem_splitBy _ _)] at hwhole
      exact hwhole.1 g hg
    cases g with
    | nil => exact absurd hg (List.nil_notMem_splitBy joins _)
    | cons d rest =>
      have hd := hmem d List.mem_cons_self
      have hsame := same_of_chains hjoins hfollows
      have hfirst : ∀ e ∈ rest, d.stalls = true := fun e he =>
        stalls_of_continued hjoins (List.ne_nil_of_mem he)
      refine ⟨d, rest, rfl, ?_, stalls_of_chain hjoins, ?_⟩
      · intro e he
        obtain ⟨hpc, hopcode⟩ := hsame e he
        obtain ⟨x, hx⟩ := wait_of_stalls hd (hfirst e he)
        have he' := hmem e (List.mem_cons_of_mem d he)
        exact ⟨hpc, hopcode, outcome_of_wait he' (hopcode.trans hx)⟩
      · intro e he hes
        have hds : d.stalls = true := by
          rcases List.mem_cons.mp he with rfl | he
          · exact hes
          · exact hfirst e he
        exact ⟨hds, wait_of_stalls hd hds⟩

/-- The first wait stalls twice and takes a key, the second stalls at once, and a return faults. -/
theorem tracing_of_two_waits :
    let m := fresh false 0
    let ops : List Operation := [.load [0xF3, 0x0A, 0xF4, 0x0A, 0x00, 0xEE]] ++
      [.step, .tick, .step, .key (.press 5), .step, .step, .key (.press 6), .step, .step]
    ((m.session .debug ops).flatMap Logged.lines).filter (·.level = .debug) =
      [.debug "200: F30A  LD V3, K", .debug "Waiting for key press at 200",
        .debug "202: F40A  LD V4, K", .debug "Waiting for key press at 202",
        .debug "204: 00EE  RET"] := by
  intro m ops
  obtain ⟨-, hlog, -⟩ := tracing_transparent_and_complete false 0
    [.load [0xF3, 0x0A, 0xF4, 0x0A, 0x00, 0xEE]]
    [.step, .tick, .step, .key (.press 5), .step, .step, .key (.press 6), .step, .step]
    (by decide) (by decide)
  rw [hlog]
  decide +kernel

end Machine

end Chip8
