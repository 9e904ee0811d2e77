import Chip8.Machine.Step

/-!
Histories. Everything that can happen to a machine is an `Operation`; operations of the host may
fall between any two steps. A run is the replay of a list of them, and its transcript is what a log
at the most talkative level shows. Under another threshold the line of an instruction is put together
only if the threshold lets it through; everything else a machine does, it does at every threshold.
-/

namespace Chip8

inductive Operation where
  | load (program : List UInt8)
  | step
  | tick
  | key (op : KeyOp)
  | display (op : DisplayOp)
  | render
  deriving DecidableEq, Repr

namespace Machine

/-- A program that is refused and a step that faults count as operations too. -/
def perform (m : Machine) : Operation → Machine
  | .load program => stateOf (m.load program)
  | .step => m.step.machine
  | .tick => m.tick
  | .key op => m.keyed op
  | .display op => { m with display := m.display.apply op }
  | .render => m.presented

def replay (m : Machine) (ops : List Operation) : Machine := ops.foldl perform m

def loadLine (program : List UInt8) : LogLine :=
  .info ("Loaded " ++ Nat.repr program.length ++ " byte program")

/-- The lines that one operation logs. A refused program is not reported as loaded. -/
def lines (m : Machine) : Operation → List LogLine
  | .load program =>
    match m.load program with
    | .ok _ _ => [loadLine program]
    | .error _ _ => []
  | .step => m.step.report.notes.map Note.line
  | _ => []

def transcript (m : Machine) : List Operation → List LogLine
  | [] => []
  | op :: rest => m.lines op ++ (m.perform op).transcript rest

end Machine

def Level.admits (threshold level : Level) : Bool := threshold.rank ≤ level.rank

inductive Answer where
  | loaded (result : Except LoadError Unit)
  | stepped (outcome : Except Fault Progress)
  | done

structure Logged where
  answer : Answer
  machine : Machine
  lines : List LogLine

namespace Machine

def stepLogged (threshold : Level) (m : Machine) : Logged :=
  let pc := m.registers.pc
  match m.memory.fetch pc with
  | .error fault => ⟨.stepped (.error fault), m, []⟩
  | .ok opcode =>
    match Instruction.lookup opcode with
    | none => ⟨.stepped (.error (.unknownInstruction opcode pc)), m, []⟩
    | some entry =>
      let operands := Operands.ofOpcode opcode
      let begins :=
        if threshold.admits .debug && !m.awaitingKey then
          [LogLine.debug (Hex.text 3 pc ++ ": " ++ Hex.text 4 opcode ++ "  " ++
            entry.mnemonic operands)]
        else []
      let ready := { m with awaitingKey := false }
      match ready.execute (entry.build operands) with
      | .error fault left => ⟨.stepped (.error fault), left, begins⟩
      | .ok _ after =>
        let after := { after with cycles := after.cycles + 1 }
        if after.awaitingKey then
          let waits :=
            if m.awaitingKey then []
            else if threshold.admits .debug then
              [LogLine.debug ("Waiting for key press at " ++ Hex.text 3 pc)]
            else []
          ⟨.stepped (.ok .awaitingKey), after, begins ++ waits⟩
        else ⟨.stepped (.ok .executed), after, begins⟩

def performLogged (threshold : Level) (m : Machine) : Operation → Logged
  | .load program =>
    match m.load program with
    | .error refusal left => ⟨.loaded (.error refusal), left, []⟩
    | .ok _ after =>
      ⟨.loaded (.ok ()), after, if threshold.admits .info then [loadLine program] else []⟩
  | .step => m.stepLogged threshold
  | op => ⟨.done, m.perform op, []⟩

def session (threshold : Level) (m : Machine) : List Operation → List Logged
  | [] => []
  | op :: rest =>
    let logged := m.performLogged threshold op
    logged :: logged.machine.session threshold rest

end Machine

end Chip8
