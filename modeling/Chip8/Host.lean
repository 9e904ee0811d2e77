import Chip8.Clock
import Chip8.Machine.History
import Chip8.Window

/-!
The host loop. A frame applies the events that have arrived, steps the machine within its budget,
lets the timers catch up with the clock, presents the picture if it has changed, and waits for the
next frame. The loop leaves a trail of actions; exit status, output and counts are read off it.
After the last frame of a script the window is closed by the user.
-/

namespace Chip8

inductive Stop where
  | quit
  | interrupt
  | fault (f : Fault)
  | clock (e : ClockError)
  deriving DecidableEq, Repr

namespace Stop

def okStatus : Nat := 0
def loadErrorStatus : Nat := 1
def faultStatus : Nat := 255

def crashStatus : Nat := 1

def status : Stop → Nat
  | .quit | .interrupt => okStatus
  | .fault _ => faultStatus
  | .clock _ => crashStatus

end Stop

inductive Action where
  | polled
  | stepped (report : Report)
  | ticked
  | rendered (cells : Vector UInt8 2048)
  | paced (framesPerSecond : Nat)
  | logged (line : LogLine)
  | printed (text : String)
  | dumped (text : String)
  | closed

namespace Action

def lines : Action → List LogLine
  | .stepped report => report.notes.map Note.line
  | .logged line => [line]
  | _ => []

/-- What the action adds to the output, beside the log. -/
def print : Action → String
  | .printed text => text
  | _ => ""

def dump : Action → String
  | .dumped text => text
  | _ => ""

def picture? : Action → Option (Vector UInt8 2048)
  | .rendered cells => some cells
  | _ => none

def rate? : Action → Option Nat
  | .paced framesPerSecond => some framesPerSecond
  | _ => none

end Action

namespace Host

/-- The steps of a frame: at least one, whatever the clock. -/
def budget (clock : Int) : Nat := (max 1 (clock / Clock.timerRate)).toNat

/-- Applies events in order until one of them ends the run; the rest is not seen. -/
def poll (p : Keypad) : List HostEvent → Keypad × Option Stop
  | [] => (p, none)
  | .key op :: rest => poll (p.apply op) rest
  | .quit :: _ => (p, some .quit)
  | .interrupt :: _ => (p, some .interrupt)

def ticks (m : Machine) : Nat → Machine
  | 0 => m
  | n + 1 => ticks m.tick n

/-- What is done on the way out. A clock without an answer is reported by whoever started the
run. -/
def leave (m : Machine) : Stop → List Action
  | .quit => [.logged (.info ("Quit after " ++ Nat.repr m.cycles ++ " cycles")), .closed]
  | .interrupt => [.printed "\nExiting.\n", .closed]
  | .fault f =>
    [.logged (.error ("Fatal: " ++ f.message)),
      .dumped ("Dumping registers:\n" ++ m.registers.dump ++ "\n"), .closed]
  | .clock _ => [.closed]

def work (steps : Nat) (m : Machine) (events : List HostEvent) :
    List Action × Machine × Option Stop :=
  let (keypad, stop) := poll m.keypad events
  let m := { m with keypad := keypad }
  match stop with
  | some stop => ([.polled], m, some stop)
  | none =>
    let (reports, m) := m.burst steps
    let fault := reports.getLast?.bind fun r =>
      match r.outcome with
      | .error f => some (Stop.fault f)
      | .ok _ => none
    (.polled :: reports.map .stepped, m, fault)

def settle (m : Machine) (due : Int) : List Action × Machine :=
  let m := ticks m due.toNat
  let ticked := List.replicate due.toNat Action.ticked
  let pace := [Action.paced Clock.timerRate]
  if m.display.dirty then
    (ticked ++ .rendered m.display.cells :: pace, m.presented)
  else (ticked ++ pace, m)

/-- Successive readings of a clock; the last one is repeated for ever. -/
structure Readings (τ : Type) where
  current : τ
  later : List τ

def Readings.next {τ : Type} (r : Readings τ) : Readings τ :=
  match r.later with
  | [] => r
  | t :: rest => ⟨t, rest⟩

structure Run where
  trail : List Action
  machine : Machine
  stop : Stop

variable {τ : Type} [Seconds τ]

/-- One batch of events is a frame. -/
def loop (steps : Nat) (m : Machine) (clock : Clock τ) (readings : Readings τ) :
    List (List HostEvent) → Run
  | [] => ⟨.polled :: leave m .quit, m, .quit⟩
  | events :: rest =>
    match work steps m events with
    | (worked, m, some stop) => ⟨worked ++ leave m stop, m, stop⟩
    | (worked, m, none) =>
      match clock.due readings.current with
      | .error e => ⟨worked ++ leave m (.clock e), m, .clock e⟩
      | .ok (due, clock) =>
        let (settled, m) := settle m due
        let run := loop steps m clock readings.next rest
        ⟨worked ++ settled ++ run.trail, run.machine, run.stop⟩

def run (clockHz : Int) (m : Machine) (readings : Readings τ) (frames : List (List HostEvent)) :
    Run :=
  loop (budget clockHz) m (Clock.ofRate Clock.timerRate readings.current) readings.next frames

namespace Run

def status (r : Run) : Nat := r.stop.status

def lines (r : Run) : List LogLine := r.trail.flatMap Action.lines

def pictures (r : Run) : List (Vector UInt8 2048) := r.trail.filterMap Action.picture?

def paces (r : Run) : List Nat := r.trail.filterMap Action.rate?

def polls (r : Run) : Nat := r.trail.countP fun
  | .polled => true
  | _ => false

def closes (r : Run) : Nat := r.trail.countP fun
  | .closed => true
  | _ => false

def printed (r : Run) : String := String.join (r.trail.map Action.print)

def dumped (r : Run) : String := String.join (r.trail.map Action.dump)

def output (threshold : Level) (r : Run) : String :=
  String.join <| r.trail.map fun a =>
    String.join ((a.lines.filter (·.shownAt threshold)).map LogLine.onTerminal) ++ a.print

end Run

end Host

end Chip8
