import Chip8.CommandLine
import Chip8.Host
import Chip8.Rom

/-!
The program as a whole: options are read, the image is loaded, and the machine runs in its window
until it ends. A launch gives the two output streams, the exit status and the pictures. What the
program makes no report of, such as an option that was left empty, breaks the launch off.
-/

namespace Chip8

inductive Crash where
  | nullInPath
  | emptySeed
  | emptyScale
  | emptyClock
  | window (refusal : String)
  | clock (e : ClockError)
  deriving DecidableEq, Repr

def Crash.message : Crash → String
  | .nullInPath => LoadError.nullInPath.message
  | .emptySeed =>
    "The only supported seed types are: None,\nint, float, str, bytes, and bytearray."
  | .emptyScale =>
    "int() argument must be a string, a bytes-like object or a real number, not 'list'"
  | .emptyClock => "unsupported operand type(s) for //: 'list' and 'int'"
  | .window refusal => refusal
  | .clock e => e.message

def Setting.need (s : Setting) (absent : Crash) : Except Crash Int :=
  match s with
  | .number z => .ok z
  | .empty => .error absent

/-- What a launch finds in place: a reader of its arguments, and a toolkit for its window. -/
structure Platform where
  dash : DashValue
  toolkit : Window.Toolkit

structure Launch where
  status : Nat
  output : String
  errors : String
  window : Option (Nat × Nat)
  pictures : List (Vector UInt8 2048)

namespace Launch

def threshold (o : Options) : Level := if o.verbose then .debug else .info

def shown (o : Options) (l : LogLine) : String :=
  if l.shownAt (threshold o) then l.onTerminal else ""

def seed (o : Options) (entropy : Int) : Except Crash Int :=
  match o.seed with
  | none => .ok entropy
  | some s => s.need .emptySeed

structure Setup where
  machine : Machine
  window : Nat × Nat
  clock : Int

/-- The machine is made before the window is opened, and the clock is looked at last. -/
def setup (toolkit : Window.Toolkit) (o : Options) (entropy : Int) : Except Crash Setup := do
  let seed ← seed o entropy
  let scale ← o.scale.need .emptyScale
  let window ← (toolkit (Window.size (Window.scaleOf scale))).mapError .window
  let clock ← o.clock.need .emptyClock
  return ⟨Machine.fresh o.legacyStore seed, window, clock⟩

def failure (o : Options) (e : LoadError) : Except Crash Launch :=
  match e with
  | .nullInPath => .error .nullInPath
  | e => .ok ⟨Stop.loadErrorStatus, shown o (.error e.message), "", none, []⟩

variable {τ : Type} [Seconds τ]

def start (o : Options) (s : Setup) (program : List UInt8) (readings : Host.Readings τ)
    (frames : List (List WindowEvent)) : Except Crash Launch :=
  let run := Host.run s.clock s.machine readings (frames.map (·.filterMap Window.toHost))
  match run.stop with
  | .clock e => .error (.clock e)
  | _ => .ok {
      status := run.status
      output := shown o (Rom.readLine o.rom program) ++ shown o (Machine.loadLine program)
        ++ run.output (threshold o)
      errors := run.dumped
      window := some s.window
      pictures := run.pictures }

def ofArguments (p : Platform) (argv : List String) (files : FileTree) (entropy : Int)
    (readings : Host.Readings τ) (frames : List (List WindowEvent)) : Except Crash Launch :=
  match CommandLine.parse p.dash argv with
  | .error r => .ok ⟨r.status, r.output, r.errors, none, []⟩
  | .ok o =>
    match Rom.read files o.rom with
    | .error e => failure o e
    | .ok program => do
      let s ← setup p.toolkit o entropy
      match s.machine.load program with
      | .error e _ => failure o e
      | .ok _ m => start o { s with machine := m } program readings frames

end Launch

end Chip8
