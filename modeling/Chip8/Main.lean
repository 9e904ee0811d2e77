import Chip8.Clock.Double
import Chip8.Launch

/-!
The program on a terminal. The terminal takes the place of the window: each line of input holds the
events of one frame, and a picture is shown as text. An event is a sign and a keyboard character,
`+x` for a press and `-x` for a release, or the word `quit`; the end of the input quits as well.
-/

namespace Chip8.Terminal

def event (word : String) : WindowEvent :=
  if word = "quit" then .quit
  else
    match word.toList with
    | ['+', c] => .keyDown c.toNat
    | ['-', c] => .keyUp c.toNat
    | _ => .other

/-- The events of one line; an empty text is the end of the input. -/
def events (line : String) : List HostEvent :=
  if line.isEmpty then [.quit]
  else
    let words := (line.toList.splitOnP Integer.isBlank).filter (· != [])
    (words.map fun w => event (String.ofList w)).filterMap Window.toHost

def cause : IO.Error → FileError
  | .noFileOrDirectory .. => .noSuchFile
  | .inappropriateType _ code _ =>
    if code = 20 then .notDirectory else .isDirectory
  | .invalidArgument _ 36 _ => .nameTooLong
  | e => .other (toString e)

def readFile (path : FilePath) : IO (Except FileError (List UInt8)) := do
  try
    let h ← IO.FS.Handle.mk path.text .read
    let mut bytes := ByteArray.empty
    let mut more := true
    while more do
      let chunk ← h.read (USize.ofNat (Rom.readLimit - bytes.size))
      bytes := bytes ++ chunk
      more := chunk.size != 0 && bytes.size < Rom.readLimit
    return .ok bytes.toList
  catch e => return .error (cause e)

def seconds : IO Float := return (← IO.monoNanosNow).toFloat / 1e9

def perform (threshold : Level) (action : Action) : IO Unit := do
  for line in action.lines do
    if line.shownAt threshold then IO.print line.onTerminal
  IO.print action.print
  IO.eprint action.dump
  match action with
  | .rendered cells => IO.println (Display.text ⟨cells, false⟩)
  | .paced framesPerSecond => IO.sleep (1000 / framesPerSecond).toUInt32
  | _ => return

partial def frames (threshold : Level) (budget : Nat) (m : Machine) (clock : Clock Float) :
    IO Stop := do
  let line ← (← IO.getStdin).getLine
  let (worked, m, stop) := Host.work budget m (events line)
  worked.forM (perform threshold)
  match stop with
  | some stop =>
    (Host.leave m stop).forM (perform threshold)
    return stop
  | none =>
    match clock.due (← seconds) with
    | .error e =>
      (Host.leave m (.clock e)).forM (perform threshold)
      return .clock e
    | .ok (due, clock) =>
      let (settled, m) := Host.settle m due
      settled.forM (perform threshold)
      frames threshold budget m clock

def crash (c : Crash) : IO Nat := do
  IO.eprintln c.message
  return Stop.crashStatus

def refuse (o : Options) (e : LoadError) : IO Nat := do
  match Launch.failure o e with
  | .error c => crash c
  | .ok launch =>
    IO.print launch.output
    return launch.status

def readProgram (path : String) : IO (Except LoadError (List UInt8)) := do
  let p := FilePath.ofString path
  match Rom.checkPath p with
  | .error e => return .error e
  | .ok () => return Rom.accept p (← readFile p)

def run (o : Options) : IO Nat := do
  let entropy := (← IO.rand 0 0xFFFFFFFF : Nat)
  match ← readProgram o.rom with
  | .error e => refuse o e
  | .ok program =>
    match Launch.setup .ok o entropy with
    | .error c => crash c
    | .ok s =>
      match s.machine.load program with
      | .error e _ => refuse o e
      | .ok _ m =>
        IO.print (Launch.shown o (Rom.readLine o.rom program))
        IO.print (Launch.shown o (Machine.loadLine program))
        let clock := Clock.ofRate Clock.timerRate (← seconds)
        match ← frames (Launch.threshold o) (Host.budget s.clock) m clock with
        | .clock e => crash (.clock e)
        | stop => return stop.status

end Chip8.Terminal

def main (argv : List String) : IO UInt32 := do
  match Chip8.CommandLine.parse .refused argv with
  | .error refusal =>
    IO.print refusal.output
    IO.eprint refusal.errors
    return refusal.status.toUInt32
  | .ok options => return (← Chip8.Terminal.run options).toUInt32
