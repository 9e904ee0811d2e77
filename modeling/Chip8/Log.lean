/-!
Log lines and their levels. A sink at one level keeps the lines of that level and of those above
it.
-/

namespace Chip8

inductive Level where
  | debug
  | info
  | error
  deriving DecidableEq, Repr

namespace Level

def rank : Level → Nat
  | .debug => 0
  | .info => 1
  | .error => 2

def name : Level → String
  | .debug => "DEBUG"
  | .info => "INFO"
  | .error => "ERROR"

end Level

structure LogLine where
  level : Level
  text : String
  deriving DecidableEq, Repr

namespace LogLine

def debug (text : String) : LogLine := ⟨.debug, text⟩
def info (text : String) : LogLine := ⟨.info, text⟩
def error (text : String) : LogLine := ⟨.error, text⟩

def shownAt (threshold : Level) (l : LogLine) : Bool := threshold.rank ≤ l.level.rank

def onTerminal (l : LogLine) : String := "[" ++ l.level.name ++ "]:  " ++ l.text ++ "\n"

end LogLine

end Chip8
