import Chip8.Text.Numeral
import Chip8.Bits

/-!
What can go wrong, as causes. Machine faults carry the numbers a report needs; load failures name
the file. The wording is in the `message` functions and nowhere else.
-/

namespace Chip8

inductive Access where
  | fetch
  | data
  deriving DecidableEq, Repr

def Access.text : Access → String
  | .fetch => "fetch"
  | .data => "access"

inductive Transfer where
  | push
  | pop
  deriving DecidableEq, Repr

def Transfer.refusal (way : Transfer) (position : Int) : String :=
  if Word.fitsLong position then
    match way with
    | .push => "list assignment index out of range"
    | .pop => "list index out of range"
  else "cannot fit 'int' into an index-sized integer"

/-- A fault ends the step that meets it. `memory` reports the first byte outside the store.
`noSlot` is never met by a stack pointer from 0 to 16, and from there pushes and pops lead nowhere
else. -/
inductive Fault where
  | unknownInstruction (opcode : Nat) (pc : Int)
  | memory (use : Access) (address : Int)
  | stackOverflow (pc : Int)
  | stackUnderflow (pc : Int)
  | noSlot (way : Transfer) (position : Int)
  deriving DecidableEq, Repr

def Fault.message : Fault → String
  | .unknownInstruction opcode pc =>
    "Unknown opcode: " ++ Hex.text 4 opcode ++ " at PC " ++ Hex.text 3 pc
  | .memory use address =>
    "Memory " ++ use.text ++ " out of range at 0x" ++ Hex.text 4 address
  | .stackOverflow pc => "Stack overflow on CALL at PC " ++ Hex.text 3 pc
  | .stackUnderflow pc => "Stack underflow on RET at PC " ++ Hex.text 3 pc
  | .noSlot way position => way.refusal position

/-- What an action leaves behind, even if it fails. -/
def stateOf {ε σ α : Type} : EStateM.Result ε σ α → σ
  | .ok _ s => s
  | .error _ s => s

inductive FileError where
  | noSuchFile
  | isDirectory
  | notDirectory
  | nameTooLong
  | other (description : String)
  deriving DecidableEq, Repr

def FileError.message : FileError → String
  | .noSuchFile => "No such file or directory"
  | .isDirectory => "Is a directory"
  | .notDirectory => "Not a directory"
  | .nameTooLong => "File name too long"
  | .other description => description

inductive LoadError where
  | nullInPath
  | unreadable (path : String) (cause : FileError)
  | tooLarge (size limit : Nat) (path : Option String)
  deriving DecidableEq, Repr

def LoadError.message : LoadError → String
  | .nullInPath => "embedded null byte"
  | .unreadable path cause => "Cannot read ROM " ++ path ++ ": " ++ cause.message
  | .tooLarge size limit _ =>
    "ROM is too large for memory (" ++ Nat.repr size ++ " bytes, limit " ++ Nat.repr limit ++ ")"

end Chip8
