import Chip8.Display
import Chip8.Keypad

/-!
The window: which keyboard codes stand for the keys of the pad, what becomes of window events, and
how large a window is asked for. The window itself belongs to a toolkit.
-/

namespace Chip8

inductive HostEvent where
  | key (op : KeyOp)
  | quit
  | interrupt
  deriving DecidableEq, Repr

inductive WindowEvent where
  | keyDown (code : Int)
  | keyUp (code : Int)
  | quit
  | other
  | interrupt
  deriving DecidableEq, Repr

namespace Window

def letters : Vector Char 16 :=
  #v['x', '1', '2', '3', 'q', 'w', 'e', 'a', 's', 'd', 'z', 'c', '4', 'r', 'f', 'v']

def code (k : Nibble) : Int := (letters.get k).toNat

def escape : Int := 27

def key? (c : Int) : Option (Nibble) := (List.finRange 16).find? fun k => code k == c

def keyEvent? (p : Keypad) (c : Int) (isDown : Bool) : Option Keypad :=
  (key? c).map fun k => p.set k isDown

/-- Escape ends the run in either direction; unmapped keys and other events do nothing. -/
def toHost : WindowEvent → Option HostEvent
  | .quit => some .quit
  | .interrupt => some .interrupt
  | .other => none
  | .keyDown c => if c = escape then some .quit else (key? c).map fun k => .key (.set k true)
  | .keyUp c => if c = escape then some .quit else (key? c).map fun k => .key (.set k false)

/-- Opens a window of some width and height. The one that opens may have another size, or there is a
text that says why none does. -/
abbrev Toolkit := Nat × Nat → Except String (Nat × Nat)

def scaleOf (requested : Int) : Nat := (max 1 requested).toNat

def size (scale : Nat) : Nat × Nat := (Display.width * scale, Display.height * scale)

end Window

end Chip8
