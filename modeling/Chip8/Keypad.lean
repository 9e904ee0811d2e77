import Chip8.Bits

/-!
The keypad of sixteen keys. The latest press stays latched when its key is let go, so a tap that
begins and ends between two instructions is still seen.
-/

namespace Chip8

structure Keypad where
  down : Vector Bool 16
  latched : Option Nibble
  deriving DecidableEq

namespace Keypad

def count : Nat := 16

def key (k : Int) : Nibble := Nibble.ofInt k

def released : Keypad := ⟨Vector.replicate 16 false, none⟩

def press (p : Keypad) (k : Int) : Keypad :=
  ⟨p.down.set (key k) true, some (key k)⟩

/-- Letting a key go keeps the latch. -/
def release (p : Keypad) (k : Int) : Keypad :=
  { p with down := p.down.set (key k) false }

def set (p : Keypad) (k : Int) (isDown : Bool) : Keypad :=
  if isDown then p.press k else p.release k

def releaseAll (_ : Keypad) : Keypad := released

def clearLatch (p : Keypad) : Keypad := { p with latched := none }

/-- Here a number is a key only from 0 to 15. -/
def isDown (p : Keypad) (k : Int) : Bool :=
  if 0 ≤ k ∧ k ≤ 15 then p.down.get (key k) else false

end Keypad

inductive KeyOp where
  | press (k : Int)
  | release (k : Int)
  | set (k : Int) (isDown : Bool)
  | releaseAll
  | clearLatch
  deriving DecidableEq, Repr

def Keypad.apply (p : Keypad) : KeyOp → Keypad
  | .press k => p.press k
  | .release k => p.release k
  | .set k isDown => p.set k isDown
  | .releaseAll => p.releaseAll
  | .clearLatch => p.clearLatch

end Chip8
