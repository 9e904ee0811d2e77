/-!
The seeded byte stream behind the random instruction: a Mersenne twister of 624 words of 32 bits.
A byte is nine leading bits of an output, drawn again while the first of them is set.
-/

namespace Chip8

structure Random where
  words : Vector UInt32 624
  /-- How many words of the current block have been used. -/
  used : Nat
  deriving DecidableEq

namespace Random

/-- Positions in the block are cyclic. -/
def wordAt (words : Vector UInt32 624) (k : Nat) : UInt32 :=
  words.get ⟨k % 624, Nat.mod_lt _ (by decide)⟩

def put (words : Vector UInt32 624) (k : Nat) (w : UInt32) : Vector UInt32 624 :=
  words.set (k % 624) w (Nat.mod_lt _ (by decide))

def expand (first : UInt32) : Vector UInt32 624 :=
  (List.range 623).foldl (fun words k =>
    let before := wordAt words k
    put words (k + 1) ((1812433253 : UInt32) * (before ^^^ (before >>> 30)) + UInt32.ofNat (k + 1)))
    (Vector.replicate 624 first)

/-- One word of the block is rewritten from its predecessor, and the last word of the block is
kept in front as soon as it has been reached. The position runs from 1 to 623. -/
def mixWord (factor : UInt32) (change : UInt32 → UInt32) (words : Vector UInt32 624) (k : Nat) :
    Vector UInt32 624 :=
  let before := wordAt words (k - 1)
  let words := put words k (change (wordAt words k ^^^ ((before ^^^ (before >>> 30)) * factor)))
  if k = 623 then put words 0 (wordAt words 623) else words

def position (t : Nat) : Nat := t % 623 + 1

def ofKey (key : List UInt32) : Random :=
  let rounds := max 624 key.length
  let words := (List.range rounds).foldl (fun words t =>
    let j := t % key.length
    mixWord 1664525 (· + key.getD j 0 + UInt32.ofNat j) words (position t)) (expand 19650218)
  let words := (List.range 623).foldl (fun words t =>
    let k := position (rounds + t)
    mixWord 1566083941 (· - UInt32.ofNat k) words k) words
  ⟨put words 0 0x80000000, 624⟩

/-- The words of a number in base `2 ^ 32`, the least significant first; zero has one. -/
def key (n : Nat) : List UInt32 :=
  if n < 4294967296 then [UInt32.ofNat n] else UInt32.ofNat n :: key (n / 4294967296)
termination_by n

/-- The sign of a seed does not count. -/
def ofSeed (seed : Int) : Random := ofKey (key seed.natAbs)

/-- The next block: every word from its successor and the word 397 places on. -/
def twist (words : Vector UInt32 624) : Vector UInt32 624 :=
  (List.range 624).foldl (fun words k =>
    let joined := (wordAt words k &&& 0x80000000) ||| (wordAt words (k + 1) &&& 0x7FFFFFFF)
    let odd : UInt32 := if joined &&& 1 = 1 then 0x9908B0DF else 0
    put words k (wordAt words (k + 397) ^^^ (joined >>> 1) ^^^ odd)) words

def temper (w : UInt32) : UInt32 :=
  let w := w ^^^ (w >>> 11)
  let w := w ^^^ ((w <<< 7) &&& 0x9D2C5680)
  let w := w ^^^ ((w <<< 15) &&& 0xEFC60000)
  w ^^^ (w >>> 18)

def nextWord (r : Random) : Random × UInt32 :=
  let r := if r.used < 624 then r else ⟨twist r.words, 0⟩
  (⟨r.words, r.used + 1⟩, temper (wordAt r.words r.used))

/-- The leading bits of the outputs form a sequence of period `2 ^ 19937 - 1`, in which at most
19937 ones follow each other, so a draw within this bound always succeeds. -/
def drawLimit : Nat := 19938

def drawByte : Nat → Random → Random × UInt8
  | 0, r => (r, 0)
  | limit + 1, r =>
    let (r, w) := r.nextWord
    let value := w >>> 23
    if value < 256 then (r, value.toUInt8) else drawByte limit r

def nextByte (r : Random) : Random × UInt8 := drawByte drawLimit r

def take : Nat → Random → List UInt8
  | 0, _ => []
  | n + 1, r => let (r, b) := r.nextByte; b :: take n r

end Random

end Chip8
