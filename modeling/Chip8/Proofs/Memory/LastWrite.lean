import Mathlib.Data.List.Basic
import Mathlib.Data.List.Induction
import Chip8.Proofs.Latest
import Chip8.Proofs.Memory.Access

/-!
# The store as a checked map

The store is written to by loads, by single bytes and by blocks. A write that does not lie inside
the store is refused as a whole. So every byte is what the last accepted write that covers its
address has left there, or still the one that a fresh store begins with.
-/
namespace Chip8.Memory

inductive Write where
  | load (program : List UInt8)
  | byte (address value : Int)
  | block (address : Int) (values : List Int)
  deriving DecidableEq, Repr

inductive Refusal where
  | load (error : LoadError)
  | fault (fault : Fault)
  deriving DecidableEq, Repr

namespace Write

def start : Write → Int
  | .load _ => programStart
  | .byte address _ | .block address _ => address

def values : Write → List Int
  | .load program => program.map fun b => (b.toNat : Int)
  | .byte _ value => [value]
  | .block _ values => values

def Accepted : Write → Prop
  | .load program => program.length ≤ 3584
  | .byte address _ => 0 ≤ address ∧ address ≤ 4095
  | .block address values => 0 ≤ address ∧ address + values.length ≤ 4096

instance : DecidablePred Accepted := fun w =>
  match w with
  | .load _ => inferInstanceAs (Decidable (_ ≤ _))
  | .byte _ _ | .block _ _ => inferInstanceAs (Decidable (_ ∧ _))

def refusal : Write → Refusal
  | .load program => .load (.tooLarge program.length 3584 none)
  | .byte address _ | .block address _ =>
    .fault (.memory .data (if address < 0 ∨ 4096 ≤ address then address else 4096))

def value? (w : Write) (a : Nat) : Option Int :=
  if w.Accepted ∧ w.start ≤ a then w.values[a - w.start.toNat]? else none

def covers (a : Nat) (w : Write) : Bool := (w.value? a).isSome

variable {w : Write} {a : Nat} {v : Int}

/-- A refused write covers no address. -/
theorem value?_of_not_accepted (h : ¬ w.Accepted) (a : Nat) : w.value? a = none :=
  if_neg fun hw => h hw.1

theorem start_nonneg (h : w.Accepted) : 0 ≤ w.start := by
  cases w with
  | load program => exact Int.natCast_nonneg programStart
  | byte | block => exact h.1

theorem firstOutside_of_accepted (h : w.Accepted) :
    firstOutside? w.start w.values.length = none := by
  rw [firstOutside?_eq_none_iff]
  refine ⟨start_nonneg h, ?_⟩
  cases w with
  | load program =>
    have hfits : program.length ≤ 3584 := h
    simp only [start, values, programStart, List.length_map]
    omega
  | byte address value =>
    have hle := h.2
    simp only [start, values, List.length_singleton]
    omega
  | block address values => exact h.2

end Write

def attempt (m : Memory) : Write → EStateM.Result Refusal Memory Unit
  | .load program => EStateM.adaptExcept .load (load program) m
  | .byte address value => EStateM.adaptExcept .fault (write address value) m
  | .block address values => EStateM.adaptExcept .fault (writeBlock address values) m

def written (m : Memory) (w : Write) : Memory := stateOf (m.attempt w)

def afterWrites (m : Memory) (ws : List Write) : Memory := ws.foldl written m

def initialByte (a : Nat) : UInt8 :=
  if Font.address ≤ a then Font.bytes.getD (a - Font.address) 0 else 0

/-- The byte at `a` after the writes `ws` to a fresh store, reduced from the latest value. -/
def Left (ws : List Write) (a : Nat) (b : UInt8) : Prop :=
  (∃ j w v, LatestAt (Write.covers a) ws j w ∧ w.value? a = some v ∧ (b.toNat : Int) = v % 256) ∨
    (∀ w ∈ ws, w.value? a = none) ∧ b = initialByte a

variable {m : Memory} {w : Write} {ws : List Write} {a : Nat} {b b' : UInt8}

theorem attempt_of_accepted (h : w.Accepted) :
    m.attempt w = .ok () (m.put w.start.toNat (w.values.map UInt8.ofInt)) := by
  have hin := Write.firstOutside_of_accepted h
  cases w with
  | load program =>
    have hbytes : (Write.load program).values.map UInt8.ofInt = program := by
      simp only [Write.values, List.map_map, Function.comp_def, ofInt_toNat, List.map_id']
    rw [hbytes, attempt, EStateM.adaptExcept, load_of_fits m h]
    rfl
  | byte address value =>
    have hone : firstOutside? address 1 = none := hin
    rw [attempt, EStateM.adaptExcept, write_of_inside m hone]
    rfl
  | block address values =>
    have hblock : firstOutside? address values.length = none := hin
    rw [attempt, EStateM.adaptExcept, writeBlock_of_inside m hblock]
    rfl

/-- A refused write changes nothing. -/
theorem attempt_of_refused (h : ¬ w.Accepted) : m.attempt w = .error w.refusal m := by
  cases w with
  | load program =>
    have hlong : 3584 < program.length := Nat.not_le.mp h
    rw [attempt, EStateM.adaptExcept, load_of_oversized m hlong]
    rfl
  | byte address value =>
    have hout : ¬ (0 ≤ address ∧ address ≤ 4095) := h
    have hone : firstOutside? address 1 = _ := firstOutside_of_over (by omega)
    rw [attempt, EStateM.adaptExcept, write_of_outside m hone]
    rfl
  | block address values =>
    have hblock := firstOutside_of_over h
    rw [attempt, EStateM.adaptExcept, writeBlock_of_outside m hblock]
    rfl

theorem attempt_ok_iff : (∃ m', m.attempt w = .ok () m') ↔ w.Accepted := by
  constructor
  · rintro ⟨m', hm'⟩
    by_contra h
    rw [attempt_of_refused h] at hm'
    cases hm'
  · intro h
    exact ⟨_, attempt_of_accepted h⟩

theorem written_of_accepted (h : w.Accepted) :
    m.written w = m.put w.start.toNat (w.values.map UInt8.ofInt) := by
  rw [written, attempt_of_accepted h]
  rfl

theorem written_of_refused (h : ¬ w.Accepted) : m.written w = m := by
  rw [written, attempt_of_refused h]
  rfl

/-- What one write makes of one byte. -/
theorem byte_written (m : Memory) (w : Write) (ha : a < 4096) :
    (m.written w).byte a = ((w.value? a).map UInt8.ofInt).getD (m.byte a) := by
  by_cases h : w.Accepted
  · have hpos := Write.start_nonneg h
    rw [written_of_accepted h, Write.value?]
    by_cases hstart : w.start ≤ a
    · rw [if_pos ⟨h, hstart⟩]
      cases hv : w.values[a - w.start.toNat]? with
      | some v =>
        apply byte_put_of_mem
        · omega
        · rw [List.getElem?_map, hv]
          rfl
        · exact ha
      | none =>
        have hbehind := List.getElem?_eq_none_iff.mp hv
        rw [byte_put, if_neg]
        · rfl
        · rw [List.length_map]
          omega
    · rw [if_neg fun hw => hstart hw.2, byte_put, if_neg (by omega)]
      rfl
  · rw [written_of_refused h, Write.value?_of_not_accepted h]
    rfl

theorem byte_fresh (ha : a < 4096) : fresh.byte a = initialByte a := by
  have hblank : (Memory.mk (Vector.replicate 4096 0)).byte a = 0 := by
    simp [byte, ha]
  rw [fresh, byte_put, hblank, initialByte]
  by_cases h : Font.address ≤ a
  · rw [if_pos h]
    by_cases hin : a < Font.address + Font.bytes.length
    · rw [if_pos ⟨h, hin, ha⟩]
    · rw [if_neg (fun hw => hin hw.2.1), List.getD_eq_getElem?_getD,
        List.getElem?_eq_none_iff.mpr (by omega)]
      rfl
  · rw [if_neg h, if_neg fun hw => h hw.1]

/-- The last write that covers an address decides its byte. -/
theorem left_of_writes (ws : List Write) (ha : a < 4096) :
    Left ws a ((fresh.afterWrites ws).byte a) := by
  induction ws using List.reverseRecOn with
  | nil => exact Or.inr ⟨fun w hw => absurd hw List.not_mem_nil, byte_fresh ha⟩
  | append_singleton ws w ih =>
    rw [afterWrites, List.foldl_concat, byte_written _ w ha]
    cases hv : w.value? a with
    | some v =>
      have hcovers : w.covers a = true := by rw [Write.covers, hv]; rfl
      exact Or.inl ⟨ws.length, w, v, latestAt_concat.mpr (Or.inl ⟨hcovers, rfl, rfl⟩), hv,
        toNat_ofInt v⟩
    | none =>
      have hcovers : w.covers a = false := by rw [Write.covers, hv]; rfl
      rcases ih with ⟨j, w', v, hlast, hv', hb⟩ | ⟨hnone, hb⟩
      · exact Or.inl ⟨j, w', v, latestAt_concat.mpr (Or.inr ⟨hcovers, hlast⟩), hv', hb⟩
      · refine Or.inr ⟨?_, hb⟩
        intro w' hw'
        rcases List.mem_append.mp hw' with hw' | hw'
        · exact hnone w' hw'
        · rw [List.mem_singleton.mp hw']
          exact hv

theorem Left.unique (h : Left ws a b) (h' : Left ws a b') : b = b' := by
  have hclash : ∀ {j w v}, LatestAt (Write.covers a) ws j w → w.value? a = some v →
      ¬ ∀ w ∈ ws, w.value? a = none := by
    intro j w v hlast hv hnone
    rw [hnone w (List.mem_of_getElem? hlast.here)] at hv
    cases hv
  rcases h with ⟨j, w, v, hlast, hv, hb⟩ | ⟨hnone, hb⟩
  · rcases h' with ⟨j', w', v', hlast', hv', hb'⟩ | ⟨hnone, -⟩
    · obtain rfl := hlast.unique hlast'
      obtain rfl := Option.some.inj (hlast.here.symm.trans hlast'.here)
      obtain rfl := Option.some.inj (hv.symm.trans hv')
      exact UInt8.toNat_inj.mp (by omega)
    · exact absurd hnone (hclash hlast hv)
  · rcases h' with ⟨j', w', v', hlast', hv', -⟩ | ⟨-, hb'⟩
    · exact absurd hnone (hclash hlast' hv')
    · rw [hb, hb']

theorem fetch_eq_ok_iff {address : Int} {word : Nat} : m.fetch address = .ok word ↔
    (0 ≤ address ∧ address ≤ 4094) ∧
      word = 256 * (m.byte address.toNat).toNat + (m.byte (address.toNat + 1)).toNat := by
  constructor
  · exact fetch_eq_ok
  · rintro ⟨hin, rfl⟩
    exact fetch_of_inside m ((firstOutside?_eq_none_iff address 2).mpr (by omega))

/-- A fetch is two reads, most significant byte first. -/
theorem fetch_eq_ok_iff_reads {address : Int} {word : Nat} : m.fetch address = .ok word ↔
    ∃ hi lo, m.read address = .ok hi ∧ m.read (address + 1) = .ok lo ∧
      word = 256 * hi.toNat + lo.toNat := by
  simp only [fetch_eq_ok_iff, read_eq_ok_iff]
  constructor
  · rintro ⟨hin, rfl⟩
    have hnext : (address + 1).toNat = address.toNat + 1 := by omega
    refine ⟨_, _, ⟨by omega, rfl⟩, ⟨by omega, rfl⟩, ?_⟩
    rw [hnext]
  · rintro ⟨hi, lo, ⟨hin, rfl⟩, ⟨hin', rfl⟩, rfl⟩
    have hnext : (address + 1).toNat = address.toNat + 1 := by omega
    rw [hnext]
    exact ⟨by omega, rfl⟩

/-- After any writes to a fresh store: which writes are accepted, and why and with what effect the
others are refused; where there is something to be read, and that it is what the latest of the
writes has left. -/
theorem store_is_checked_map (ws : List Write) :
    let m := fresh.afterWrites ws
    (∀ w : Write, ((∃ m', m.attempt w = .ok () m') ↔ w.Accepted) ∧
      ∀ r m', m.attempt w = .error r m' → r = w.refusal ∧ m' = m) ∧
    m.bytes.toList.length = 4096 ∧
    (∀ a : Int, (∃ b, m.read a = .ok b) ↔ 0 ≤ a ∧ a ≤ 4095) ∧
    (∀ (a : Int) (b : UInt8), m.read a = .ok b ↔ (0 ≤ a ∧ a ≤ 4095) ∧ Left ws a.toNat b) ∧
    (∀ pc : Int, (∃ word, m.fetch pc = .ok word) ↔ 0 ≤ pc ∧ pc ≤ 4094) ∧
    ∀ (pc : Int) (word : Nat), m.fetch pc = .ok word ↔
      ∃ hi lo, m.read pc = .ok hi ∧ m.read (pc + 1) = .ok lo ∧
        word = 256 * hi.toNat + lo.toNat := by
  intro m
  refine ⟨?_, Vector.length_toList, ?_, ?_, ?_, fun _ _ => fetch_eq_ok_iff_reads⟩
  · intro w
    refine ⟨attempt_ok_iff, ?_⟩
    intro r m' hr
    by_cases h : w.Accepted
    · rw [attempt_of_accepted h] at hr
      cases hr
    · rw [attempt_of_refused h] at hr
      cases hr
      exact ⟨rfl, rfl⟩
  · intro a
    simp only [read_eq_ok_iff]
    constructor
    · rintro ⟨b, hin, -⟩
      exact hin
    · intro hin
      exact ⟨_, hin, rfl⟩
  · intro a b
    rw [read_eq_ok_iff]
    constructor
    · rintro ⟨hin, rfl⟩
      exact ⟨hin, left_of_writes ws (by omega)⟩
    · rintro ⟨hin, hleft⟩
      exact ⟨hin, hleft.unique (left_of_writes ws (by omega))⟩
  · intro pc
    simp only [fetch_eq_ok_iff]
    constructor
    · rintro ⟨word, hin, -⟩
      exact hin
    · intro hin
      exact ⟨_, hin, rfl⟩

/-- A block with a negative value and one beyond a byte lies over a program; two writes outside of
the store come to nothing. -/
theorem store_is_checked_map_overlapping :
    let ws : List Write :=
      [.load [0x12, 0x34, 0x56], .block 0x1FF [7, -2, 300], .byte 4096 5, .byte (-1) 6]
    let m := fresh.afterWrites ws
    m.read 0x200 = .ok 0xFE ∧ m.read 0x201 = .ok 0x2C ∧ m.read 0x202 = .ok 0x56 ∧
      m.fetch 0x200 = .ok 0xFE2C := by
  intro ws m
  obtain ⟨-, -, -, hread, -, hfetch⟩ := store_is_checked_map ws
  have hfirst : m.read 0x200 = .ok 0xFE :=
    (hread 0x200 0xFE).mpr ⟨by decide, Or.inl ⟨1, _, -2,
      latestAt_of_drop rfl (by decide) (by decide), by decide, by decide⟩⟩
  have hsecond : m.read 0x201 = .ok 0x2C :=
    (hread 0x201 0x2C).mpr ⟨by decide, Or.inl ⟨1, _, 300,
      latestAt_of_drop rfl (by decide) (by decide), by decide, by decide⟩⟩
  have hthird : m.read 0x202 = .ok 0x56 :=
    (hread 0x202 0x56).mpr ⟨by decide, Or.inl ⟨0, _, 0x56,
      latestAt_of_drop rfl (by decide) (by decide), by decide, by decide⟩⟩
  exact ⟨hfirst, hsecond, hthird, (hfetch 0x200 _).mpr ⟨_, _, hfirst, hsecond, rfl⟩⟩

end Chip8.Memory
