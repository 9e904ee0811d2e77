import Chip8.Text.Quoted

/-!
The command line. Words are classified first, each on its own: an option by its spelling, by a
unique beginning of a long spelling, with a value after an equals sign, or as a cluster of short
flags; a double dash, after which every word is plain; or a plain word. Then the words are taken in
order. Errors and the request for help end the reading where they are met.
-/

namespace Chip8

/-- How a double dash is read that is attached to an option as its value. It is no number and is
refused like any other text, but there are readers that drop it. -/
inductive DashValue where
  | refused
  | dropped
  deriving DecidableEq, Repr

/-- The value of an option, which is empty where a double dash was dropped. -/
inductive Setting where
  | number (z : Int)
  | empty
  deriving DecidableEq, Repr

structure Options where
  rom : String
  scale : Setting
  clock : Setting
  seed : Option Setting
  legacyStore : Bool
  verbose : Bool
  deriving DecidableEq, Repr

inductive Flag where
  | help
  | scale
  | clock
  | seed
  | legacyStore
  | verbose
  deriving DecidableEq, Repr

namespace Flag

def spellings : List (String × Flag) := [
  ("-h", .help), ("--help", .help), ("--scale", .scale), ("--clock", .clock), ("--seed", .seed),
  ("--legacy-store", .legacyStore), ("-v", .verbose), ("--verbose", .verbose)]

def ofSpelling? (s : String) : Option Flag := spellings.lookup s

def title (f : Flag) : String :=
  "/".intercalate ((spellings.filter fun e => e.2 == f).map Prod.fst)

def takesValue : Flag → Bool
  | .scale | .clock | .seed => true
  | .help | .legacyStore | .verbose => false

end Flag

inductive UsageError where
  | ambiguous (given : String) (candidates : List String)
  | expectedValue (f : Flag)
  | invalidInteger (f : Flag) (given : String)
  | unexpectedValue (f : Flag) (given : String)
  | missingRom
  | unrecognized (words : List String)
  deriving DecidableEq, Repr

def UsageError.message : UsageError → String
  | .ambiguous given candidates =>
    "ambiguous option: " ++ given ++ " could match " ++ ", ".intercalate candidates
  | .expectedValue f => "argument " ++ f.title ++ ": expected one argument"
  | .invalidInteger f given =>
    "argument " ++ f.title ++ ": invalid int value: " ++ Quoted.text given
  | .unexpectedValue f given =>
    "argument " ++ f.title ++ ": ignored explicit argument " ++ Quoted.text given
  | .missingRom => "the following arguments are required: rom"
  | .unrecognized words => "unrecognized arguments: " ++ " ".intercalate words

inductive Refusal where
  | help
  | usage (e : UsageError)
  deriving DecidableEq, Repr

namespace CommandLine

def lines (ls : List String) : String := String.join (ls.map (· ++ "\n"))

def usage : String := lines [
  "usage: chip8vm [-h] [--scale SCALE] [--clock CLOCK] [--seed SEED]",
  "               [--legacy-store] [-v]",
  "               rom"]

def help : String := usage ++ lines [
  "",
  "CHIP-8 virtual machine",
  "",
  "positional arguments:",
  "  rom             Path to CHIP-8 ROM",
  "",
  "options:",
  "  -h, --help      show this help message and exit",
  "  --scale SCALE   Pixel scale factor (default 15)",
  "  --clock CLOCK   CPU clock in Hz (default 700)",
  "  --seed SEED     Seed for the RND instruction",
  "  --legacy-store  Use original FX55/FX65 quirk (I increments)",
  "  -v, --verbose   Log every executed instruction"]

inductive Word where
  | plain (text : String)
  | separator
  | option (f : Flag) (short : Bool) (attached : Option (List Char))
  | unknown (text : String)
  deriving DecidableEq, Repr

def splitEquals (cs : List Char) : Option (List Char × List Char) :=
  if cs.contains '=' then
    some (cs.takeWhile (· != '='), (cs.dropWhile (· != '=')).drop 1)
  else none

def isDigit (c : Char) : Bool := (Digit.value? c).isSome

def allDigits (cs : List Char) : Bool := !cs.isEmpty && cs.all isDigit

/-- A dash, then digits, or digits around a point that may lack those before it. A line break at
the end does not count. -/
def isNegativeNumber (cs : List Char) : Bool :=
  match cs with
  | '-' :: body =>
    let body := if body.getLast? = some '\n' then body.dropLast else body
    let fraction := body.dropWhile isDigit
    allDigits body ||
      match fraction with
      | '.' :: after => allDigits after
      | _ => false
  | _ => false

def candidates (beginning : List Char) : List (String × Flag) :=
  Flag.spellings.filter fun e => beginning.isPrefixOf e.1.toList

def other (cs : List Char) : Word :=
  let s := String.ofList cs
  if isNegativeNumber cs || cs.contains ' ' then .plain s else .unknown s

/-- A word that starts with two dashes and is no spelling: the part before an equals sign is a
spelling, or the beginning of just one. -/
def classifyLong (cs : List Char) : Except UsageError Word :=
  let (name, attached) :=
    match splitEquals cs with
    | some (name, value) => (name, some value)
    | none => (cs, none)
  match Flag.ofSpelling? (String.ofList name) with
  | some f => .ok (.option f false attached)
  | none =>
    match candidates name with
    | [] => .ok (other cs)
    | [(_, f)] => .ok (.option f false attached)
    | several => .error (.ambiguous (String.ofList cs) (several.map Prod.fst))

/-- A word that starts with one dash and is no spelling: an equals sign right after a short
spelling introduces a value, otherwise the rest of the word is one. -/
def classifyShort (cs : List Char) : Word :=
  match Flag.ofSpelling? (String.ofList (cs.take 2)) with
  | some f =>
    match cs.drop 2 with
    | '=' :: value => .option f true (some value)
    | rest => .option f true (some rest)
  | none => other cs

def classify (s : String) : Except UsageError Word :=
  match s.toList with
  | '-' :: rest =>
    match Flag.ofSpelling? s with
    | some f => .ok (.option f (rest.head? != some '-') none)
    | none =>
      match rest with
      | [] => .ok (.plain s)
      | '-' :: _ => classifyLong s.toList
      | _ => .ok (classifyShort s.toList)
  | _ => .ok (.plain s)

/-- The first double dash separates; behind it every word is plain. -/
def classifyAll : List String → Except UsageError (List Word)
  | [] => .ok []
  | s :: rest =>
    if s = "--" then .ok (.separator :: rest.map .plain)
    else do return (← classify s) :: (← classifyAll rest)

structure Taken where
  rom : Option String
  scale : Setting
  clock : Setting
  seed : Option Setting
  legacyStore : Bool
  verbose : Bool
  extras : List String

def Taken.start : Taken := ⟨none, .number 15, .number 700, none, false, false, []⟩

def Taken.extra (t : Taken) (s : String) : Taken := { t with extras := t.extras ++ [s] }

def Taken.setFlag (t : Taken) : Flag → Except Refusal Taken
  | .help => .error .help
  | .legacyStore => .ok { t with legacyStore := true }
  | .verbose => .ok { t with verbose := true }
  | .scale | .clock | .seed => .ok t

def Setting.read? (dash : DashValue) (given : String) : Option Setting :=
  if given = "--" ∧ dash = .dropped then some .empty else (Integer.read? given).map .number

def Taken.setValue (t : Taken) (dash : DashValue) (f : Flag) (given : String) :
    Except Refusal Taken :=
  match Setting.read? dash given with
  | none => .error (.usage (.invalidInteger f given))
  | some value =>
    match f with
    | .scale => .ok { t with scale := value }
    | .clock => .ok { t with clock := value }
    | .seed => .ok { t with seed := some value }
    | .help | .legacyStore | .verbose => .ok t

/-- The flags of a cluster, of which the first is known. All of them must be short spellings
before any of them takes effect. -/
def cluster (f : Flag) : List Char → Except UsageError (List Flag)
  | [] => .ok [f]
  | c :: rest =>
    match Flag.ofSpelling? (String.ofList ['-', c]) with
    | some g => do return f :: (← cluster g rest)
    | none => .error (.unexpectedValue f (String.ofList (c :: rest)))

def Taken.option (t : Taken) (dash : DashValue) (f : Flag) (short : Bool)
    (attached : Option (List Char)) : Except Refusal Taken :=
  match attached with
  | none => t.setFlag f
  | some value =>
    if f.takesValue then t.setValue dash f (String.ofList value)
    else if short && !value.isEmpty then
      match cluster f value with
      | .error e => .error (.usage e)
      | .ok fs => fs.foldlM Taken.setFlag t
    else .error (.usage (.unexpectedValue f (String.ofList value)))

/-- Takes the words in order. The separator belongs to the program's path if that stands next to
it, and is left over otherwise. -/
def take (dash : DashValue) (t : Taken) : List Word → Except Refusal Taken
  | [] => .ok t
  | .plain s :: rest =>
    match t.rom, rest with
    | some _, rest => take dash (t.extra s) rest
    | none, .separator :: rest => take dash { t with rom := some s } rest
    | none, rest => take dash { t with rom := some s } rest
  | .separator :: rest =>
    match t.rom, rest with
    | none, .plain s :: rest => take dash { t with rom := some s } rest
    | _, rest => take dash (t.extra "--") rest
  | .unknown s :: rest => take dash (t.extra s) rest
  | .option f short attached :: rest =>
    if f.takesValue && attached.isNone then
      match rest with
      | .plain s :: rest => do take dash (← t.setValue dash f s) rest
      | _ => .error (.usage (.expectedValue f))
    else do take dash (← t.option dash f short attached) rest

def parse (dash : DashValue) (argv : List String) : Except Refusal Options :=
  match classifyAll argv with
  | .error e => .error (.usage e)
  | .ok words => do
    let t ← take dash .start words
    match t.rom with
    | none => .error (.usage .missingRom)
    | some rom =>
      if t.extras.isEmpty then
        .ok ⟨rom, t.scale, t.clock, t.seed, t.legacyStore, t.verbose⟩
      else .error (.usage (.unrecognized t.extras))

end CommandLine

namespace Refusal

def status : Refusal → Nat
  | .help => 0
  | .usage _ => 2

def output : Refusal → String
  | .help => CommandLine.help
  | .usage _ => ""

def errors : Refusal → String
  | .help => ""
  | .usage e => CommandLine.usage ++ "chip8vm: error: " ++ e.message ++ "\n"

end Refusal

end Chip8
