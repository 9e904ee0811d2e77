import Chip8.Log
import Chip8.Memory

/-!
Paths, and a tree of files below a working directory, as far as reading a file can tell. Empty
components of a path and single dots are dropped, and so is a slash at the end; double dots are kept.
Two leading slashes differ from one, and more than two count as one. The empty path is written as a
dot.

A path is walked from component to component: each must be looked up in a directory, its name must
not be too long, and it must be there. Of what lies outside the working directory nothing is known but
what was added, and that its ancestors are directories.
-/

namespace Chip8

structure FilePath where
  root : String
  components : List String
  deriving DecidableEq, Repr

namespace FilePath

def rootOf (cs : List Char) : String :=
  match (cs.takeWhile (· == '/')).length with
  | 0 => ""
  | 2 => "//"
  | _ => "/"

def pieces : List Char → List (List Char)
  | [] => [[]]
  | c :: rest =>
    if c = '/' then [] :: pieces rest
    else
      match pieces rest with
      | [] => [[c]]
      | first :: others => (c :: first) :: others

def ofString (s : String) : FilePath where
  root := rootOf s.toList
  components :=
    ((pieces s.toList).filter fun p => p != [] && p != ['.']).map String.ofList

def text (p : FilePath) : String :=
  let t := p.root ++ "/".intercalate p.components
  if t = "" then "." else t

end FilePath

/-- Where a walk stands, as the steps that lead there from the working directory: double dots
first, then names. A slash in front stands for the root. -/
abbrev Place := List String

namespace Place

def start (p : FilePath) : Place := if p.root = "" then [] else ["/"]

/-- One step from a directory. There is nothing above the root. -/
def enter (above : Place) (name : String) : Place :=
  if name = ".." then
    match above.getLast? with
    | none | some ".." => above ++ [".."]
    | some "/" => above
    | some _ => above.dropLast
  else above ++ [name]

def passed (above : Place) : List String → List Place
  | [] => [above]
  | name :: rest => above :: passed (above.enter name) rest

end Place

/-- What is known to be there, the latest first: files with their content, and directories, which
also stand before the files in them. -/
structure FileTree where
  entries : List (Place × Option (List UInt8))

inductive FileNode where
  | file (content : List UInt8)
  | directory

namespace FileTree

def empty : FileTree := ⟨[]⟩

def makeDirectories (t : FileTree) (above : Place) (components : List String) : FileTree :=
  ⟨((above.passed components).map fun d => (d, none)) ++ t.entries⟩

def add (t : FileTree) (name : String) (content : Option (List UInt8)) : FileTree :=
  let p := FilePath.ofString name
  let start := Place.start p
  match content with
  | none => t.makeDirectories start p.components
  | some bytes =>
    let t := t.makeDirectories start p.components.dropLast
    ⟨(p.components.foldl Place.enter start, some bytes) :: t.entries⟩

def ofList (files : List (String × Option (List UInt8))) : FileTree :=
  files.foldl (fun t (name, content) => t.add name content) empty

def node? (t : FileTree) (place : Place) : Option FileNode :=
  match t.entries.find? fun e => e.1 == place && e.2.isSome with
  | some (_, some content) => some (.file content)
  | _ => if t.entries.any fun e => place.isPrefixOf e.1 then some .directory else none

def nameLimit : Nat := 255
def pathLimit : Nat := 4095

def walk (t : FileTree) (above : Place) : List String → Except FileError FileNode
  | [] => .ok .directory
  | name :: rest =>
    if nameLimit < name.utf8ByteSize then .error .nameTooLong
    else
      let here := above.enter name
      if name = ".." then walk t here rest
      else
        match t.node? here with
        | none => .error .noSuchFile
        | some .directory => walk t here rest
        | some (.file content) => if rest.isEmpty then .ok (.file content) else .error .notDirectory

def read (t : FileTree) (p : FilePath) (limit : Nat) : Except FileError (List UInt8) :=
  if pathLimit < p.text.utf8ByteSize then .error .nameTooLong
  else
    match t.walk (Place.start p) p.components with
    | .ok (.file content) => .ok (content.take limit)
    | .ok .directory => .error .isDirectory
    | .error e => .error e

end FileTree

/-!
Program images. A path that can name a file is opened, and the file is read up to one byte past
the limit, which is enough to tell that it does not fit; then its size is checked, before there is
a machine.
-/

namespace Rom

def readLimit : Nat := Memory.programLimit + 1

def checkSize (size : Nat) (path : Option String) : Except LoadError Unit :=
  if Memory.programLimit < size then .error (.tooLarge size Memory.programLimit path) else .ok ()

/-- A null character is refused before any file is looked for. -/
def checkPath (p : FilePath) : Except LoadError Unit :=
  if p.text.toList.contains '\x00' then .error .nullInPath else .ok ()

def accept (p : FilePath) (content : Except FileError (List UInt8)) :
    Except LoadError (List UInt8) :=
  match content with
  | .error cause => .error (.unreadable p.text cause)
  | .ok program =>
    match checkSize program.length (some p.text) with
    | .error e => .error e
    | .ok () => .ok program

def read (t : FileTree) (path : String) : Except LoadError (List UInt8) :=
  let p := FilePath.ofString path
  match checkPath p with
  | .error e => .error e
  | .ok () => accept p (t.read p readLimit)

def readLine (path : String) (program : List UInt8) : LogLine :=
  .debug ("Read " ++ Nat.repr program.length ++ " bytes from " ++ (FilePath.ofString path).text)

end Rom

end Chip8
