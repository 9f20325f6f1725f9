import Mathlib.Logic.Function.Basic
import Pos2.Text

/-! The file system as the loader sees it. Every operation is atomic. Paths are
absolute; the directories on the way to a file are no links, only the file
itself may be one. -/

namespace Pos2.Loader

abbrev Path := List Text

/-- What a symbolic link holds. -/
inductive Target where
  | absolute (path : Path)
  | relative (path : Path)
  deriving DecidableEq

/-- Contents are lists of characters; how they are encoded plays no part. To a
`filling` file more is on its way: a `tokio::fs::File` takes the bytes of a write and
puts them into the file behind the back of the writer. -/
inductive Node where
  | file (content : Text)
  | filling (content coming : Text)
  | dir
  | link (target : Target)
  deriving DecidableEq

/-- A file and what is still on its way to it. -/
def Node.filled (content : Text) : Text → Node
  | [] => .file content
  | coming => .filling content coming

abbrev Fs := Path → Option Node

/-- One component after the other, as `.` and `..` ask for. -/
def Path.walk (start rest : Path) : Path :=
  rest.foldl (fun path name =>
    if name = "..".toList then path.dropLast else if name = ".".toList then path else path ++ [name]) start

/-- Where a link at a path leads to. -/
def Target.from (target : Target) (path : Path) : Path :=
  match target with
  | .absolute path => path
  | .relative rest => Path.walk path.dropLast rest

theorem Node.empty_whole : ∀ content coming, Node.file [] ≠ .filling content coming := by simp

/-- An entry of a tar archive, below the directory it is unpacked to. Unpacking writes all of it. -/
structure Entry where
  name : Text
  below : Path
  node : Node
  whole : ∀ content coming, node ≠ .filling content coming

namespace Fs

/-- Links are followed that often. -/
def maxLinks : Nat := 40

def followLinks : Nat → Fs → Path → Option Path
  | 0, _, _ => none
  | count + 1, fs, path =>
    match fs path with
    | some (.link target) => followLinks count fs (target.from path)
    | _ => some path

/-- Where the links at a path end. Nothing needs to be there. -/
def follow (fs : Fs) (path : Path) : Option Path := fs.followLinks maxLinks path

/-- `try_exists`: a dangling link does not exist. -/
def exists_ (fs : Fs) (path : Path) : Bool := ((fs.follow path).bind fs).isSome

def hasParent (fs : Fs) (path : Path) : Bool := fs path.dropLast = some .dir ∨ path.length ≤ 1

def put (fs : Fs) (path : Path) (node : Node) : Fs := Function.update fs path (some node)

/-- Create a directory, unless there is one. -/
def createDir (fs : Fs) (path : Path) : Option Fs :=
  match fs path with
  | none => if fs.hasParent path then some (fs.put path .dir) else none
  | some .dir => some fs
  | some _ => none

/-- Open a file to write it from its start. Links are followed. -/
def create (fs : Fs) (path : Path) : Option Fs := do
  let file ← fs.follow path
  match fs file with
  | none => if fs.hasParent file then some (fs.put file (.file [])) else none
  | some (.file _) | some (.filling _ _) => some (fs.put file (.file []))
  | some _ => none

/-- Write at the end of an open file. Where it has lost its name, nobody sees it. -/
def append (fs : Fs) (path : Path) (text : Text) : Fs :=
  match fs.follow path with
  | none => fs
  | some file =>
    match fs file with
    | some (.file content) => fs.put file (.file (content ++ text))
    | _ => fs

/-- Write at the end of an open file, some of it later. -/
def write (fs : Fs) (path : Path) (landed coming : Text) : Fs :=
  match fs.follow path with
  | none => fs
  | some file =>
    match fs file with
    | some (.file content) => fs.put file (.filled (content ++ landed) coming)
    | _ => fs

/-- Something is on its way to a file. -/
def fills (fs : Fs) (path : Path) : Bool :=
  match (fs.follow path).bind fs with
  | some (.filling _ _) => true
  | _ => false

/-- Some of what is on its way to a file gets there; the end of it may be lost. -/
def Arrives (before after : Fs) : Prop :=
  ∃ path content coming landed rest, before path = some (.filling content coming) ∧ landed ++ rest <+: coming ∧
    after = before.put path (.filled (content ++ landed) rest)

def readToString (fs : Fs) (path : Path) : Option Text := do
  let file ← fs.follow path
  match ← fs file with
  | .file content | .filling content _ => some content
  | _ => none

/-- The name must be free; a dangling link takes it as well. -/
def symlink (fs : Fs) (target : Target) (path : Path) : Option Fs :=
  if fs path = none ∧ fs.hasParent path then some (fs.put path (.link target)) else none

/-- The node at one path and all below it, moved to another. -/
def move (fs : Fs) (source target : Path) : Fs := fun path =>
  if target <+: path then fs (source ++ path.drop target.length) else
  if source <+: path then none else fs path

def names (fs : Fs) (path : Path) (listed : List Text) : Prop :=
  listed.Nodup ∧ ∀ name, name ∈ listed ↔ fs (path ++ [name]) ≠ none

/-- A file or link may replace another, a directory an empty one. -/
def rename (fs : Fs) (source target : Path) (after : Fs) : Prop :=
  if source = target then fs source ≠ none ∧ after = fs else
  after = fs.move source target ∧ fs.hasParent target ∧ ¬ source <+: target ∧
    match fs source, fs target with
    | none, _ => False
    | some .dir, none => True
    | some .dir, some .dir => fs.names target []
    | some .dir, some _ => False
    | some _, some .dir => False
    | some _, _ => True

/-- `remove_file`, and for a directory `remove_dir`. -/
def remove (fs : Fs) (path : Path) (after : Fs) : Prop :=
  fs path ≠ none ∧ (fs path = some .dir → fs.names path []) ∧ after = Function.update fs path none

/-- All that is to be removed below a directory, each directory after its entries. -/
def tree (fs : Fs) (path : Path) (below : List Path) : Prop :=
  fs path ≠ none ∧ (∀ rest, rest ∈ below ↔ fs (path ++ rest) ≠ none) ∧
    below.Pairwise fun first later => ¬ first <+: later

/-- What unpacking makes of one entry. -/
def unpack (fs : Fs) (path : Path) (entry : Entry) : Fs := fs.put (path ++ entry.name :: entry.below) entry.node

end Fs
end Pos2.Loader
