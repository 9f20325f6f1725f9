import Mathlib.Logic.Function.Basic
import Pos2.Calls.Method
import Pos2.Links
import Pos2.Loader.Update

/-! `dockerloader-bundler`: the libraries that `ldd` reports for a binary, with the links
that lead to them, put side by side in the `lib` directory of an image. -/

namespace Pos2.Bundler
open Calls Links

abbrev Component := Links.Component Text
abbrev Target := Links.Target Text

/-- An absolute path. Two are equal when their components are. -/
abbrev PathBuf := List Component

/-- `Path::file_name` -/
def fileName (path : PathBuf) : Option Text :=
  match path.getLast? with
  | some (.normal name) => some name
  | _ => none

/-- `Path::components` -/
def components (text : Text) : List Component :=
  ((text.splitOn '/').filter fun part => part ≠ [] ∧ part ≠ ".".toList).map fun part =>
    if part = "..".toList then .parentDir else .normal part

inductive BundleError where
  | ldd
  | metadata (path : PathBuf)
  | symlink (name : Text)
  | copy (path : PathBuf)
  | patchelf
  deriving DecidableEq

section
variable {α : Type} (fs : Tree Text α) (links : Nat)

/-- `collect_file_and_symlink_chain` for so many turns, `none` when it goes on after them.
In one path the kernel follows so many links at most. -/
def collectFileAndSymlinkChain : Nat → PathBuf → List PathBuf → Option (Outcome BundleError (List PathBuf))
  | 0, _, _ => none
  | turns + 1, path, deps =>
    if path ∈ deps then some (.ok deps)
    else
      let deps := deps ++ [path]
      match fs.lstat links path with
      | none => some (.err (.metadata path))
      | some (.link target) => collectFileAndSymlinkChain turns (target.from path) deps
      | some _ => some (.ok deps)

/-- What follows the first such text. -/
def after (pattern : Text) : Text → Option Text
  | [] => none
  | c :: rest => ((c :: rest).dropPrefix? pattern).or (after pattern rest)

/-- The first of `split_whitespace`. -/
def firstWord (text : Text) : Option Text :=
  let word := (text.dropWhile Loader.isWhitespace).takeWhile fun c => !Loader.isWhitespace c
  if word = [] then none else some word

/-- The absolute path on a line of `ldd`. -/
def reportedPath (line : Text) : Option PathBuf :=
  let line := Loader.trim line
  let pathStr :=
    match after " => ".toList line with
    | some rest => firstWord rest
    | none => if line.head? = some '/' then firstWord line else none
  match pathStr with
  | some pathStr => if pathStr.head? = some '/' then some (components pathStr) else none
  | none => none

/-- The loop of `get_dependencies`. -/
def collectAll (turns : Nat) : List PathBuf → List PathBuf → Option (Outcome BundleError (List PathBuf))
  | [], deps => some (.ok deps)
  | path :: rest, deps =>
    match collectFileAndSymlinkChain fs links turns path deps with
    | some (.ok deps) => collectAll turns rest deps
    | failed => failed

/-- `get_dependencies`; `ldd` fails, or writes its lines. -/
def getDependencies (turns : Nat) (ldd : Option Text) : Option (Outcome BundleError (List PathBuf)) :=
  match ldd with
  | none => some (.err .ldd)
  | some stdout => collectAll fs links turns ((stdout.splitOn '\n').filterMap reportedPath) []

/-- The output directory, new before the bundler runs. -/
structure Output (α : Type) where
  entrypoint : α
  lib : Text → Option (Node Text α)

/-- It holds the binary when the copy loop begins. -/
def Output.new (binary : α) : Output α := ⟨binary, fun _ => none⟩

def Output.put (output : Output α) (name : Text) (node : Node Text α) : Output α :=
  { output with lib := Function.update output.lib name (some node) }

def origin : Text := "$ORIGIN".toList

/-- `patchelf --set-rpath`, which may fail. -/
abbrev Patchelf (α : Type) := Text → α → Option α

variable (patchelf : Patchelf α)

/-- One dependency, under a name that is new. -/
def copyDep (output : Output α) (dep : PathBuf) (filename : Text) : Outcome BundleError (Output α) :=
  match fs.lstat links dep with
  | none => .err (.metadata dep)
  | some (.link target) => if (output.lib filename).isSome then .err (.symlink filename) else .ok (output.put filename (.link target))
  | some (.file content) =>
    match patchelf origin content with
    | some patched => .ok (output.put filename (.file patched))
    | none => .err .patchelf
  | some .dir => .err (.copy dep)

/-- The copy loop of `main`, over the dependencies in the order of their set. -/
def copyAll : List PathBuf → List Text → Output α → Outcome BundleError (Output α)
  | [], _, output => .ok output
  | dep :: rest, copiedFilenames, output =>
    match fileName dep with
    | none => .panic
    | some filename =>
      if filename ∈ copiedFilenames then copyAll rest copiedFilenames output
      else (copyDep fs links patchelf output dep filename).bind (copyAll rest (filename :: copiedFilenames))

/-- `main` to the end of its loop, for some order in which the set is iterated. -/
def bundle (turns : Nat) (ldd : Option Text) (binary : α) (iterate : List PathBuf → List PathBuf) :
    Option (Outcome BundleError (Output α)) :=
  (getDependencies fs links turns ldd).map fun collected =>
    collected.bind fun deps => copyAll fs links patchelf (iterate deps) [] (.new binary)

end

/-! ### The output directory as a tree -/

namespace Output
variable {α : Type} (output : Output α)

def entrypointName : Text := "entrypoint".toList
def libName : Text := "lib".toList

def node : List Text → Option (Node Text α)
  | [] => some .dir
  | [name] =>
    if name = libName then some .dir
    else if name = entrypointName then some (.file output.entrypoint) else none
  | [dir, name] => if dir = libName then output.lib name else none
  | _ => none

/-- An absolute link, or one that climbs too far, leaves it. -/
def tree : Tree Text α where
  node := output.node
  root := rfl
  parent := by
    intro place name present
    match place with
    | [] => rfl
    | [dir] =>
      rw [List.singleton_append, node] at present
      rw [node]
      split at present
      next same => rw [if_pos same]
      next => exact (present rfl).elim
    | _ :: _ :: rest => cases rest <;> exact (present rfl).elim
  whole := false

end Output
end Pos2.Bundler
