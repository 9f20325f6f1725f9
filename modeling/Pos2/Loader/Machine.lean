import Pos2.Calls.Fallible
import Pos2.Loader.Fs

/-! The machine the loader runs on: the disk, the registry and one child
process. Everything on it may fail. -/

namespace Pos2.Loader
open Calls

/-- An image reference; the digest is set on those taken from an index. -/
structure Reference where
  name : Text
  digest : Option Text
  deriving DecidableEq

/-- `OciImageManifest`, by its digests. -/
structure ImageManifest where
  config : Text
  layers : List Text
  deriving DecidableEq

/-- `OciManifest`. An index comes with the digest that `current_platform_resolver`
picks from it. -/
inductive Manifest where
  | image (manifest : ImageManifest)
  | index (resolved : Option Text)

/-- What the loader leaves to other crates: parsing references, reading and
writing manifests and the entries of a layer, with the error they end in. -/
structure Formats where
  parseReference : Text → Except String Reference
  toJson : ImageManifest → Text
  readImage : Text → Except String ImageManifest
  readManifest : Text → Except String Manifest
  entries : Text → List Entry × Except String Unit

/-- An app process: `DOCKERLOADER_TRIAL` in its environment, what the link that
it was spawned through named, and `current_exe`. -/
structure Process where
  trial : Bool
  program : Path
  exe : Path
  deriving DecidableEq

/-- The child of the supervisor; an exited one waits to be reaped. -/
inductive Child where
  | none
  | running (process : Process)
  | exited (code : Option Int)
  deriving DecidableEq

structure Machine where
  fs : Fs
  child : Child

inductive Request where
  | exists_ (path : Path)
  | createDir (path : Path)
  | create (path : Path)
  | write (path : Path) (text : Text)
  | writeAll (path : Path) (text : Text)
  | readToString (path : Path)
  | readDir (path : Path)
  | isDir (path : Path)
  | symlink (target : Target) (path : Path)
  | rename (source target : Path)
  | removeFile (path : Path)
  | tree (path : Path)
  | remove (path : Path)
  | unpack (path : Path) (entry : Entry)
  | uuid
  | var (name : String)
  | pullManifest (reference : Reference)
  | pullBlob (reference : Reference) (digest : Text)
  | pullBlobStream (reference : Reference) (digest : Text)
  | spawn (path : Path) (trial : Bool)
  | wait
  | waitTimeout
  | kill
  | exit (code : Int)

abbrev Request.Value : Request → Type
  | .exists_ _ | .isDir _ => Bool
  | .createDir _ | .create _ | .writeAll _ _ | .symlink _ _ | .rename _ _ | .removeFile _ | .remove _
  | .unpack _ _ | .spawn _ _ | .kill => Unit
  | .write _ _ => Nat
  | .readToString _ | .uuid | .var _ | .pullBlob _ _ => Text
  | .readDir _ => List Text
  | .tree _ => List Path
  | .pullManifest _ => Manifest × Text
  | .pullBlobStream _ _ => List (Except String Text)
  | .wait => Option Int
  | .waitTimeout => Option (Option Int)
  | .exit _ => Empty

abbrev LoaderCalls : Interface := .fallible Request Request.Value

abbrev Loads (α : Type) := Fallible LoaderCalls α

def ask (request : Request) : Loads request.Value := Fallible.ask request

/-- What a call does to the disk when it succeeds. -/
def Request.OnDisk : (request : Request) → Fs → request.Value → Fs → Prop
  | .exists_ path, before, value, after => value = before.exists_ path ∧ after = before
  | .createDir path, before, _, after => before.createDir path = some after
  | .create path, before, _, after => before.create path = some after
  -- A write waits for the one before. The count is of what was taken; how much of that is in the file by now is open.
  | .write path text, before, value, after =>
    before.fills path = false ∧ value ≤ text.length ∧ (text ≠ [] → 0 < value) ∧
      ∃ landed coming, landed ++ coming = text.take value ∧ after = before.write path landed coming
  | .writeAll path text, before, _, after => after = before.append path text
  | .readToString path, before, value, after => before.readToString path = some value ∧ after = before
  | .readDir path, before, value, after =>
    (∃ dir, before.follow path = some dir ∧ before dir = some .dir ∧ before.names dir value) ∧ after = before
  | .isDir path, before, value, after =>
    before path ≠ none ∧ value = (before path = some .dir : Bool) ∧ after = before
  | .symlink target path, before, _, after => before.symlink target path = some after
  | .rename source target, before, _, after => before.rename source target after
  | .removeFile path, before, _, after => before path ≠ some .dir ∧ before.remove path after
  | .tree path, before, value, after => before.tree path value ∧ after = before
  | .remove path, before, _, after => before.remove path after
  | .unpack path entry, before, _, after => after = before.unpack path entry
  | _, before, _, after => after = before

/-- What a call does to the child when it succeeds. -/
def Request.OnChild : (request : Request) → Machine → request.Value → Child → Prop
  | .spawn path trial, before, _, after => ∃ exe content,
    before.fs.follow path = some exe ∧ before.fs exe = some (.file content) ∧
      after = .running ⟨trial, match before.fs path with | some (.link target) => target.from path | _ => path, exe⟩
  | .wait, before, code, after => before.child = .exited code ∧ after = .none
  | .waitTimeout, before, some code, after => before.child = .exited code ∧ after = .none
  | .kill, _, _, after => after = .none
  | _, before, _, after => after = before.child

/-- A call that fails does nothing, but writing may have begun. An exit never
returns. -/
def Request.Fails : Request → Fs → Fs → Prop
  | .exit _, _, _ => False
  | .writeAll path text, before, after => ∃ written, written <+: text ∧ after = before.append path written
  | _, before, after => after = before

def serves : Handler LoaderCalls Machine := fun request before reply after =>
  match reply with
  | .ok value => request.OnDisk before.fs value after.fs ∧ request.OnChild before value after.child
  | .error _ => request.Fails before.fs after.fs ∧ after.child = before.child

end Pos2.Loader
