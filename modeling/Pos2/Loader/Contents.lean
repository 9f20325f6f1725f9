import Pos2.Calls.Alone
import Pos2.Loader.Downloads

/-! What the digests of a registry stand for, what an extracted image holds when it
is whole, and a machine on which writes and deletes fail only where they must. -/

namespace Pos2.Loader
open Calls

/-- What the digests of a registry stand for. -/
structure Contents where
  image : Text → ImageManifest
  blob : Text → Text

def emptyDir : Fs := fun path => if path = [] then some .dir else none

/-- A layer, unpacked over what is there already. -/
def unpackedLayer (formats : Formats) (contents : Contents) (tree : Fs) (layer : Text) : Fs :=
  (formats.entries (contents.blob layer)).1.foldl (fun tree entry => tree.unpack [] entry) tree

/-- The full unpacking of all layers of an image. -/
def unpacked (formats : Formats) (contents : Contents) (sha : Text) : Fs :=
  (contents.image sha).layers.foldl (unpackedLayer formats contents) emptyDir

/-- Layers go by digests, and a manifest that was written is read back. -/
structure Contents.Proper (formats : Formats) (contents : Contents) : Prop where
  digests : ∀ sha, ∀ layer ∈ (contents.image sha).layers, Digest layer
  reads : ∀ sha, formats.readImage (formats.toJson (contents.image sha)) = .ok (contents.image sha)

/-- Writes and deletes. -/
def Request.alters : Request → Bool
  | .createDir _ | .create _ | .write _ _ | .writeAll _ _ | .symlink _ _ | .rename _ _ | .removeFile _
  | .tree _ | .remove _ | .unpack _ _ => true
  | _ => false

/-- Digests stand for their contents, streams are whole, writes take the whole of
their chunks, and a uuid is new where an image is extracted. -/
def Contents.Answers (formats : Formats) (contents : Contents) :
    (request : Request) → Fs → Except String request.Value → Prop
  | .pullManifest _, _, .ok (.image manifest, sha) => Digest sha ∧ manifest = contents.image sha
  | .pullBlob _ digest, _, .ok bytes => ∀ manifest, formats.readManifest bytes = .ok (.image manifest) →
    Digest digest ∧ manifest = contents.image digest
  | .pullBlobStream _ digest, _, .ok stream =>
    ∀ chunks : List Text, stream = chunks.map .ok → chunks.flatten = contents.blob digest
  | .write _ text, _, .ok written => written = text.length
  | .uuid, fs, .ok uuid => ∀ rest, fs (extractedDir ++ tmpName uuid :: rest) = none
  | _, _, _ => True

/-- Some calls fail only where they cannot succeed. -/
def careful (formats : Formats) (contents : Contents) (sure : Request → Prop) : Handler LoaderCalls Machine :=
  fun request before reply after => serves request (before.arrived request) reply after ∧
    contents.Answers formats request before.fs reply ∧
    (sure request → ∀ error, reply = .error error → ∀ value later, ¬ serves request (before.arrived request) (.ok value) later)

/-- What a call may change, links not being followed. -/
def Request.Reaches : Request → Path → Prop
  | .createDir made, path | .create made, path | .write made _, path | .writeAll made _, path | .symlink _ made, path
  | .removeFile made, path | .remove made, path => path = made
  | .rename source target, path => source <+: path ∨ target <+: path
  | .unpack dir entry, path => path = dir ++ entry.name :: entry.below
  | _, _ => False

/-- The file that a call writes to is no link. -/
def Request.Plain : Request → Fs → Prop
  | .create path, fs | .write path _, fs | .writeAll path _, fs => ∀ target, fs path ≠ some (.link target)
  | _, _ => True

section
variable {request : Request} {before after : Machine} {reply : Except String request.Value} {path : Path}

theorem serves_elsewhere (plain : request.Plain before.fs) (served : serves request before reply after)
    (apart : ¬ request.Reaches path) : after.fs path = before.fs path := by
  cases reply with
  | error error =>
    have failed := served.1
    cases request with
    | writeAll made text =>
      obtain ⟨written, _, disk⟩ := failed
      rw [disk]
      exact Fs.append_other plain _ apart
    | exit code => exact failed.elim
    | _ => rw [show after.fs = before.fs from failed]
  | ok value =>
    have disk := served.1
    cases request with
    | exists_ | readToString | readDir | tree => rw [disk.2]
    | isDir => rw [disk.2.2]
    | createDir made => exact Fs.createDir_other disk apart
    | create made =>
      rw [Fs.create_plain plain disk]
      exact Fs.put_other _ _ apart
    | write made text =>
      obtain ⟨_, _, _, landed, coming, _, disk⟩ := disk
      rw [disk]
      exact Fs.write_other plain landed coming apart
    | writeAll made text =>
      rw [show after.fs = _ from disk]
      exact Fs.append_other plain _ apart
    | symlink target made =>
      have disk : before.fs.symlink target made = some after.fs := disk
      unfold Fs.symlink at disk
      split at disk
      · rw [← Option.some.inj disk]
        exact Fs.put_other _ _ apart
      · cases disk
    | rename source target => exact Fs.rename_other disk (fun below => apart (.inl below)) fun below => apart (.inr below)
    | removeFile made => exact Fs.remove_other disk.2 apart
    | remove made => exact Fs.remove_other disk apart
    | unpack dir entry =>
      rw [show after.fs = _ from disk]
      exact Fs.put_other _ _ apart
    | _ => rw [show after.fs = before.fs from disk]

theorem Machine.arrived_lands (machine : Machine) (request : Request) : machine.fs.Lands (machine.arrived request).fs := by
  cases request with
  | write path text => exact Fs.landed_lands _ _
  | rename source target => exact Fs.landed_lands _ _
  | _ => exact .refl machine.fs

theorem Machine.arrived_child (machine : Machine) (request : Request) : (machine.arrived request).child = machine.child := by
  cases request <;> rfl

theorem Machine.arrived_other (machine : Machine) (apart : ¬ request.Reaches path) :
    (machine.arrived request).fs path = machine.fs path := by
  cases request with
  | write made text => exact Fs.landed_other _ apart
  | rename source target =>
    refine Fs.landed_other _ ?_
    rintro rfl
    exact apart (.inl List.prefix_rfl)
  | _ => rfl

theorem Stores.plain (stores : Stores request) {fs : Fs} (linked : Linked fs) : request.Plain fs := by
  cases stores with
  | read reads =>
    cases request with
    | create | write | writeAll => cases reads
    | _ => trivial
  | create name flat | write name text flat | writeAll name text flat => exact flat_plain linked flat name
  | _ => trivial

end

end Pos2.Loader
