import Pos2.Loader.Contents

/-! Calls of `download_image`, `extract_image` and `cleanup_storage`, one after the
other. Each may be cut off between any two of the calls it makes. -/

namespace Pos2.Loader
open Calls

inductive StorageCall where
  | download (reference : Reference)
  | extract (sha : Text) (digest : Digest sha)
  | cleanup (keepShas : List Text)

/-- The directory that `extract_image` returns. -/
def StorageCall.program (formats : Formats) : StorageCall → Loads (Option Path)
  | .download reference => do
    let _ ← downloadImage formats reference
    pure none
  | .extract sha _ => do
    let path ← extractImage formats sha
    pure (some path)
  | .cleanup keepShas => do
    cleanupStorage formats keepShas
    pure none

/-- The call that was made last, and what is left of it. -/
structure Storage where
  machine : Machine
  call : StorageCall
  task : Loads (Option Path)

def Storage.initial (disk : Fs) : Storage := ⟨⟨disk, .none⟩, .cleanup [], Program.done (.ok none)⟩

inductive StorageEvent where
  | starts (call : StorageCall)
  | asks (request : Request) (reply : Except String request.Value)
  | killed

inductive StorageStep (formats : Formats) (contents : Contents) : Storage → StorageEvent → Storage → Prop where
  | starts {machine : Machine} {call : StorageCall} {result : Except String (Option Path)} (next : StorageCall) :
      StorageStep formats contents ⟨machine, call, Program.done result⟩ (.starts next)
        ⟨machine, next, next.program formats⟩
  | asks {machine after : Machine} {call : StorageCall} {request : Request}
      {next : Except String request.Value → Loads (Option Path)} (reply : Except String request.Value)
      (served : careful formats contents (fun request => request.alters = true) request machine reply after) :
      StorageStep formats contents ⟨machine, call, Program.call request next⟩ (.asks request reply)
        ⟨after, call, next reply⟩
  | killed {machine : Machine} {call : StorageCall} {task : Loads (Option Path)} :
      StorageStep formats contents ⟨machine, call, task⟩ .killed ⟨machine, call, Program.done (.error "killed")⟩

/-- Something is removed from an extracted image, or, at last, the image itself. -/
def tear (torn : List Text) (path : Path) : List Text :=
  match path.dropPrefix? extractedDir with
  | some [sha] => torn.filter (· ≠ sha)
  | some (sha :: _ :: _) => sha :: torn
  | _ => torn

/-- The extracted images of which something has been removed, but not all. -/
def tears (torn : List Text) : StorageEvent → List Text
  | .asks (.remove path) (.ok _) => tear torn path
  | _ => torn

/-- A run that remembers which images are torn. -/
inductive StorageRun (formats : Formats) (contents : Contents)
    (allowed : List Text → Storage → StorageEvent → Prop) (start : Storage) : List Text → Storage → Prop where
  | start : StorageRun formats contents allowed start [] start
  | step {torn : List Text} {before after : Storage} {event : StorageEvent}
      (run : StorageRun formats contents allowed start torn before) (permitted : allowed torn before event)
      (step : StorageStep formats contents before event after) :
      StorageRun formats contents allowed start (tears torn event) after

/-- Cleaning up learns of every image that is there. -/
def Consulted : (request : Request) → Fs → Except String request.Value → Prop
  | .readDir path, fs, .error _ => path = imagesDir → ∀ name, fs (imagesDir ++ [name]) = none
  | .readToString path, fs, .error _ => imagesDir <+: path → fs path = none
  | _, _, _ => True

/-- No torn image is extracted, and while cleaning up the images can be listed and
their manifests be read. -/
structure Tended (torn : List Text) (before : Storage) (event : StorageEvent) : Prop where
  extracts : ∀ sha digest, event = .starts (.extract sha digest) → sha ∉ torn
  consults : ∀ request reply keepShas, event = .asks request reply → before.call = .cleanup keepShas →
    Consulted request before.machine.fs reply

section
variable (formats : Formats) (contents : Contents)

/-- An image is stored: its whole manifest, and every layer that it lists. -/
def Imaged (fs : Fs) (sha : Text) : Prop :=
  fs (imagesDir ++ [sha]) = some (.file (formats.toJson (contents.image sha))) ∧
    ∀ layer ∈ (contents.image sha).layers, fs (blobsDir ++ [layer]) = some (.file (contents.blob layer))

/-- A directory holds the full unpacking of an image, and nothing else. -/
def Extracted (fs : Fs) (sha : Text) (path : Path) : Prop :=
  ∀ rest, fs (path ++ rest) = unpacked formats contents sha rest

/-- What is found under a final name is complete. -/
structure Storage.Consistent (storage : Storage) : Prop where
  images : ∀ sha, Digest sha → storage.machine.fs (imagesDir ++ [sha]) ≠ none → Imaged formats contents storage.machine.fs sha
  extracted : ∀ sha digest path, storage.call = .extract sha digest → storage.task = Program.done (.ok (some path)) →
    Extracted formats contents storage.machine.fs sha path

end
end Pos2.Loader
