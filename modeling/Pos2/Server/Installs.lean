import Mathlib.Logic.Function.Basic
import Pos2.Edits
import Pos2.Server.Names

/-! `install_app` and `update_app` of `server/src/main.rs`, with any number of them at
work at a time. The wasm files lie in one directory, under the checksum of the
manifest, and `user_apps` has a row for every app of a user. -/

namespace Pos2.Server

abbrev Blob := List UInt8

/-- What `pull_manifest_and_config` finds at a reference. -/
structure WasmImage where
  checksum : Text
  layerDigests : Nat
  layers : List Blob

/-- The image that the `oci_reference` of an app's version leads to. -/
abbrev Registry := Text → Text → Option WasmImage

structure UserAppModel where
  userId : Int
  name : Text
  version : Text
  path : Text
  deriving DecidableEq

inductive Operation where
  | installApp
  | updateApp

structure Job where
  operation : Operation
  userId : Int
  name : Text
  version : Text

/-- How far a call of `install_app` or `update_app` has come. -/
inductive Stage where
  | started
  | pulled (image : WasmImage)
  | opening (wasmPath : Text) (layer : Blob)
  | downloading (wasmPath : Text) (layer : Blob) (written : Nat)
  | downloaded (wasmPath : Text)
  | recording (wasmPath : Text)
  | done
  | failed

/-- The file that a call has created and not recorded. -/
def Stage.file : Stage → Option Text
  | .downloading path _ _ | .downloaded path | .recording path => some path
  | _ => none

/-- What the `tokio::fs::File` of a call has accepted and not yet put into the
file. It takes one chunk at a time and writes it behind the caller's back. -/
inductive Behind where
  | settled
  | coming (path : Text) (offset : Nat) (bytes : Blob)
  | lost

/-- The file that the bytes are for. -/
def Behind.file : Behind → Option Text
  | .coming path _ _ => some path
  | _ => none

structure Installs (ι : Type) where
  files : Text → Option Blob
  rows : List UserAppModel
  tasks : ι → Option (Job × Stage)
  behind : ι → Behind

def wasmPath (checksum : Text) : Text := "./data/apps/".toList ++ checksum ++ ".wasm".toList

/-- There is one row for a user and a name. -/
def insertUserApp (app : UserAppModel) (rows : List UserAppModel) : Option (List UserAppModel) :=
  if rows.any fun row => row.userId = app.userId ∧ row.name = app.name then none else some (rows ++ [app])

def updateUserApp (app : UserAppModel) (rows : List UserAppModel) : List UserAppModel :=
  rows.map fun row =>
    if row.userId = app.userId ∧ row.name = app.name then { row with version := app.version, path := app.path } else row

def Job.record (job : Job) (path : Text) (rows : List UserAppModel) : Option (List UserAppModel) :=
  let app : UserAppModel := ⟨job.userId, job.name, job.version, path⟩
  match job.operation with
  | .installApp => insertUserApp app rows
  | .updateApp => some (updateUserApp app rows)

inductive InstallEvent (ι : Type) where
  | starts (i : ι)
  | pulls (i : ι)
  | checks (i : ι)
  | creates (i : ι)
  | writes (i : ι) (n : Nat)
  | lands (i : ι) (n : Nat)
  | settles (i : ι)
  | loses (i : ι)
  | ends (i : ι)
  | prepares (i : ι)
  | records (i : ι)
  | fails (i : ι)

def InstallEvent.task {ι : Type} : InstallEvent ι → ι
  | .starts i | .pulls i | .checks i | .creates i | .writes i _ | .lands i _ | .settles i | .loses i | .ends i
  | .prepares i | .records i | .fails i => i

namespace Installs
variable {ι : Type} [DecidableEq ι]

def initial (files : Text → Option Blob) : Installs ι := ⟨files, [], fun _ => none, fun _ => .settled⟩

def put (state : Installs ι) (i : ι) (job : Job) (stage : Stage) : Installs ι :=
  { state with tasks := Function.update state.tasks i (some (job, stage)) }

def setFile (state : Installs ι) (path : Text) (file : Option Blob) : Installs ι :=
  { state with files := Function.update state.files path file }

def setBehind (state : Installs ι) (i : ι) (behind : Behind) : Installs ι :=
  { state with behind := Function.update state.behind i behind }

variable (registry : Registry)

inductive Step : InstallEvent ι → Installs ι → Installs ι → Prop where
  | starts {state i job} (free : state.tasks i = none) : Step (.starts i) state (state.put i job .started)
  | pulls {state i job image} (here : state.tasks i = some (job, .started))
      (found : registry job.name job.version = some image) : Step (.pulls i) state (state.put i job (.pulled image))
  -- One layer, and the directory for it.
  | checks {state i job image layer} (here : state.tasks i = some (job, .pulled image))
      (digests : image.layerDigests = 1) (layers : image.layers = [layer]) :
      Step (.checks i) state (state.put i job (.opening (wasmPath image.checksum) layer))
  -- `File::create` empties a file that is there.
  | creates {state i job path layer} (here : state.tasks i = some (job, .opening path layer)) :
      Step (.creates i) state ((state.setFile path (some [])).put i job (.downloading path layer 0))
  -- A write waits for the one before, and fails where that one has failed.
  | writes {state i job path layer written n} (here : state.tasks i = some (job, .downloading path layer written))
      (settled : state.behind i = .settled) (some_ : 0 < n) (left : written + n ≤ layer.length) :
      Step (.writes i n) state
        ((state.setBehind i (.coming path written ((layer.drop written).take n))).put i job
          (.downloading path layer (written + n)))
  | lands {state i path offset bytes n} (here : state.behind i = .coming path offset bytes) (some_ : 0 < n)
      (part : n ≤ bytes.length) :
      Step (.lands i n) state
        ((state.setFile path ((state.files path).map ((Edits.Edit.write offset (bytes.take n)).apply 0))).setBehind i
          (.coming path (offset + n) (bytes.drop n)))
  | settles {state i path offset} (here : state.behind i = .coming path offset []) :
      Step (.settles i) state (state.setBehind i .settled)
  | loses {state i path offset bytes} (here : state.behind i = .coming path offset bytes) :
      Step (.loses i) state (state.setBehind i .lost)
  -- The last write is not waited for: `pull_blob` does not flush, nor does `download_app`.
  | ends {state i job path layer} (here : state.tasks i = some (job, .downloading path layer layer.length)) :
      Step (.ends i) state (state.put i job (.downloaded path))
  -- The directory of the database, which `update_app` does not make.
  | prepares {state i job path} (here : state.tasks i = some (job, .downloaded path))
      (named : job.operation = .installApp → ∃ dir, dbPath job.userId job.name = .ok dir) :
      Step (.prepares i) state (state.put i job (.recording path))
  | records {state i job path rows} (here : state.tasks i = some (job, .recording path))
      (stored : job.record path state.rows = some rows) :
      Step (.records i) state ({ state with rows := rows }.put i job .done)
  -- An error at any step, or the future of the call is dropped; its last write goes on.
  | fails {state i job stage} (here : state.tasks i = some (job, stage)) (unfinished : stage ≠ .done) :
      Step (.fails i) state (state.put i job .failed)

abbrev Rules (ι : Type) := Installs ι → InstallEvent ι → Prop

def anything : Rules ι := fun _ _ => True

/-- The call has created the file and is still to record it, or still writes to it. -/
def Holds (state : Installs ι) (i : ι) (path : Text) : Prop :=
  (∃ job stage, state.tasks i = some (job, stage) ∧ stage.file = some path) ∨ (state.behind i).file = some path

/-- No row names the file, and no other call holds it. -/
def Free (state : Installs ι) (i : ι) (path : Text) : Prop :=
  (∀ row ∈ state.rows, row.path ≠ path) ∧ ∀ j, state.Holds j path → j = i

/-- A wasm file is created only where it is free, and a row is stored only once all
that was written is in the file. -/
def unshared : Rules ι
  | state, .creates i => ∀ job path layer, state.tasks i = some (job, .opening path layer) → state.Free i path
  | state, .records i => state.behind i = .settled
  | _, _ => True

inductive Run (rules : Rules ι) (state : Installs ι) : List (InstallEvent ι) → Installs ι → Prop where
  | start : Run rules state [] state
  | step {events before event after} (run : Run rules state events before) (allowed : rules before event)
      (step : Step registry event before after) : Run rules state (events ++ [event]) after

/-- Every row names a file with the whole layer of its version. -/
def Intact (state : Installs ι) : Prop :=
  ∀ row ∈ state.rows, ∃ image layer, registry row.name row.version = some image ∧ image.layers = [layer] ∧
    state.files row.path = some layer

def Failed (state : Installs ι) (i : ι) : Prop := ∃ job, state.tasks i = some (job, .failed)

/-- The rows and the files that they name are as they were. -/
def Kept (before after : Installs ι) : Prop :=
  after.rows = before.rows ∧ ∀ row ∈ before.rows, after.files row.path = before.files row.path

end Installs
end Pos2.Server
