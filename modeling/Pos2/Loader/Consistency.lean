import Pos2.Loader.Answers
import Pos2.Loader.Tidying

/-! Crash-consistent storage: whatever is cut off, and whatever is called next, what
is found under a final name is complete. One thing is not: `extract_image` takes a
directory that is half removed for an image. -/

namespace Pos2.Loader
open Calls

/-- Cleaning up goes by the images that are there. -/
def StorageCall.Heeds : StorageCall → Heeds
  | .cleanup _, request, depot, reply => Consulted request depot.fs reply
  | _, _, _, _ => True

section
variable (formats : Formats) (contents : Contents)

/-- What a call leaves when it returns. -/
def StorageCall.Returns (call : StorageCall) (result : Option Path) (after : Depot) : Prop :=
  ∀ sha digest path, call = .extract sha digest → result = some path → Extracted formats contents after.fs sha path

/-- The rest of a call keeps the storage complete. -/
def StorageCall.Keeps (call : StorageCall) (task : Loads (Option Path)) (state : Depot) : Prop :=
  task.Alone (tending formats contents call.Heeds) (fun _ after => Stocked formats contents True after.torn after.fs)
    (fun after => Stocked formats contents True after.torn after.fs)
    (fun result after => Stocked formats contents True after.torn after.fs ∧ call.Returns formats contents result after) state

/-- Between any two calls. -/
structure Storage.Holds (torn : List Text) (storage : Storage) : Prop where
  stocked : Stocked formats contents True torn storage.machine.fs
  keeps : storage.call.Keeps formats contents storage.task ⟨storage.machine, torn⟩

end

section
variable {formats : Formats} {contents : Contents} {torn : List Text} {before after : Storage} {event : StorageEvent}

theorem StorageCall.keeps (proper : contents.Proper formats) {state : Depot}
    (stocked : Stocked formats contents True state.torn state.fs) (call : StorageCall)
    (whole : ∀ sha digest, call = .extract sha digest → sha ∉ state.torn) :
    call.Keeps formats contents (call.program formats) state := by
  cases call with
  | download reference =>
    have along : Tends formats contents True (StorageCall.download reference).Heeds (fun _ => False)
        (fun result after => (StorageCall.download reference).Returns formats contents result after)
        ((StorageCall.download reference).program formats) state := by
      apply (downloadImage_tends proper stocked reference).bind
      intro _ after goes _
      exact .pure goes.stocked fun _ _ _ => nofun
    exact along.keeps (fun _ _ _ goes => ⟨goes.stocked, goes.stocked⟩) stocked
  | extract sha digest =>
    have along : Tends formats contents True (StorageCall.extract sha digest).Heeds (fun _ => False)
        (fun result after => (StorageCall.extract sha digest).Returns formats contents result after)
        ((StorageCall.extract sha digest).program formats) state := by
      apply (extractImage_tends proper stocked digest (whole sha digest rfl)).bind
      intro path after goes ⟨_, extracted⟩
      refine .pure goes.stocked fun other _ found same here => ?_
      cases same
      cases here
      exact extracted
    exact along.keeps (fun _ _ _ goes => ⟨goes.stocked, goes.stocked⟩) stocked
  | cleanup keepShas =>
    have along : Tidies formats contents True (StorageCall.cleanup keepShas).Heeds keepShas
        (fun result after => (StorageCall.cleanup keepShas).Returns formats contents result after)
        ((StorageCall.cleanup keepShas).program formats) state := by
      apply (cleanupStorage_tidies proper (fun _ _ _ _ consulted => consulted) stocked).bind
      intro _ after sheds _
      exact .pure sheds.stocked fun _ _ _ => nofun
    exact along.keeps (fun _ _ _ sheds => ⟨sheds.stocked, sheds.stocked⟩) stocked

theorem Storage.Holds.step (proper : contents.Proper formats) (holds : before.Holds formats contents torn)
    (step : StorageStep formats contents before event after) (tended : Tended torn before event) :
    after.Holds formats contents (tears torn event) := by
  cases step with
  | @starts machine call result next =>
    exact ⟨holds.stocked, next.keeps proper holds.stocked fun sha digest same => tended.extracts sha digest (same ▸ rfl)⟩
  | @asks machine later call request next reply served =>
    have answered : tending formats contents call.Heeds request ⟨machine, torn⟩ reply
        ⟨later, tears torn (.asks request reply)⟩ := by
      refine ⟨served, rfl, ?_⟩
      cases call with
      | cleanup keepShas => exact tended.consults request reply keepShas rfl rfl
      | download | extract => trivial
    obtain ⟨stocked, keeps⟩ := holds.keeps reply _ answered
    exact ⟨stocked, keeps⟩
  | killed => exact ⟨holds.stocked, holds.stocked⟩

private theorem initial_stocked {listed : Prop} {disk : Fs} (fresh : Fresh disk) : Stocked formats contents listed
    [] disk := by
  have linked : Linked disk := (@World.initial_holds formats disk fresh).valid.linked
  have missing {dir : Path} (stored : dir ∈ storageDirs) (name : Text) : disk (dir ++ [name]) = none :=
    fresh _ ((storage_own stored).trans (List.prefix_append _ _))
  refine ⟨linked, ?_, ?_, ?_, ?_, ?_, nofun⟩
  · exact fun sha _ there => absurd (missing images_stored sha) there
  · exact fun _ sha _ there => absurd (missing images_stored sha) there
  · exact fun layer _ there => absurd (missing blobs_stored layer) there
  · exact fun sha _ _ there => absurd (missing extracted_stored sha) there
  · intro sha _ rest there
    refine absurd (fresh _ ?_) there
    exact (storage_own extracted_stored).trans ((List.prefix_append _ _).trans (List.prefix_append _ _))

theorem Storage.Holds.run {disk : Fs} (proper : contents.Proper formats) (fresh : Fresh disk)
    (run : StorageRun formats contents Tended (.initial disk) torn after) : after.Holds formats contents torn := by
  induction run with
  | start =>
    refine ⟨initial_stocked fresh, initial_stocked fresh, ?_⟩
    exact fun _ _ _ => nofun
  | step _ tended step before => exact before.step proper step tended

/-- Whatever is called, cut off and called again: a manifest that is found is whole and
its layers are there, and what `extract_image` returns is the whole image, as long as
no torn image is extracted and cleaning up learns of the images that are there. -/
theorem storage_consistent {disk : Fs} (proper : contents.Proper formats) (fresh : Fresh disk)
    (run : StorageRun formats contents Tended (.initial disk) torn after) : after.Consistent formats contents := by
  have holds := Storage.Holds.run proper fresh run
  refine ⟨fun sha digest there => holds.stocked.imaged digest there, ?_⟩
  intro sha digest path call ended
  have keeps := holds.keeps
  rw [ended] at keeps
  exact keeps.2 sha digest path call rfl

end

/-- What others have a say in, and what a machine does not answer by itself. -/
def Request.told : Request → Bool
  | .uuid | .pullManifest _ | .pullBlob _ _ | .pullBlobStream _ _ | .readDir _ | .tree _ | .remove _ => true
  | _ => false

/-- What the machine does by itself, as long as nothing fails. -/
def Machine.succeeds (outside : Outside) (request : Request) (machine : Machine) :
    Option (Except String request.Value × Machine) :=
  match (machine.arrived request).answerUntil Request.told outside request with
  | some (.ok value, after) => some (.ok value, after)
  | _ => none

section
variable {formats : Formats} {contents : Contents} {allowed : List Text → Storage → StorageEvent → Prop}
  {start : Storage} {torn : List Text} {before after : Machine} {call : StorageCall} {task : Loads (Option Path)}

/-- The running call is answered, and nothing fails. -/
theorem StorageRun.answered {request : Request} {next : Except String request.Value → Loads (Option Path)}
    (run : StorageRun formats contents allowed start torn ⟨before, call, task⟩) (value : request.Value)
    (waiting : task = Program.call request next) (served : serves request (before.arrived request) (.ok value) after)
    (answers : contents.Answers formats request before.fs (.ok value))
    (permitted : allowed torn ⟨before, call, Program.call request next⟩ (.asks request (.ok value))) :
    StorageRun formats contents allowed start (tears torn (.asks request (.ok value))) ⟨after, call, next (.ok value)⟩ := by
  subst waiting
  exact .step run permitted (.asks (.ok value) ⟨served, answers, fun _ _ => nofun⟩)

/-- The same where nothing is on its way that the call waits for. -/
theorem StorageRun.told {request : Request} {next : Except String request.Value → Loads (Option Path)}
    (run : StorageRun formats contents allowed start torn ⟨before, call, task⟩) (value : request.Value)
    (waiting : task = Program.call request next) (still : before.arrived request = before)
    (served : serves request before (.ok value) after)
    (answers : contents.Answers formats request before.fs (.ok value))
    (permitted : allowed torn ⟨before, call, Program.call request next⟩ (.asks request (.ok value))) :
    StorageRun formats contents allowed start (tears torn (.asks request (.ok value))) ⟨after, call, next (.ok value)⟩ :=
  run.answered value waiting (by rwa [still]) answers permitted

/-- The running call goes on until others have a say. -/
theorem StorageRun.advance (outside : Outside)
    (permitted : ∀ torn before request value, allowed torn before (.asks request (.ok value)))
    (run : StorageRun formats contents allowed start torn ⟨before, call, task⟩) :
    StorageRun formats contents allowed start torn ⟨(Program.advance (Machine.succeeds outside) task before).2, call,
      (Program.advance (Machine.succeeds outside) task before).1⟩ := by
  induction task generalizing before with
  | done result => exact run
  | call request next ih =>
    unfold Program.advance
    cases same : before.succeeds outside request with
    | none => exact run
    | some answered =>
      obtain ⟨reply, after⟩ := answered
      unfold Machine.succeeds at same
      split at same
      next value later answer =>
        cases same
        obtain ⟨own, answer⟩ := Machine.answerUntil_some answer
        have served := Machine.answer_serves answer
        cases request with
        | uuid | pullManifest | pullBlob | pullBlobStream | readDir | tree | remove => cases own
        | write path text =>
          simp only [Machine.answer] at answer
          split at answer
          · cases answer
          · cases answer
            exact ih _ (run.answered _ rfl served rfl (permitted ..))
        | _ => exact ih _ (run.answered _ rfl served trivial (permitted ..))
      next => cases same

end

/-- Every digest stands for the same image and the same layer. -/
def oneImage : Contents := ⟨fun _ => ⟨"c".toList, ["l".toList]⟩, fun _ => []⟩

private theorem oneImage_proper : oneImage.Proper oneLayer where
  digests := by
    intro sha layer member
    cases List.mem_singleton.mp member
    unfold Digest
    decide
  reads := fun _ => rfl

private theorem first_digest : Digest "v1".toList := by
  unfold Digest
  decide

/-- The runs in which that image comes to an empty volume. -/
abbrev OneRun (allowed : List Text → Storage → StorageEvent → Prop) := StorageRun oneLayer oneImage allowed (.initial volume)

def temporary : Text := tmpName "u".toList

def imagesMade : Fs :=
  (((volume.put dockerloaderDir .dir).put (dockerloaderDir ++ ["storage".toList]) .dir).put storageDir .dir).put imagesDir .dir

def imageWritten : Fs := (imagesMade.put (imagesDir ++ [temporary]) (.file [])).put (imagesDir ++ [temporary]) (.file [])

def blobsMade : Fs := imageWritten.put blobsDir .dir

def blobWritten : Fs := (blobsMade.put (blobsDir ++ [temporary]) (.file [])).put (blobsDir ++ [temporary]) (.file [])

def imageThere : Fs :=
  (blobWritten.move (blobsDir ++ [temporary]) (blobsDir ++ ["l".toList])).move (imagesDir ++ [temporary])
    (imagesDir ++ ["v1".toList])

def extractedThere : Fs :=
  (((imageThere.put extractedDir .dir).put (extractedDir ++ [temporary]) .dir).put
    (extractedDir ++ [temporary, "entrypoint".toList]) (.file [])).move (extractedDir ++ [temporary])
      (extractedDir ++ ["v1".toList])

/-- An image is downloaded and extracted. -/
theorem extracted_run (allowed : List Text → Storage → StorageEvent → Prop)
    (permitted : ∀ torn before request value, allowed torn before (.asks request (.ok value)))
    (starts : ∀ before call, allowed [] before (.starts call)) :
    OneRun allowed [] ⟨⟨extractedThere, .none⟩, .extract "v1".toList first_digest,
      Program.done (.ok (some (extractedDir ++ ["v1".toList])))⟩ := by
  let own := registry "v1".toList
  have called : OneRun allowed [] ⟨⟨volume, .none⟩, _, _⟩ :=
    .step .start (starts _ (.download ⟨"app".toList, none⟩)) (.starts _)
  have naming : OneRun allowed [] ⟨⟨imagesMade, .none⟩, _, Program.call .uuid _⟩ := called.advance own permitted
  have named := naming.answered "u".toList rfl ⟨rfl, rfl⟩ (fun _ => rfl) (permitted _ _ .uuid _)
  have pulling : OneRun allowed [] ⟨⟨imagesMade, .none⟩, _, Program.call (.pullManifest ⟨"app".toList, none⟩) _⟩ :=
    named.advance own permitted
  have manifest : oneImage.Answers oneLayer (.pullManifest ⟨"app".toList, none⟩) imagesMade
      (.ok (.image ⟨"c".toList, ["l".toList]⟩, "v1".toList)) := ⟨first_digest, rfl⟩
  have pulled := pulling.answered (.image ⟨"c".toList, ["l".toList]⟩, "v1".toList) rfl ⟨rfl, rfl⟩ manifest
    (permitted _ _ (.pullManifest _) _)
  have naming : OneRun allowed [] ⟨⟨blobsMade, .none⟩, _, Program.call .uuid _⟩ := pulled.advance own permitted
  have named := naming.answered "u".toList rfl ⟨rfl, rfl⟩ (fun _ => rfl) (permitted _ _ .uuid _)
  have streaming : OneRun allowed [] ⟨⟨blobsMade, .none⟩, _,
      Program.call (.pullBlobStream ⟨"app".toList, none⟩ "l".toList) _⟩ := named.advance own permitted
  have layer : oneImage.Answers oneLayer (.pullBlobStream ⟨"app".toList, none⟩ "l".toList) blobsMade (.ok [.ok []]) := by
    intro chunks same
    obtain ⟨chunk, rfl, same⟩ := List.map_eq_singleton_iff.mp same.symm
    cases same
    rfl
  have streamed := streaming.answered [.ok []] rfl ⟨rfl, rfl⟩ layer (permitted _ _ (.pullBlobStream _ _) _)
  have downloaded : OneRun allowed [] ⟨⟨imageThere, .none⟩, _, Program.done (.ok none)⟩ := streamed.advance own permitted
  have called : OneRun allowed [] ⟨⟨imageThere, .none⟩, _, _⟩ :=
    .step downloaded (starts _ (.extract "v1".toList first_digest)) (.starts _)
  have naming : OneRun allowed [] ⟨⟨imageThere, .none⟩, _, Program.call .uuid _⟩ := called.advance own permitted
  have named := naming.answered "u".toList rfl ⟨rfl, rfl⟩ (fun _ => rfl) (permitted _ _ .uuid _)
  exact named.advance own permitted

private theorem consulted_ok (request : Request) (fs : Fs) (value : request.Value) : Consulted request fs
    (.ok value) := by
  cases request <;> trivial

theorem storage_consistent_extracted : ∃ torn after, OneRun Tended torn after ∧
    after.task = Program.done (.ok (some (extractedDir ++ ["v1".toList]))) ∧ after.Consistent oneLayer oneImage := by
  have tended (torn : List Text) (before : Storage) (request : Request) (value : request.Value) :
      Tended torn before (.asks request (.ok value)) := by
    refine ⟨fun _ _ => nofun, fun _ _ _ same _ => ?_⟩
    cases same
    exact consulted_ok ..
  have run := extracted_run Tended tended fun _ _ => ⟨fun _ _ _ => nofun, fun _ _ _ => nofun⟩
  exact ⟨_, _, run, rfl, storage_consistent oneImage_proper volume_fresh run⟩

/-- The only entry of a directory, once it has its final name. -/
theorem moved_names {fs : Fs} {dir : Path} {tmp : Text} (name : Text) (there : fs (dir ++ [tmp]) ≠ none)
    (only : ∀ other, other ≠ tmp → fs (dir ++ [other]) = none) :
    (fs.move (dir ++ [tmp]) (dir ++ [name])).names dir [name] := by
  refine ⟨by simp, fun other => ?_⟩
  rw [List.mem_singleton]
  constructor
  · rintro rfl
    simpa [Fs.move] using there
  · intro found
    by_contra different
    apply found
    simp only [Fs.move, if_neg (entries_apart dir (Ne.symm different))]
    split
    next => rfl
    next apart =>
      apply only other
      rintro rfl
      exact apart List.prefix_rfl

private theorem names_of_same {fs other : Fs} {dir : Path} {names : List Text} (named : other.names dir names)
    (same : ∀ name, fs (dir ++ [name]) = other (dir ++ [name])) : fs.names dir names :=
  ⟨named.1, fun name => (same name).symm ▸ named.2 name⟩

private theorem blob_names : extractedThere.names blobsDir ["l".toList] := by
  have there : (blobWritten.move (blobsDir ++ [temporary]) (blobsDir ++ ["l".toList])).names blobsDir ["l".toList] := by
    refine moved_names _ nofun fun other different => ?_
    simp [blobWritten, Fs.put, different]
    rfl
  exact names_of_same there fun _ => rfl

private theorem image_names : extractedThere.names imagesDir ["v1".toList] := by
  have there : imageThere.names imagesDir ["v1".toList] := by
    refine moved_names _ nofun fun other different => ?_
    change imageWritten (imagesDir ++ [other]) = none
    simp [imageWritten, Fs.put, different]
    rfl
  exact names_of_same there fun _ => rfl

private theorem extracted_names : extractedThere.names extractedDir ["v1".toList] := by
  refine moved_names _ nofun fun other different => ?_
  simp [Fs.put, different]
  rfl

private theorem extracted_tree : extractedThere.tree (extractedDir ++ ["v1".toList]) [["entrypoint".toList], []] := by
  refine ⟨nofun, fun rest => ?_, by decide⟩
  constructor
  · intro member
    simp only [List.mem_cons, List.not_mem_nil, or_false] at member
    rcases member with rfl | rfl <;> exact nofun
  · intro there
    by_contra other
    simp only [List.mem_cons, List.not_mem_nil, or_false, not_or] at other
    have apart {below : Path} (different : rest ≠ below) :
        extractedDir ++ temporary :: rest ≠ extractedDir ++ temporary :: below :=
      fun same => different (List.cons.inj (List.append_cancel_left same)).2
    have file := Fs.put_other ((imageThere.put extractedDir .dir).put (extractedDir ++ [temporary]) .dir) (.file [])
      (apart other.1)
    have top := Fs.put_other (imageThere.put extractedDir .dir) .dir (apart other.2)
    exact there (file.trans top)

/-- The runs of anything. -/
abbrev OneFreeRun := OneRun fun _ _ _ => True

theorem OneFreeRun.goes {torn : List Text} {machine : Machine} {call : StorageCall} {task : Loads (Option Path)}
    (run : OneFreeRun torn ⟨machine, call, task⟩) :
    OneFreeRun torn ⟨(Program.advance (Machine.succeeds (registry "v1".toList)) task machine).2, call,
      (Program.advance (Machine.succeeds (registry "v1".toList)) task machine).1⟩ :=
  StorageRun.advance _ (fun _ _ _ _ => trivial) run

theorem OneFreeRun.lists {torn : List Text} {machine : Machine} {call : StorageCall} {dir : Path} {names : List Text}
    {next : Except String (List Text) → Loads (Option Path)}
    (run : OneFreeRun torn ⟨machine, call, Program.call (.readDir dir) next⟩)
    (followed : machine.fs.follow dir = some dir) (there : machine.fs dir = some .dir) (named : machine.fs.names dir names) :
    OneFreeRun torn ⟨(Program.advance (Machine.succeeds (registry "v1".toList)) (next (.ok names)) machine).2, call,
      (Program.advance (Machine.succeeds (registry "v1".toList)) (next (.ok names)) machine).1⟩ := by
  have served : serves (.readDir dir) machine (.ok names) machine := ⟨⟨⟨dir, followed, there, named⟩, rfl⟩, rfl⟩
  have told := run.told names rfl rfl served trivial trivial
  exact OneFreeRun.goes told

/-- Cleaning up is killed when the entrypoint is removed and its directory is not, and
the image is extracted then: the empty directory is taken for it. -/
theorem storage_inconsistent : ∃ torn after, OneFreeRun torn after ∧ ¬ after.Consistent oneLayer oneImage := by
  have extracted : OneFreeRun _ _ := extracted_run (fun _ _ _ => True) (fun _ _ _ _ => trivial) fun _ _ => trivial
  have called : OneFreeRun [] ⟨⟨extractedThere, .none⟩, _, _⟩ := .step extracted trivial (.starts (.cleanup []))
  have blobs : OneFreeRun [] ⟨⟨extractedThere, .none⟩, _, Program.call (.readDir blobsDir) _⟩ := called.goes
  have blobs : OneFreeRun [] ⟨⟨extractedThere, .none⟩, _, Program.call (.readDir blobsDir) _⟩ := blobs.lists rfl rfl blob_names
  have images : OneFreeRun [] ⟨⟨extractedThere, .none⟩, _, Program.call (.readDir imagesDir) _⟩ := blobs.lists rfl rfl blob_names
  have images : OneFreeRun [] ⟨⟨extractedThere, .none⟩, _, Program.call (.readDir imagesDir) _⟩ := images.lists rfl rfl image_names
  have trees : OneFreeRun [] ⟨⟨extractedThere, .none⟩, _, Program.call (.readDir extractedDir) _⟩ := images.lists rfl rfl image_names
  have trees : OneFreeRun [] ⟨⟨extractedThere, .none⟩, _, Program.call (.readDir extractedDir) _⟩ :=
    trees.lists rfl rfl extracted_names
  have sweeping : OneFreeRun [] ⟨⟨extractedThere, .none⟩, _, Program.call (.readDir extractedDir) _⟩ :=
    trees.lists rfl rfl extracted_names
  have removing : OneFreeRun [] ⟨⟨extractedThere, .none⟩, _, Program.call (.tree (extractedDir ++ ["v1".toList])) _⟩ :=
    sweeping.lists rfl rfl extracted_names
  have told : OneFreeRun [] _ :=
    removing.told [["entrypoint".toList], []] rfl rfl ⟨⟨extracted_tree, rfl⟩, rfl⟩ trivial trivial
  have removing : OneFreeRun [] ⟨⟨extractedThere, .none⟩, _,
      Program.call (.remove (extractedDir ++ ["v1".toList, "entrypoint".toList])) _⟩ := told.goes
  have removed : OneFreeRun ["v1".toList] ⟨⟨Function.update extractedThere (extractedDir ++ ["v1".toList, "entrypoint".toList])
      none, .none⟩, _, _⟩ := removing.told () rfl rfl ⟨⟨nofun, nofun, rfl⟩, rfl⟩ trivial trivial
  have killed : OneFreeRun ["v1".toList] _ := .step removed trivial .killed
  have called : OneFreeRun ["v1".toList] _ := .step killed trivial (.starts (.extract "v1".toList first_digest))
  have ended := called.goes
  refine ⟨_, _, ended, fun consistent => ?_⟩
  have whole := consistent.extracted _ _ _ rfl rfl ["entrypoint".toList]
  cases whole

end Pos2.Loader
