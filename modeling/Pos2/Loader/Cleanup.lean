import Mathlib.Data.List.Dedup
import Pos2.Calls.Cut
import Pos2.Loader.Answers
import Pos2.Loader.Nested

/-! What `cleanup_storage` leaves when nothing fails. -/

namespace Pos2.Loader
open Calls

instance (name : Text) : Decidable (Digest name) := inferInstanceAs (Decidable (_ ∧ _))

/-- A file that is none, and a directory that is not there. -/
def Unreadable : Request → Fs → Prop
  | .readToString path, fs => fs.readToString path = none
  | .readDir path, fs => fs path = none
  | _, _ => False

/-- The directories of the storage are no links, and what is kept is named as a file can be. -/
structure LaidOut (keep : List Text) (fs : Fs) : Prop where
  nested : fs.Nested
  own : ∀ dir ∈ storageDirs, ∀ target, fs dir ≠ some (.link target)
  names : ∀ sha ∈ keep, '/' ∉ sha

/-- No call fails, but for the reading of what cannot be read. -/
def smooth : Handler LoaderCalls Machine := fun request before reply after =>
  serves request before reply after ∧ ∀ error, reply = .error error → Unreadable request before.fs

/-- The disk without what the loader began and did not finish. -/
def settled (fs : Fs) : Fs := ((fs.retain blobsDir Digest).retain imagesDir Digest).retain extractedDir Digest

section
variable (formats : Formats)

/-- The digests in the manifest of an image, if it can be read. -/
def manifestBlobs (fs : Fs) (sha : Text) : List Text :=
  match fs.readToString (imagesDir ++ [sha]) with
  | none => []
  | some manifestJson =>
    match formats.readImage manifestJson with
    | .error _ => []
    | .ok manifest => manifest.config :: manifest.layers

/-- What is to be left: of the images what is kept, of the blobs what these refer to. -/
def cleaned (keep : List Text) (fs : Fs) : Fs :=
  (((settled fs).retain extractedDir (· ∈ keep)).retain imagesDir (· ∈ keep)).retain blobsDir
    (· ∈ keep.flatMap (manifestBlobs formats (settled fs)))

end

/-- What is removed lies in the directories. -/
theorem LaidOut.retain {keep : List Text} {fs : Fs} (laidOut : LaidOut keep fs) {dir : Path} (stored : dir ∈ storageDirs)
    {kept : Text → Prop} [DecidablePred kept] : LaidOut keep (fs.retain dir kept) where
  nested := laidOut.nested.retain
  own := by
    intro other stored' target
    rw [Fs.retain_outside fun name below => ?_]
    · exact laidOut.own other stored' target
    · have longer := below.length_le
      rw [List.length_append, storage_length stored, storage_length stored'] at longer
      simp at longer
  names := laidOut.names

/-- What holds after a function on which nothing fails. -/
abbrev Smoothly {α : Type} (post : α → Machine → Prop) (function : Loads α) (state : Machine) : Prop :=
  Fallible.Alone smooth (fun _ _ => True) (fun _ => False) post function state

section
variable {state : Machine} {α β : Type}

theorem Smoothly.ask {request : Request} {post : request.Value → Machine → Prop} (sure : ¬ Unreadable request state.fs)
    (answered : ∀ value after, request.OnDisk state.fs value after.fs → post value after) :
    Smoothly post (ask request) state := by
  intro reply after served
  refine ⟨trivial, ?_⟩
  cases reply with
  | ok value => exact answered value after served.1.1
  | error error => exact absurd (served.2 error rfl) sure

/-- Where nothing fails there is no error to be inspected. -/
theorem Smoothly.attempt {post : α → Machine → Prop} {function : Loads α} (smoothly : Smoothly post function state) :
    Smoothly (fun _ after => ∃ value, post value after) function.attempt state := by
  refine (Fallible.Alone.attempt smoothly).mono (fun _ never => never) fun result after holds => ?_
  cases result with
  | ok value => exact ⟨value, holds⟩
  | error error => exact holds.elim

private theorem existsOk_smoothly (path : Path) :
    Smoothly (fun found after => found = state.fs.exists_ path ∧ after.fs = state.fs) (existsOk path) state := by
  have looks : Smoothly (fun found after => found = state.fs.exists_ path ∧ after.fs = state.fs)
      (ask (.exists_ path)) state := Smoothly.ask not_false fun _ _ looked => looked
  apply Fallible.Alone.bind (Fallible.Alone.attempt looks)
  intro result after holds
  cases result with
  | ok found => exact holds
  | error error => exact holds.elim

private theorem removeFile_smoothly {path : Path} (nested : state.fs.Nested) :
    Smoothly (fun _ after => after.fs = state.fs.without path) (ask (.removeFile path)) state := by
  refine Smoothly.ask not_false fun _ after removed => ?_
  rw [removed.2.2.2]
  exact nested.removed removed.1

/-- Entry by entry, whatever the order. -/
theorem removeDirAll_smoothly (path : Path) :
    Smoothly (fun _ after => after.fs = state.fs.without path) (removeDirAll path) state := by
  let left (rest : List Path) (after : Machine) : Prop :=
    (∀ below, after.fs (path ++ below) ≠ none → below ∈ rest) ∧
      ∀ other, ¬ path <+: other → after.fs other = state.fs other
  have lists : Smoothly left (ask (.tree path)) state := by
    refine Smoothly.ask not_false fun below after listed => ?_
    have disk : after.fs = state.fs := listed.2
    exact ⟨fun rest there => (listed.1.2.1 rest).mpr (disk ▸ there), fun _ _ => disk ▸ rfl⟩
  apply lists.bind
  intro below middle holds
  refine (Fallible.Alone.forM left ?_ holds).mono (fun _ never => never) fun _ after ⟨nothing, same⟩ => ?_
  · intro item rest before ⟨present, same⟩
    refine Smoothly.ask not_false fun _ after removed => ?_
    have disk : after.fs = Function.update before.fs (path ++ item) none := removed.2.2
    refine ⟨fun other there => ?_, fun other off => ?_⟩
    · rw [disk] at there
      have different : other ≠ item := by
        rintro rfl
        exact there (Function.update_self ..)
      rw [Function.update_of_ne (by simpa using different)] at there
      exact (List.mem_cons.mp (present other there)).resolve_left different
    · have apart : other ≠ path ++ item := by
        rintro rfl
        exact off (List.prefix_append _ _)
      rw [disk, Function.update_of_ne apart]
      exact same other off
  · funext other
    unfold Fs.without
    split
    · next inside =>
      obtain ⟨rest, rfl⟩ := inside
      by_contra there
      exact List.not_mem_nil (nothing rest there)
    · next off => exact same other off

private theorem readDir_smoothly {dir : Path} (plain : ∀ target, state.fs dir ≠ some (.link target))
    (there : state.fs dir ≠ none) :
    Smoothly (fun names after => state.fs.names dir names ∧ after.fs = state.fs) (ask (.readDir dir)) state := by
  refine Smoothly.ask there fun names after ⟨⟨target, followed, _, named⟩, disk⟩ => ?_
  obtain rfl := Option.some.inj ((Fs.follow_plain plain).symm.trans followed)
  exact ⟨named, disk⟩

/-- Temporary entries get a name under which they are removed, and are removed. -/
theorem cleanTmpInDir_smoothly {dir : Path} (nested : state.fs.Nested)
    (plain : ∀ target, state.fs dir ≠ some (.link target)) (there : state.fs dir ≠ none) :
    Smoothly (fun _ after => after.fs = state.fs.retain dir Digest) (cleanTmpInDir dir) state := by
  have listed := readDir_smoothly plain there
  apply listed.bind
  intro names middle ⟨named, disk⟩
  -- of the entries under a temporary name these are left
  let marking (rest : List Text) (after : Machine) : Prop := after.fs dir = state.fs dir ∧
    state.fs.Thinned dir Digest (fun name => "tmp-".toList <+: name → name ∈ rest) after.fs
  have start : marking names middle := by
    unfold marking
    rw [disk]
    exact ⟨rfl, nested.thinned fun name _ there _ => (named.2 name).mpr there⟩
  have marks : Smoothly (fun _ after => marking [] after) (names.forM fun oldName =>
      match oldName.stripPrefix "tmp-".toList with
      | none => pure ()
      | some trimmed => ask (.rename (dir ++ [oldName]) (dir ++ [removingName trimmed]))) middle := by
    refine Fallible.Alone.forM marking ?_ start
    intro name rest before ⟨same, thinned⟩
    cases stripped : name.stripPrefix "tmp-".toList with
    | none =>
      have other : ¬ "tmp-".toList <+: name := Text.stripPrefix_eq_none.mp stripped
      refine ⟨same, thinned.mono fun entry _ _ left tmp => ?_⟩
      refine (List.mem_cons.mp (left tmp)).resolve_left ?_
      rintro rfl
      exact other tmp
    | some trimmed =>
      have old : name = tmpName trimmed := Text.stripPrefix_eq_some.mp stripped
      subst old
      refine Smoothly.ask not_false fun _ after renamed => ?_
      have different : tmpName trimmed ≠ removingName trimmed := by
        intro same
        cases same
      have moved := thinned.renamed different (tmp_temporary trimmed) (removing_temporary trimmed) renamed
      refine ⟨?_, moved.mono fun entry _ _ left tmp => ?_⟩
      · rw [Fs.rename_other renamed (entry_off_trunk dir _) (entry_off_trunk dir _)]
        exact same
      · obtain rfl | ⟨left, other⟩ := left
        · cases List.prefix_iff_eq_take.mp tmp
        · exact (List.mem_cons.mp (left tmp)).resolve_left other
  apply marks.bind
  intro _ marked ⟨same, thinned⟩
  have listed := readDir_smoothly (same ▸ plain) (same ▸ there)
  apply listed.bind
  intro names middle ⟨named, disk⟩
  let removing (rest : List Text) (after : Machine) : Prop :=
    state.fs.Thinned dir Digest (fun name => ¬ "tmp-".toList <+: name ∧ name ∈ rest) after.fs
  have start : removing names middle := by
    unfold removing
    rw [disk]
    exact thinned.mono fun name _ there left => ⟨fun tmp => List.not_mem_nil (left tmp), (named.2 name).mpr there⟩
  refine (Fallible.Alone.forM removing ?_ start).mono (fun _ never => never) fun _ after thinned => ?_
  · intro name rest before thinned
    split
    · next other =>
      refine thinned.mono fun entry dropped _ left => ⟨left.1, (List.mem_cons.mp left.2).resolve_left ?_⟩
      rintro rfl
      exact dropped ⟨left.1, other⟩
    · next removed =>
      have dropped : ¬ Digest name := fun digest => removed digest.2
      have gone {after : Machine} (disk : after.fs = before.fs.without (dir ++ [name])) : removing rest after := by
        unfold removing
        rw [disk]
        exact (thinned.without dropped).mono fun entry _ _ ⟨left, other⟩ =>
          ⟨left.1, (List.mem_cons.mp left.2).resolve_left other⟩
      have looks : Smoothly (fun _ after => after.fs = before.fs) (ask (.isDir (dir ++ [name]))) before :=
        Smoothly.ask not_false fun _ _ looked => looked.2.2
      apply Fallible.Alone.bind (Fallible.Alone.attempt looks)
      intro result middle disk
      match result with
      | .error _ => exact disk.elim
      | .ok true =>
        refine (removeDirAll_smoothly (dir ++ [name])).mono (fun _ never => never) fun _ after removed => ?_
        exact gone (removed.trans (congrArg (Fs.without · _) disk))
      | .ok false =>
        have disk : middle.fs = before.fs := disk
        refine (removeFile_smoothly (disk ▸ thinned.nested)).mono (fun _ never => never) fun _ after removed => ?_
        exact gone (removed.trans (congrArg (Fs.without · _) disk))
  · exact thinned.retains fun name _ left => List.not_mem_nil left.2

/-- A directory is left with what is kept. -/
theorem sweep_smoothly {dir : Path} {keep : List Text} {removeEntry : Path → Loads Unit} (nested : state.fs.Nested)
    (plain : ∀ target, state.fs dir ≠ some (.link target)) (removes : ∀ path before, before.fs.Nested →
      Smoothly (fun _ after => after.fs = before.fs.without path) (removeEntry path) before) :
    Smoothly (fun _ after => after.fs = state.fs.retain dir (· ∈ keep)) (sweep dir keep removeEntry) state := by
  have lists : Smoothly (fun result after => after.fs = state.fs ∧ match result with
      | .ok names => state.fs.names dir names
      | .error _ => state.fs dir = none) (ask (.readDir dir)).attempt state := by
    intro reply after served
    refine ⟨trivial, ?_⟩
    cases reply with
    | ok names =>
      obtain ⟨⟨⟨target, followed, _, named⟩, disk⟩, _⟩ := served.1
      obtain rfl := Option.some.inj ((Fs.follow_plain plain).symm.trans followed)
      exact ⟨disk, named⟩
    | error error => exact ⟨served.1.1, served.2 error rfl⟩
  apply lists.bind
  intro result middle ⟨disk, holds⟩
  cases result with
  | error error =>
    have empty : state.fs.retain dir (· ∈ keep) = state.fs :=
      Fs.retain_eq_self fun name rest _ => nested.below holds (name :: rest)
    exact disk.trans empty.symm
  | ok names =>
    let left (rest : List Text) (after : Machine) : Prop :=
      state.fs.Thinned dir (· ∈ keep) (· ∈ rest) after.fs
    have start : left names middle := by
      unfold left
      rw [disk]
      exact nested.thinned fun name _ there => (holds.2 name).mpr there
    refine (Fallible.Alone.forM left ?_ start).mono (fun _ never => never) fun _ after thinned => ?_
    · intro name rest before thinned
      split
      · next kept =>
        refine thinned.mono fun entry dropped _ left => (List.mem_cons.mp left).resolve_left ?_
        rintro rfl
        exact dropped kept
      · next dropped =>
        apply (removes (dir ++ [name]) before thinned.nested).attempt.bind
        intro _ after ⟨_, removed⟩
        have gone := (thinned.without dropped).mono fun entry _ _ ⟨among, other⟩ =>
          (List.mem_cons.mp among).resolve_left other
        rw [← removed] at gone
        exact gone
    · exact thinned.retains fun name _ left => List.not_mem_nil left

/-- What manifests refer to is found out on a disk that stays as it is. -/
theorem referencedBlobs_smoothly (formats : Formats) {fs : Fs} (sha : Text) (disk : state.fs = fs) :
    Smoothly (fun blobs after => blobs = manifestBlobs formats fs sha ∧ after.fs = fs) (referencedBlobs formats sha) state := by
  have reads : Smoothly (fun result after => after.fs = fs ∧ match result with
      | .ok manifestJson => fs.readToString (imagesDir ++ [sha]) = some manifestJson
      | .error _ => fs.readToString (imagesDir ++ [sha]) = none) (ask (.readToString (imagesDir ++ [sha]))).attempt state := by
    subst disk
    intro reply after served
    refine ⟨trivial, ?_⟩
    cases reply with
    | ok manifestJson => exact ⟨served.1.1.2, served.1.1.1⟩
    | error error => exact ⟨served.1.1, served.2 error rfl⟩
  apply reads.bind
  intro result after ⟨same, holds⟩
  unfold manifestBlobs
  cases result with
  | error error =>
    rw [holds]
    exact ⟨rfl, same⟩
  | ok manifestJson =>
    rw [holds]
    dsimp only
    cases formats.readImage manifestJson with
    | error error => exact ⟨rfl, same⟩
    | ok manifest => exact ⟨rfl, same⟩

/-- A directory that is not there has no temporary entries. -/
theorem cleanDir_smoothly (dir : Path) (nested : state.fs.Nested) (plain : ∀ target, state.fs dir ≠ some (.link target)) :
    Smoothly (fun _ after => after.fs = state.fs.retain dir Digest) (do
      if ← existsOk dir then
        let _ ← (cleanTmpInDir dir).attempt) state := by
  apply (existsOk_smoothly dir).bind
  intro found middle ⟨exists_, disk⟩
  cases found with
  | true =>
    have there : state.fs dir ≠ none := by
      intro missing
      rw [Fs.exists_plain (by simp [missing]), missing] at exists_
      cases exists_
    apply (cleanTmpInDir_smoothly (disk ▸ nested) (disk ▸ plain) (disk ▸ there)).attempt.bind
    intro _ after ⟨_, cleaned⟩
    exact cleaned.trans (congrArg (Fs.retain · dir Digest) disk)
  | false =>
    have empty : state.fs.retain dir Digest = state.fs := by
      apply Fs.retain_eq_self
      intro name rest _
      by_contra there
      have here := nested.above there
      rw [Fs.exists_plain (by simp [here]), here] at exists_
      cases exists_
    exact disk.trans empty.symm

/-- The clean-up leaves what is to be left. -/
theorem cleanupStorage_smoothly (formats : Formats) {keep : List Text} (laidOut : LaidOut keep state.fs) :
    Smoothly (fun _ after => after.fs = cleaned formats keep state.fs) (cleanupStorage formats keep) state := by
  let start := state.fs
  let cleaning (rest : List Path) (after : Machine) : Prop := rest ⊆ storageDirs ∧ LaidOut keep after.fs ∧
    rest.foldl (Fs.retain · · Digest) after.fs = settled start
  have cleans : Smoothly (fun _ after => cleaning [] after) ([blobsDir, imagesDir, extractedDir].forM fun dir => do
      if ← existsOk dir then
        let _ ← (cleanTmpInDir dir).attempt) state := by
    refine Fallible.Alone.forM cleaning ?_ ⟨List.Subset.refl _, laidOut, rfl⟩
    intro dir rest before ⟨stored, laidOut, same⟩
    obtain ⟨here, below⟩ := List.cons_subset.mp stored
    refine (cleanDir_smoothly dir laidOut.nested (laidOut.own dir here)).mono (fun _ never => never) fun _ after cleaned => ?_
    unfold cleaning
    rw [cleaned]
    exact ⟨below, laidOut.retain here, same⟩
  apply cleans.bind
  intro _ before ⟨_, laidOut, disk⟩
  have disk : before.fs = settled start := disk
  have found : Smoothly (fun blobs after => blobs = keep.map (manifestBlobs formats (settled start)) ∧
      after.fs = settled start) (keep.mapM (referencedBlobs formats)) before :=
    Fallible.Alone.mapM (fun sha _ => referencedBlobs_smoothly formats sha) disk
  apply found.bind
  rintro _ before ⟨rfl, disk'⟩
  rw [← disk'.trans disk.symm] at laidOut
  apply (sweep_smoothly laidOut.nested (laidOut.own _ extracted_stored) fun path _ _ => removeDirAll_smoothly path).bind
  intro _ middle swept
  have laidOut : LaidOut keep middle.fs := by
    rw [swept]
    exact laidOut.retain extracted_stored
  apply (sweep_smoothly laidOut.nested (laidOut.own _ images_stored) fun _ _ => removeFile_smoothly).bind
  intro _ last swept'
  have laidOut : LaidOut keep last.fs := by
    rw [swept']
    exact laidOut.retain images_stored
  have plain := laidOut.own _ blobs_stored
  refine (sweep_smoothly laidOut.nested plain fun _ _ => removeFile_smoothly).mono (fun _ never => never)
    fun _ after swept'' => ?_
  rw [swept'', swept', swept, disk']
  rfl

end

/-- A directory has its old entries of some names, with all that is in them, and no others. -/
def Keeps (before after : Fs) (dir : Path) (kept : Text → Prop) : Prop :=
  ∀ name rest, (kept name → after (dir ++ name :: rest) = before (dir ++ name :: rest)) ∧
    (¬ kept name → after (dir ++ name :: rest) = none)

/-- The storage holds what is needed for the images that are kept, and nothing else is changed. -/
structure CleanedUp (formats : Formats) (keep : List Text) (before after : Fs) : Prop where
  extracted : Keeps before after extractedDir fun name => name ∈ keep ∧ Digest name
  images : Keeps before after imagesDir fun name => name ∈ keep ∧ Digest name
  blobs : Keeps before after blobsDir fun name =>
    (∃ sha ∈ keep, name ∈ manifestBlobs formats (settled before) sha) ∧ Digest name
  elsewhere : ∀ path, (∀ dir ∈ storageDirs, ∀ name, ¬ dir ++ [name] <+: path) → after path = before path

section
variable {formats : Formats} {keep : List Text} {fs : Fs}

private theorem retain_apart {dir other : Path} {kept : Text → Prop} [DecidablePred kept] (stored : dir ∈ storageDirs)
    (stored' : other ∈ storageDirs) (different : dir ≠ other) (name : Text) (rest : Path) :
    fs.retain other kept (dir ++ name :: rest) = fs (dir ++ name :: rest) := by
  apply Fs.retain_outside
  intro entry below
  have here : dir ++ [name] <+: dir ++ name :: rest := ⟨rest, by simp⟩
  exact different (entry_unique stored stored' here below).1

private theorem storage_different :
    blobsDir ≠ imagesDir ∧ blobsDir ≠ extractedDir ∧ imagesDir ≠ extractedDir := by decide

private theorem settled_entry {dir : Path} (stored : dir ∈ storageDirs) (name : Text) (rest : Path) :
    settled fs (dir ++ name :: rest) = if Digest name then fs (dir ++ name :: rest) else none := by
  simp only [storageDirs, List.mem_cons, List.not_mem_nil, or_false] at stored
  obtain ⟨blobs_images, blobs_extracted, images_extracted⟩ := storage_different
  unfold settled
  rcases stored with rfl | rfl | rfl
  · rw [retain_apart blobs_stored extracted_stored blobs_extracted, retain_apart blobs_stored images_stored blobs_images,
      Fs.retain_entry]
  · rw [retain_apart images_stored extracted_stored images_extracted, Fs.retain_entry,
      retain_apart images_stored blobs_stored blobs_images.symm]
  · rw [Fs.retain_entry, retain_apart extracted_stored images_stored images_extracted.symm,
      retain_apart extracted_stored blobs_stored blobs_extracted.symm]

private theorem cleaned_up (formats : Formats) (keep : List Text) (fs : Fs) : CleanedUp formats keep fs
    (cleaned formats keep fs) where
  extracted := by
    intro name rest
    obtain ⟨_, blobs_extracted, images_extracted⟩ := storage_different
    unfold cleaned
    rw [retain_apart extracted_stored blobs_stored blobs_extracted.symm, retain_apart extracted_stored images_stored images_extracted.symm,
      Fs.retain_entry, settled_entry extracted_stored, ← ite_and]
    exact ⟨fun kept => if_pos kept, fun dropped => if_neg dropped⟩
  images := by
    intro name rest
    obtain ⟨blobs_images, _, images_extracted⟩ := storage_different
    unfold cleaned
    rw [retain_apart images_stored blobs_stored blobs_images.symm, Fs.retain_entry,
      retain_apart images_stored extracted_stored images_extracted, settled_entry images_stored, ← ite_and]
    exact ⟨fun kept => if_pos kept, fun dropped => if_neg dropped⟩
  blobs := by
    intro name rest
    obtain ⟨blobs_images, blobs_extracted, _⟩ := storage_different
    unfold cleaned
    rw [Fs.retain_entry, retain_apart blobs_stored images_stored blobs_images,
      retain_apart blobs_stored extracted_stored blobs_extracted, settled_entry blobs_stored, ← ite_and]
    simp only [List.mem_flatMap]
    exact ⟨fun kept => if_pos kept, fun dropped => if_neg dropped⟩
  elsewhere := by
    intro path outside
    unfold cleaned settled
    rw [Fs.retain_outside (outside _ blobs_stored), Fs.retain_outside (outside _ images_stored),
      Fs.retain_outside (outside _ extracted_stored), Fs.retain_outside (outside _ extracted_stored),
      Fs.retain_outside (outside _ images_stored), Fs.retain_outside (outside _ blobs_stored)]

private theorem Fs.readToString_same {fs other : Fs} {path : Path} (same : fs path = other path)
    (plain : ∀ target, fs path ≠ some (.link target)) : fs.readToString path = other.readToString path := by
  unfold Fs.readToString
  rw [Fs.follow_plain plain, Fs.follow_plain fun target => same ▸ plain target]
  simp [same]

/-- A kept manifest reads as it did; one that is no link always does. -/
def ReadsOn (before after : Fs) (sha : Text) : Prop :=
  (∀ target, before (imagesDir ++ [sha]) ≠ some (.link target)) ∨
    after.readToString (imagesDir ++ [sha]) = (settled before).readToString (imagesDir ++ [sha])

theorem CleanedUp.reads {after : Fs} (cleanedUp : CleanedUp formats keep fs after) {sha : Text} (kept : sha ∈ keep)
    (readsOn : ReadsOn fs after sha) :
    after.readToString (imagesDir ++ [sha]) = (settled fs).readToString (imagesDir ++ [sha]) := by
  refine readsOn.elim (fun plain => ?_) id
  have manifest := cleanedUp.images sha []
  have stays : settled fs (imagesDir ++ [sha]) = if Digest sha then fs (imagesDir ++ [sha]) else none :=
    settled_entry images_stored sha []
  by_cases digest : Digest sha
  · rw [if_pos digest] at stays
    have same := manifest.1 ⟨kept, digest⟩
    exact Fs.readToString_same (same.trans stays.symm) fun target => same ▸ plain target
  · rw [if_neg digest] at stays
    have gone := manifest.2 fun both => digest both.2
    exact Fs.readToString_same (gone.trans stays.symm) fun target => gone ▸ nofun

theorem LaidOut.cleaned (laidOut : LaidOut keep fs) : LaidOut keep (cleaned formats keep fs) :=
  (((laidOut.retain blobs_stored).retain images_stored).retain extracted_stored).retain extracted_stored
    |>.retain images_stored |>.retain blobs_stored

/-- There is nothing to be done a second time. -/
theorem CleanedUp.again {after : Fs} (cleanedUp : CleanedUp formats keep fs after)
    (readsOn : ∀ sha ∈ keep, ReadsOn fs after sha) : cleaned formats keep after = after := by
  have settledAlready : settled after = after := by
    unfold settled
    rw [Fs.retain_eq_self fun name rest other => (cleanedUp.blobs name rest).2 fun kept => other kept.2,
      Fs.retain_eq_self fun name rest other => (cleanedUp.images name rest).2 fun kept => other kept.2,
      Fs.retain_eq_self fun name rest other => (cleanedUp.extracted name rest).2 fun kept => other kept.2]
  have referred (name : Text) (other : name ∉ keep.flatMap (manifestBlobs formats after)) (rest : Path) :
      after (blobsDir ++ name :: rest) = none := by
    refine (cleanedUp.blobs name rest).2 fun ⟨⟨sha, kept, listed⟩, _⟩ => other (List.mem_flatMap.mpr ⟨sha, kept, ?_⟩)
    unfold manifestBlobs at listed ⊢
    rwa [cleanedUp.reads kept (readsOn sha kept)]
  unfold cleaned
  rw [settledAlready,
    Fs.retain_eq_self fun name rest other => (cleanedUp.extracted name rest).2 fun kept => other kept.1,
    Fs.retain_eq_self fun name rest other => (cleanedUp.images name rest).2 fun kept => other kept.1,
    Fs.retain_eq_self fun name rest other => referred name other rest]

end

/-! ### Disks with finitely much on them -/

abbrev Shelf := List (Path × Node)

namespace Shelf

def fs (shelf : Shelf) : Fs := fun path => shelf.lookup path

def names (shelf : Shelf) (dir : Path) : List Text :=
  (shelf.filterMap fun entry => if entry.1.dropLast = dir then entry.1.getLast? else none).dedup

/-- What a clean-up asks for, as long as there are no directories to be removed. -/
def answer : (request : Request) → Shelf → Option (Except String request.Value × Shelf)
  | .exists_ path, shelf => some (.ok (shelf.fs.exists_ path), shelf)
  | .readToString path, shelf => some ((shelf.fs.readToString path).elim (.error "unreadable") .ok, shelf)
  | .readDir path, shelf => if shelf.fs path = some .dir then some (.ok (shelf.names path), shelf) else none
  | .isDir path, shelf =>
    if shelf.fs path = none then none else some (.ok (shelf.fs path = some .dir : Bool), shelf)
  | .removeFile path, shelf =>
    if shelf.fs path = none ∨ shelf.fs path = some .dir then none else some (.ok (), shelf.filter (·.1 ≠ path))
  | _, _ => none

private theorem fs_present {shelf : Shelf} {path : Path} : shelf.fs path ≠ none ↔ ∃ entry ∈ shelf, entry.1 = path := by
  rw [ne_eq, fs, List.lookup_eq_none_iff]
  simp only [bne_iff_ne, not_forall, not_not, exists_prop]
  exact exists_congr fun entry => and_congr_right' eq_comm

theorem nested {shelf : Shelf} (rooted : ∀ entry ∈ shelf, entry.1 = [] ∨ shelf.fs entry.1.dropLast = some .dir) :
    shelf.fs.Nested := by
  intro path name there
  obtain ⟨entry, inside, same⟩ := fs_present.mp there
  have above := rooted entry inside
  rw [same] at above
  simpa using above

private theorem fs_filter (shelf : Shelf) (path : Path) :
    fs (shelf.filter (·.1 ≠ path)) = Function.update shelf.fs path none := by
  funext other
  by_cases here : other = path
  · subst here
    rw [Function.update_self]
    by_contra there
    obtain ⟨entry, inside, same⟩ := fs_present.mp there
    exact of_decide_eq_true (List.mem_filter.mp inside).2 same
  · rw [Function.update_of_ne here]
    unfold fs
    induction shelf with
    | nil => rfl
    | cons entry rest ih =>
      obtain ⟨key, node⟩ := entry
      by_cases gone : key = path
      · have other_key : (other == key) = false := by simpa [gone] using here
        simpa [gone, List.lookup_cons, other_key, beq_eq_false_iff_ne.mpr here] using ih
      · simp only [List.filter_cons, gone, ne_eq, not_false_eq_true, decide_true, if_true, List.lookup_cons]
        rw [← ih]

private theorem fs_names (shelf : Shelf) (dir : Path) : shelf.fs.names dir (shelf.names dir) := by
  refine ⟨List.nodup_dedup _, fun name => ?_⟩
  rw [fs_present]
  simp only [names, List.mem_dedup, List.mem_filterMap]
  refine exists_congr fun entry => and_congr_right' ⟨fun same => ?_, fun same => ?_⟩
  · split at same
    · next above =>
      rw [← above]
      exact (List.dropLast_append_getLast? name same).symm
    · cases same
  · simp [same]

private theorem answer_smooth {shelf after : Shelf} {request : Request} {reply : Except String request.Value}
    {child : Child}
    (answered : shelf.answer request = some (reply, after)) : smooth request ⟨shelf.fs, child⟩ reply ⟨after.fs, child⟩ := by
  cases request with
  | exists_ path =>
    cases answered
    exact ⟨⟨⟨rfl, rfl⟩, rfl⟩, nofun⟩
  | readToString path =>
    simp only [answer] at answered
    cases found : shelf.fs.readToString path with
    | none =>
      rw [found] at answered
      cases answered
      exact ⟨⟨rfl, rfl⟩, fun _ _ => found⟩
    | some text =>
      rw [found] at answered
      cases answered
      exact ⟨⟨⟨found, rfl⟩, rfl⟩, nofun⟩
  | readDir path =>
    simp only [answer] at answered
    split at answered
    · next there =>
      cases answered
      have followed : shelf.fs.follow path = some path := Fs.follow_plain (by simp [there])
      exact ⟨⟨⟨⟨path, followed, there, shelf.fs_names path⟩, rfl⟩, rfl⟩, nofun⟩
    · cases answered
  | isDir path =>
    simp only [answer] at answered
    split at answered
    · cases answered
    · next there =>
      cases answered
      exact ⟨⟨⟨there, rfl, rfl⟩, rfl⟩, nofun⟩
  | removeFile path =>
    simp only [answer] at answered
    split at answered
    · cases answered
    · next there =>
      cases answered
      obtain ⟨present, file⟩ := not_or.mp there
      exact ⟨⟨⟨file, present, fun dir => absurd dir file, fs_filter shelf path⟩, rfl⟩, nofun⟩
  | _ => cases answered

/-- A clean-up that is answered to its end. -/
theorem cleans {formats : Formats} {keep : List Text} {before after : Shelf}
    (runs : (cleanupStorage formats keep).advance answer before = (.done (.ok ()), after)) :
    (cleanupStorage formats keep).Ends smooth ⟨before.fs, .none⟩ (.ok ()) ⟨after.fs, .none⟩ :=
  Program.ends_of_advance (fun shelf : Shelf => (⟨shelf.fs, .none⟩ : Machine)) answer_smooth runs

end Shelf

/-- A clean-up in which nothing fails leaves what is needed and nothing else, and a second one changes nothing as
long as the manifests that are kept read as they did. -/
theorem cleanup_keeps_needed (formats : Formats) (keep : List Text) {before after : Machine} {result : Except String Unit}
    (laidOut : LaidOut keep before.fs) (ends : (cleanupStorage formats keep).Ends smooth before result after) :
    result = .ok () ∧ CleanedUp formats keep before.fs after.fs ∧
      ∀ result' later, (cleanupStorage formats keep).Ends smooth after result' later →
        (∀ sha ∈ keep, ReadsOn before.fs after.fs sha) → later.fs = after.fs := by
  obtain ⟨_, holds⟩ := Program.Alone.ends (cleanupStorage_smoothly formats laidOut) trivial ends
  cases result with
  | error error => exact holds.elim
  | ok value =>
    have disk : after.fs = cleaned formats keep before.fs := holds
    have cleanedUp : CleanedUp formats keep before.fs after.fs := disk ▸ cleaned_up formats keep before.fs
    refine ⟨rfl, cleanedUp, fun result' later ends' readsOn => ?_⟩
    obtain ⟨_, holds'⟩ := Program.Alone.ends (cleanupStorage_smoothly formats (disk ▸ laidOut.cleaned)) trivial ends'
    cases result' with
    | error error => exact holds'.elim
    | ok value => exact Eq.trans holds' (cleanedUp.again readsOn)

/-- A manifest is the digest of its config. -/
def configOnly : Formats := { oneLayer with readImage := fun text => .ok ⟨text, []⟩ }

def storageOnly : Shelf := blobsDir.inits.map (·, .dir) ++ [(imagesDir, .dir), (extractedDir, .dir)]

def newImage : Shelf := [(blobsDir ++ ["d".toList], .dir), (imagesDir ++ ["new".toList], .file "d".toList)]

def linkedImage : Shelf := [(imagesDir ++ ["link".toList], .link (.absolute (imagesDir ++ ["old".toList])))]

def oldConfig : Shelf := [(blobsDir ++ ["c".toList], .file [])]

/-- Two images, a link to one of them, their configs, one of them a directory, and a leftover. -/
def storedImages : Shelf :=
  storageOnly ++ newImage ++ linkedImage ++ oldConfig ++
    [(imagesDir ++ ["old".toList], .file "c".toList), (imagesDir ++ ["removing-u".toList], .file [])]

private theorem storedImages_laidOut {keep : List Text} (names : ∀ sha ∈ keep, '/' ∉ sha) :
    LaidOut keep storedImages.fs where
  nested := Shelf.nested (by decide)
  own := by
    intro dir stored target
    have here : storedImages.fs dir = some .dir := by
      revert dir
      decide
    rw [here]
    exact nofun
  names := names

/-- The new image is kept, and nothing else. -/
theorem cleanup_keeps_needed_new : CleanedUp configOnly ["new".toList] storedImages.fs (storageOnly ++ newImage : Shelf).fs ∧
    ∀ result later, (cleanupStorage configOnly ["new".toList]).Ends smooth ⟨(storageOnly ++ newImage : Shelf).fs, .none⟩
      result later → later.fs = (storageOnly ++ newImage : Shelf).fs := by
  have cleans : (cleanupStorage configOnly ["new".toList]).advance Shelf.answer storedImages =
    (.done (.ok ()), storageOnly ++ newImage) := rfl
  obtain ⟨_, cleanedUp, again⟩ := cleanup_keeps_needed configOnly ["new".toList] (storedImages_laidOut (by decide))
    (Shelf.cleans cleans)
  refine ⟨cleanedUp, fun result later ends => again result later ends fun sha kept => ?_⟩
  cases List.mem_singleton.mp kept
  exact .inl nofun

/-- A leftover in the keep set is removed, a directory is kept among the blobs, and once the manifest that a link
leads to is gone the blobs it names go the next time. -/
theorem cleanup_exceptions : ∃ (keep : List Text) (after later : Shelf),
    (cleanupStorage configOnly keep).Ends smooth ⟨storedImages.fs, .none⟩ (.ok ()) ⟨after.fs, .none⟩ ∧
    (cleanupStorage configOnly keep).Ends smooth ⟨after.fs, .none⟩ (.ok ()) ⟨later.fs, .none⟩ ∧
    ("removing-u".toList ∈ keep ∧ storedImages.fs (imagesDir ++ ["removing-u".toList]) ≠ none ∧
      after.fs (imagesDir ++ ["removing-u".toList]) = none) ∧
    after.fs (blobsDir ++ ["d".toList]) = some .dir ∧
    after.fs (blobsDir ++ ["c".toList]) = some (.file []) ∧ later.fs (blobsDir ++ ["c".toList]) = none := by
  let keep := ["link".toList, "new".toList, "removing-u".toList]
  have cleans : (cleanupStorage configOnly keep).advance Shelf.answer storedImages =
    (.done (.ok ()), storageOnly ++ newImage ++ linkedImage ++ oldConfig) := rfl
  have again : (cleanupStorage configOnly keep).advance Shelf.answer (storageOnly ++ newImage ++ linkedImage ++ oldConfig) =
    (.done (.ok ()), storageOnly ++ newImage ++ linkedImage) := rfl
  have leftover : storedImages.fs (imagesDir ++ ["removing-u".toList]) = some (.file []) := rfl
  refine ⟨keep, _, _, Shelf.cleans cleans, Shelf.cleans again, ⟨?_, ?_, rfl⟩, rfl, rfl, rfl⟩
  · simp [keep]
  · rw [leftover]
    exact nofun

end Pos2.Loader
