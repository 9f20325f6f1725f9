import Mathlib.Data.List.Infix
import Pos2.Loader.World

/-! What downloading, extracting and cleaning up may do to the disk. All of it
stays inside the storage directories; the links the supervisor goes by are out
of its reach. -/

namespace Pos2.Loader
open Calls

/-- The links that the supervisor and the apps pass versions through. -/
def switches : List Path := [entrypointPath, entrypointAttemptPath, entrypointAttemptingPath, tmpSymlink]

def storageDirs : List Path := [blobsDir, imagesDir, extractedDir]

theorem blobs_stored : blobsDir ∈ storageDirs := by simp [storageDirs]

theorem images_stored : imagesDir ∈ storageDirs := by simp [storageDirs]

theorem extracted_stored : extractedDir ∈ storageDirs := by simp [storageDirs]

/-- Calls that leave the disk as it is. -/
def Request.reads : Request → Bool
  | .exists_ _ | .readToString _ | .readDir _ | .isDir _ | .tree _ | .uuid | .var _
  | .pullManifest _ | .pullBlob _ _ | .pullBlobStream _ _ => true
  | _ => false

/-- The directories that are made for storing images. -/
def Laid (path : Path) : Prop := path <+: blobsDir ∨ path <+: imagesDir ∨ ∃ name, path <+: extractedDir ++ [name]

/-- The calls of the functions that store images. -/
inductive Stores : Request → Prop where
  | read {request : Request} (reads : request.reads = true) : Stores request
  | createDir {path : Path} (laid : Laid path) : Stores (.createDir path)
  | create {dir : Path} (name : Text) (flat : dir = blobsDir ∨ dir = imagesDir) : Stores (.create (dir ++ [name]))
  | write {dir : Path} (name text : Text) (flat : dir = blobsDir ∨ dir = imagesDir) :
      Stores (.write (dir ++ [name]) text)
  | writeAll {dir : Path} (name text : Text) (flat : dir = blobsDir ∨ dir = imagesDir) :
      Stores (.writeAll (dir ++ [name]) text)
  | rename {dir : Path} (source target : Text) (stored : dir ∈ storageDirs) :
      Stores (.rename (dir ++ [source]) (dir ++ [target]))
  | removeFile {dir : Path} (name : Text) (stored : dir ∈ storageDirs) : Stores (.removeFile (dir ++ [name]))
  | remove {dir : Path} (name : Text) (below : Path) (stored : dir ∈ storageDirs) :
      Stores (.remove (dir ++ [name] ++ below))
  | unpack (name : Text) (entry : Entry) : Stores (.unpack (extractedDir ++ [name]) entry)

theorem ask_uses {allowed : Request → Prop} {request : Request} (permitted : allowed request) :
    (ask request).Uses allowed fun _ => True :=
  ⟨permitted, fun _ _ _ => trivial⟩

theorem ask_reads {request : Request} (reads : request.reads = true) : (ask request).Uses Stores fun _ => True :=
  ask_uses (.read reads)

theorem existsOk_stores (path : Path) : (existsOk path).Uses Stores fun _ => True := by
  apply (ask_reads rfl).attempt.bind
  intro result _
  cases result with
  | ok found => exact .pure trivial
  | error error => exact .pure trivial

theorem Laid.above {dir path : Path} (laid : Laid path) (start : dir <+: path) : Laid dir := by
  rcases laid with blobs | images | ⟨name, extracted⟩
  · exact .inl (start.trans blobs)
  · exact .inr (.inl (start.trans images))
  · exact .inr (.inr ⟨name, start.trans extracted⟩)

theorem createDirAll_stores {path : Path} (laid : Laid path) : (createDirAll path).Uses Stores fun _ => True := by
  apply Fallible.Uses.forM
  intro dir member
  exact ask_uses (.createDir (laid.above ((List.mem_inits dir path).mp (List.mem_of_mem_tail member))))

/-- No directory that is made for storing takes the place of a link. -/
theorem Laid.other {path : Path} (laid : Laid path) : path ∉ switches := by
  intro switch
  simp only [switches, List.mem_cons, List.not_mem_nil, or_false] at switch
  rcases switch with rfl | rfl | rfl | rfl <;> rcases laid with blobs | images | ⟨name, extracted⟩ <;>
    simp_all [entrypointPath, entrypointAttemptPath, entrypointAttemptingPath, tmpSymlink, blobsDir, imagesDir,
      extractedDir, storageDir, dockerloaderDir]

private theorem removeDirAll_stores {dir : Path} (name : Text) (stored : dir ∈ storageDirs) :
    (removeDirAll (dir ++ [name])).Uses Stores fun _ => True := by
  apply (ask_reads rfl).bind
  intro below _
  apply Fallible.Uses.forM
  intro rest _
  exact ask_uses (.remove name rest stored)

private theorem cleanTmpInDir_stores {dir : Path} (stored : dir ∈ storageDirs) :
    (cleanTmpInDir dir).Uses Stores fun _ => True := by
  apply (ask_reads rfl).bind
  intro names _
  refine (Fallible.Uses.forM ?_).bind ?_
  · intro oldName _
    cases oldName.stripPrefix "tmp-".toList with
    | none => exact .pure trivial
    | some trimmed => exact ask_uses (.rename _ _ stored)
  · intro _ _
    apply (ask_reads rfl).bind
    intro names _
    apply Fallible.Uses.forM
    intro name _
    split
    · exact .pure trivial
    · apply (ask_reads rfl).attempt.bind
      intro result _
      match result with
      | .error _ => exact .pure trivial
      | .ok true => exact removeDirAll_stores name stored
      | .ok false => exact ask_uses (.removeFile name stored)

private theorem downloadLayer_stores (image : Reference) (descriptor : Text) :
    (downloadLayer image descriptor).Uses Stores fun _ => True := by
  refine (createDirAll_stores (.inl List.prefix_rfl)).bind ?_
  · intro _ _
    apply (existsOk_stores _).bind
    intro found _
    cases found with
    | true => exact .pure trivial
    | false =>
      apply (ask_reads rfl).bind
      intro uuid _
      apply (ask_reads rfl).bind
      intro stream _
      apply (ask_uses (.create _ (.inl rfl))).bind
      intro _ _
      refine (Fallible.Uses.forM ?_).bind ?_
      · intro result _
        apply (Fallible.Uses.ofExcept result).bind
        intro chunk _
        apply (ask_uses (.write _ _ (.inl rfl))).bind
        intro _ _
        exact .pure trivial
      · intro _ _
        apply (ask_uses (.rename _ _ blobs_stored)).bind
        intro _ _
        exact .pure trivial

variable {formats : Formats}

private theorem pullManifestMaybeBlob_stores (reference : Reference) :
    (pullManifestMaybeBlob formats reference).Uses Stores fun _ => True := by
  apply (ask_reads rfl).attempt.bind
  intro result _
  cases result with
  | ok pulled => exact .pure trivial
  | error error =>
    dsimp only
    cases reference.digest with
    | none => exact .fail error
    | some digest =>
      apply (ask_reads rfl).bind
      intro bytes _
      apply (Fallible.Uses.ofExcept _).bind
      intro manifest _
      exact .pure trivial

theorem downloadManifest_stores (reference : Reference) :
    (downloadManifest formats reference).Uses Stores fun _ => True := by
  apply (pullManifestMaybeBlob_stores reference).bind
  rintro ⟨manifest, sha⟩ _
  match manifest with
  | .image image => exact .pure trivial
  | .index none => exact .fail _
  | .index (some digest) =>
    apply (pullManifestMaybeBlob_stores _).bind
    rintro ⟨manifest, sha⟩ _
    cases manifest with
    | image image => exact .pure trivial
    | index resolved => exact .fail _

private theorem writeImage_stores (name text : Text) :
    (writeFile (imagesDir ++ [name]) text).Uses Stores fun _ => True := by
  apply (ask_uses (.create name (.inr rfl))).bind
  intro _ _
  exact ask_uses (.writeAll name text (.inr rfl))

theorem downloadImage_stores (reference : Reference) :
    (downloadImage formats reference).Uses Stores fun _ => True := by
  refine (createDirAll_stores (.inr (.inl List.prefix_rfl))).bind ?_
  · intro _ _
    apply (ask_reads rfl).bind
    intro uuid _
    apply (downloadManifest_stores reference).bind
    rintro ⟨reference, manifest, sha⟩ _
    apply (writeImage_stores _ _).bind
    intro _ _
    refine (Fallible.Uses.forM ?_).bind ?_
    · intro layer _
      apply (downloadLayer_stores reference layer).bind
      intro _ _
      exact .pure trivial
    · intro _ _
      apply (ask_uses (.rename _ _ images_stored)).bind
      intro _ _
      exact .pure trivial

private theorem unpackLayer_stores (name blob : Text) :
    (unpackLayer formats (extractedDir ++ [name]) blob).Uses Stores fun _ => True := by
  refine (Fallible.Uses.forM ?_).bind ?_
  · intro entry _
    exact ask_uses (.unpack name entry)
  · intro _ _
    exact .ofExcept _

/-- An extracted image is named by its digest. -/
theorem extractImage_stores (sha : Text) :
    (extractImage formats sha).Uses Stores fun path => path = extractedDir ++ [sha] := by
  apply (existsOk_stores _).bind
  intro found _
  cases found with
  | true => exact .pure rfl
  | false =>
    apply (ask_reads rfl).bind
    intro uuid _
    apply (createDirAll_stores (.inr (.inr ⟨_, List.prefix_rfl⟩))).bind
    intro _ _
    apply (ask_reads rfl).bind
    intro manifestJson _
    apply (Fallible.Uses.ofExcept _).bind
    intro manifest _
    refine (Fallible.Uses.forM ?_).bind ?_
    · intro layer _
      apply (ask_reads rfl).bind
      intro blob _
      exact unpackLayer_stores _ blob
    · intro _ _
      apply (ask_uses (.rename _ _ extracted_stored)).bind
      intro _ _
      exact .pure rfl

private theorem referencedBlobs_stores (sha : Text) : (referencedBlobs formats sha).Uses Stores fun _ => True := by
  apply (ask_reads rfl).attempt.bind
  intro result _
  cases result with
  | error error => exact .pure trivial
  | ok manifestJson =>
    dsimp only
    cases formats.readImage manifestJson with
    | error error => exact .pure trivial
    | ok manifest => exact .pure trivial

private theorem sweep_stores {dir : Path} {keep : List Text} {removeEntry : Path → Loads Unit}
    (removes : ∀ name, (removeEntry (dir ++ [name])).Uses Stores fun _ => True) :
    (sweep dir keep removeEntry).Uses Stores fun _ => True := by
  apply (ask_reads rfl).attempt.bind
  intro result _
  cases result with
  | error error => exact .pure trivial
  | ok names =>
    apply Fallible.Uses.forM
    intro name _
    split
    · exact .pure trivial
    · apply (removes name).attempt.bind
      intro _ _
      exact .pure trivial

theorem cleanupStorage_stores (keepShas : List Text) :
    (cleanupStorage formats keepShas).Uses Stores fun _ => True := by
  refine (Fallible.Uses.forM ?_).bind ?_
  · intro dir stored
    apply (existsOk_stores dir).bind
    intro found _
    cases found with
    | true =>
      apply (cleanTmpInDir_stores stored).attempt.bind
      intro _ _
      exact .pure trivial
    | false => exact .pure trivial
  · intro _ _
    apply (Fallible.Uses.mapM fun sha _ => referencedBlobs_stores sha).bind
    intro referenced _
    refine (sweep_stores ?_).bind ?_
    · intro name
      exact removeDirAll_stores name extracted_stored
    · intro _ _
      refine (sweep_stores ?_).bind ?_
      · intro name
        exact ask_uses (.removeFile name images_stored)
      · intro _ _
        refine sweep_stores ?_
        intro name
        exact ask_uses (.removeFile name blobs_stored)

end Pos2.Loader
