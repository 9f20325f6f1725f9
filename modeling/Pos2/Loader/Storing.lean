import Pos2.Loader.Tending

/-! Downloading an image and extracting it. Manifests, blobs and directories are
complete by the time they come to their final names. -/

namespace Pos2.Loader
open Calls

/-- What is read is what is stored. -/
theorem readToString_stored {fs : Fs} {dir : Path} {name text stored : Text} (linked : Linked fs)
    (flat : dir = blobsDir ∨ dir = imagesDir) (read : fs.readToString (dir ++ [name]) = some text)
    (whole : fs (dir ++ [name]) ≠ none → fs (dir ++ [name]) = some (.file stored)) : text = stored := by
  unfold Fs.readToString at read
  rw [Fs.follow_plain (flat_plain linked flat name), Option.bind_eq_bind, Option.bind_some] at read
  have there : fs (dir ++ [name]) ≠ none := by
    intro missing
    rw [missing] at read
    cases read
  rw [whole there] at read
  exact (Option.some.inj read).symm

private theorem Fs.createDir_dir {before after : Fs} {path : Path} (made : before.createDir path = some after) :
    after path = some .dir := by
  unfold Fs.createDir at made
  split at made
  · split at made
    · cases made
      exact Function.update_self ..
    · cases made
  · next there =>
    cases made
    exact there
  · cases made

section
variable {formats : Formats} {contents : Contents}

/-- What every unpacked entry keeps holds of an unpacked image. -/
theorem unpacked_keeps (holds : Fs → Prop) (start : holds emptyDir)
    (keeps : ∀ tree entry, holds tree → holds (tree.unpack [] entry)) (sha : Text) : holds (unpacked formats contents sha) := by
  have layer (tree : Fs) (here : holds tree) (layer : Text) : holds (unpackedLayer formats contents tree layer) :=
    List.foldlRecOn (motive := holds) _ _ here fun tree here entry _ => keeps tree entry here
  exact List.foldlRecOn (motive := holds) _ _ start fun tree here other _ => layer tree here other

/-- An unpacked image is a directory. -/
theorem unpacked_root (sha : Text) : unpacked formats contents sha [] = some .dir := by
  apply unpacked_keeps (fun tree => tree [] = some .dir) rfl
  intro tree entry root
  rw [Fs.unpack, Fs.put_other _ _ (by simp)]
  exact root

section
variable {listed : Prop} {heeds : Heeds} {held : Path → Prop} {state : Depot}
  (proper : contents.Proper formats) (stocked : Stocked formats contents listed state.torn state.fs)
include proper stocked

/-- Nothing but new names is taken, and no path that is to stay. -/
theorem createDirAll_aside {path : Path} (laid : Laid path) (free : ∀ dir, dir <+: path → ¬ Stands dir ∧ ¬ held dir) :
    Tends formats contents listed heeds held (fun _ _ => True) (createDirAll path) state := by
  refine Tends.aside (Fallible.Uses.forM ?_) proper stocked
  intro dir member
  have above : dir <+: path := (List.mem_inits dir path).mp (List.mem_of_mem_tail member)
  refine ask_uses ⟨.createDir (laid.above above), fun other reached => ?_⟩
  rw [show other = dir from reached]
  exact free dir above

private theorem existsOk_tends (path : Path) :
    Tends formats contents listed heeds held (fun found after => found = true → after = state ∧ after.fs path ≠ none)
      (existsOk path) state := by
  have looks : Tends formats contents listed heeds held (fun found after => found = true → after = state ∧ after.fs path ≠ none)
      (ask (.exists_ path)) state := by
    refine Tends.read rfl proper stocked fun found disk _ there => ⟨rfl, fun missing => ?_⟩
    have looked : state.fs.exists_ path = (state.fs path).isSome := Fs.exists_plain (by simp [missing])
    rw [missing, ← disk.1, there] at looked
    cases looked
  apply Tends.bind looks.attempt
  intro result after goes holds
  cases result with
  | ok found => exact .pure goes.stocked (holds found rfl)
  | error error => exact .pure goes.stocked nofun

private theorem pullManifest_tends (reference : Reference) :
    Tends formats contents listed heeds held
      (fun pulled _ => ∀ manifest, pulled.1 = .image manifest → Digest pulled.2 ∧ manifest = contents.image pulled.2)
      (pullManifestMaybeBlob formats reference) state := by
  have pulls : Tends formats contents listed heeds held
      (fun pulled _ => ∀ manifest, pulled.1 = .image manifest → Digest pulled.2 ∧ manifest = contents.image pulled.2)
      (ask (.pullManifest reference)) state := by
    refine Tends.read rfl proper stocked fun pulled _ answers manifest image => ?_
    obtain ⟨kind, sha⟩ := pulled
    cases image
    exact answers
  apply Tends.bind pulls.attempt
  intro result after goes holds
  cases result with
  | ok pulled => exact .pure goes.stocked (holds pulled rfl)
  | error error =>
    dsimp only
    cases reference.digest with
    | none => exact .fail error goes.stocked
    | some digest =>
      have reads : Tends formats contents listed heeds held
          (fun bytes _ => ∀ manifest, formats.readManifest bytes = .ok (.image manifest) →
            Digest digest ∧ manifest = contents.image digest) (ask (.pullBlob reference digest)) after :=
        Tends.read rfl proper goes.stocked fun bytes _ answers => answers
      apply reads.bind
      intro bytes after goes answers
      have parsed : Tends formats contents listed heeds held (fun manifest _ => formats.readManifest bytes = .ok manifest)
          (Fallible.ofExcept (formats.readManifest bytes)) after := Tends.ofExcept goes.stocked fun _ same => same
      apply parsed.bind
      intro manifest after goes same
      refine .pure goes.stocked fun image here => ?_
      exact answers image (same.trans (congrArg Except.ok here))

private theorem downloadManifest_tends (reference : Reference) :
    Tends formats contents listed heeds held
      (fun pulled _ => Digest pulled.2.2 ∧ pulled.2.1 = contents.image pulled.2.2)
      (downloadManifest formats reference) state := by
  apply (pullManifest_tends proper stocked reference).bind
  intro pulled after goes known
  match pulled with
  | (.image image, sha) => exact .pure goes.stocked (known image rfl)
  | (.index none, sha) => exact .fail _ goes.stocked
  | (.index (some digest), sha) =>
    apply (pullManifest_tends proper goes.stocked _).bind
    intro pulled after goes known
    match pulled with
    | (.image image, sha) => exact .pure goes.stocked (known image rfl)
    | (.index resolved, sha) => exact .fail _ goes.stocked

private theorem create_tends {dir : Path} (flat : dir = blobsDir ∨ dir = imagesDir) (uuid : Text)
    (free : ¬ held (dir ++ [tmpName uuid])) :
    Tends formats contents listed heeds held (fun _ after => after.fs (dir ++ [tmpName uuid]) = some (.file []))
      (ask (.create (dir ++ [tmpName uuid]))) state := by
  have stored := mem_storageDirs flat
  have aside : Aside held (.create (dir ++ [tmpName uuid])) := by
    refine ⟨.create _ flat, fun path reached => ?_⟩
    rw [show path = _ from reached]
    exact ⟨entry_not_stands stored (tmp_temporary uuid) List.prefix_rfl, free⟩
  apply Tends.ask
  intro reply after served
  refine ⟨aside.goes proper stocked served, ?_⟩
  rintro value rfl
  rw [show after.fs = _ from Fs.create_plain (flat_plain stocked.linked flat _) served.1.1.1]
  exact Function.update_self ..

private theorem writeImage_tends (uuid json : Text) (free : ¬ held (imagesDir ++ [tmpName uuid])) :
    Tends formats contents listed heeds held (fun _ after => after.fs (imagesDir ++ [tmpName uuid]) = some (.file json))
      (writeFile (imagesDir ++ [tmpName uuid]) json) state := by
  have aside : Aside held (.writeAll (imagesDir ++ [tmpName uuid]) json) := by
    refine ⟨.writeAll _ _ (.inr rfl), fun path reached => ?_⟩
    rw [show path = _ from reached]
    exact ⟨entry_not_stands images_stored (tmp_temporary uuid) List.prefix_rfl, free⟩
  apply (create_tends proper stocked (.inr rfl) uuid free).bind
  intro _ created goes empty
  apply Tends.ask
  intro reply after served
  refine ⟨aside.goes proper goes.stocked served, ?_⟩
  rintro value rfl
  have disk : after.fs = created.fs.append (imagesDir ++ [tmpName uuid]) json := served.1.1.1
  rw [disk, Fs.append_plain (flat_plain goes.stocked.linked (.inr rfl) _), empty]
  exact Function.update_self ..

/-- What is on its way to a temporary file arrives. -/
theorem landed_goes {path : Path} (temporary : ¬ Stands path) (free : ¬ held path) :
    Goes formats contents listed held state { state with machine := { state.machine with fs := state.fs.landed path } } := by
  have untouched := stocked.linked.lands (Fs.landed_lands state.fs path)
  have stands {other : Path} (here : Stands other) : state.fs.landed path other = state.fs other := by
    refine Fs.landed_other _ ?_
    rintro rfl
    exact temporary here
  refine ⟨?_, fun other here => Fs.landed_other _ ?_, ?_, fun _ _ member => member, untouched.links, rfl⟩
  · exact stocked.beside proper (stocked.linked.untouched untouched) (fun _ here => stands here) fun _ _ => Iff.rfl
  · rintro rfl
    exact free here
  · intro dir stored name digest there
    have same := stands (digest.entry_stands stored)
    exact same.trans_ne there

/-- An entry comes to its final name. -/
theorem renameEntry_tends {dir : Path} (stored : dir ∈ storageDirs) (uuid : Text) {name : Text} (digest : Digest name)
    (free : ∀ path, dir <+: path → ¬ held path)
    (image : dir = imagesDir → state.fs.landed (dir ++ [tmpName uuid]) (imagesDir ++ [tmpName uuid]) = some (.file (formats.toJson (contents.image name))) ∧
      ∀ layer ∈ (contents.image name).layers, state.fs (blobsDir ++ [layer]) = some (.file (contents.blob layer)))
    (blob : dir = blobsDir → state.fs.landed (dir ++ [tmpName uuid]) (blobsDir ++ [tmpName uuid]) = some (.file (contents.blob name)))
    (tree : dir = extractedDir → Extracted formats contents (state.fs.landed (dir ++ [tmpName uuid])) name (extractedDir ++ [tmpName uuid])) :
    Tends formats contents listed heeds held
      (fun _ after => ∀ rest, after.fs (dir ++ [name] ++ rest) =
        state.fs.landed (dir ++ [tmpName uuid]) (dir ++ [tmpName uuid] ++ rest))
      (ask (.rename (dir ++ [tmpName uuid]) (dir ++ [name]))) state := by
  have different : dir ++ [tmpName uuid] ≠ dir ++ [name] := by
    intro same
    exact tmp_temporary uuid ((List.cons.inj (List.append_cancel_left same)).1 ▸ digest)
  have stores : Stores (.rename (dir ++ [tmpName uuid]) (dir ++ [name])) := .rename _ _ stored
  apply Tends.ask
  intro reply after served
  cases reply with
  | error error =>
    obtain ⟨⟨⟨disk, child⟩, _⟩, torn, _⟩ := served
    have goes := landed_goes proper stocked (entry_not_stands stored (tmp_temporary uuid) List.prefix_rfl)
      (free _ (List.prefix_append dir [tmpName uuid]))
    have same : after = { state with machine := { state.machine with fs := state.fs.landed (dir ++ [tmpName uuid]) } } :=
      Depot.eq_of (Machine.eq_of disk child) torn
    exact ⟨same ▸ goes, nofun⟩
  | ok value =>
    have renamed : (state.fs.landed (dir ++ [tmpName uuid])).rename (dir ++ [tmpName uuid]) (dir ++ [name]) after.fs :=
      served.1.1.1
    have moved : after.fs = (state.fs.landed (dir ++ [tmpName uuid])).move (dir ++ [tmpName uuid]) (dir ++ [name]) := by
      unfold Fs.rename at renamed
      rw [if_neg different] at renamed
      exact renamed.1
    have here (rest : Path) : after.fs (dir ++ [name] ++ rest) = state.fs.landed (dir ++ [tmpName uuid]) (dir ++ [tmpName uuid] ++ rest) := by
      rw [moved, Fs.move, if_pos (List.prefix_append _ _), List.drop_left]
    have at_ : after.fs (dir ++ [name]) = state.fs.landed (dir ++ [tmpName uuid]) (dir ++ [tmpName uuid]) := by
      simpa using here []
    have came : state.fs.landed (dir ++ [tmpName uuid]) (dir ++ [tmpName uuid]) ≠ none := by
      unfold Fs.rename at renamed
      rw [if_neg different] at renamed
      intro missing
      rw [missing] at renamed
      exact renamed.2.2.2
    have same {path : Path} (apart : ¬ dir ++ [tmpName uuid] <+: path) (apart' : ¬ dir ++ [name] <+: path) :
        after.fs path = state.fs path := stocked.elsewhere stores served fun reached => reached.elim apart apart'
    have off {path : Path} (stands : Stands path) : ¬ dir ++ [tmpName uuid] <+: path := fun below =>
      entry_not_stands stored (tmp_temporary uuid) below stands
    have layer {other : Text} (digest' : Digest other) (there : state.fs (blobsDir ++ [other]) = some (.file (contents.blob other))) :
        after.fs (blobsDir ++ [other]) = some (.file (contents.blob other)) := by
      by_cases changed : dir = blobsDir ∧ name = other
      · obtain ⟨rfl, rfl⟩ := changed
        exact at_.trans (blob rfl)
      · have stands := digest'.entry_stands blobs_stored
        refine (same (off stands) fun below => changed ?_).trans there
        exact entry_unique stored blobs_stored below List.prefix_rfl
    have torn : after.torn = state.torn := served.2.1
    obtain ⟨untouched, child⟩ := stocked.keeps stores served
    refine ⟨⟨?_, ?_, ?_, fun _ _ member => torn ▸ member, untouched.links, child⟩, fun _ _ => here⟩
    · rw [torn]
      refine stocked.but proper (stocked.stays_linked stores served) stored (fun path stands => same (off stands))
        (fun _ _ => Iff.rfl) ?_ ?_ ?_
      · rintro rfl _
        obtain ⟨json, layers⟩ := image rfl
        exact ⟨at_.trans json, fun _ other member => layer (proper.digests name other member) (layers other member)⟩
      · rintro rfl missing
        exact absurd (at_.trans (blob rfl)) missing
      · rintro rfl _
        have whole (rest : Path) := (here rest).trans (tree rfl rest)
        refine ⟨fun _ _ => whole, fun rest _ => whole rest, fun _ => ?_⟩
        have root := (tree rfl []).trans (unpacked_root name)
        rw [List.append_nil] at root
        rw [at_, root]
        rintro ⟨⟩
    · intro path kept
      exact same (fun below => free path ((List.prefix_append _ _).trans below) kept)
        fun below => free path ((List.prefix_append _ _).trans below) kept
    · intro other stored' entry digest' there
      by_cases changed : dir = other ∧ name = entry
      · obtain ⟨rfl, rfl⟩ := changed
        rw [at_]
        exact came
      · rwa [same (off (digest'.entry_stands stored')) fun below => changed (entry_unique stored stored' below List.prefix_rfl)]

/-- A file with all of a text in it, or on its way. -/
def Filled (text : Text) (path : Path) (fs : Fs) : Prop :=
  ∃ content coming, content ++ coming = text ∧ fs path = some (.filled content coming)

omit proper stocked in
theorem Filled.landed {text : Text} {path : Path} {fs : Fs} (filled : Filled text path fs) :
    fs.landed path path = some (.file text) := by
  obtain ⟨content, coming, rfl, file⟩ := filled
  unfold Fs.landed
  rw [file]
  cases coming with
  | nil => rw [List.append_nil]; exact file
  | cons first rest => exact Function.update_self ..

/-- The chunks of a layer are written one after the other. -/
theorem writeChunks_tends (uuid : Text) (stream : List (Except String Text)) (free : ¬ held (blobsDir ++ [tmpName uuid]))
    (empty : state.fs (blobsDir ++ [tmpName uuid]) = some (.file [])) :
    Tends formats contents listed heeds held
      (fun _ after => ∃ chunks : List Text, stream = chunks.map .ok ∧ Filled chunks.flatten (blobsDir ++ [tmpName uuid]) after.fs)
      (stream.forM fun result => do
        let chunk ← .ofExcept result
        let _ ← ask (.write (blobsDir ++ [tmpName uuid]) chunk)) state := by
  let written (rest : List (Except String Text)) (after : Depot) : Prop := Stocked formats contents listed after.torn after.fs ∧
    ∃ chunks : List Text, stream = chunks.map .ok ++ rest ∧ Filled chunks.flatten (blobsDir ++ [tmpName uuid]) after.fs
  have start : written stream state := ⟨stocked, [], rfl, [], [], rfl, empty⟩
  refine (Fallible.Along.forM (goes_course formats contents listed held) written ?_ (.refl stocked) start).mono ?_
  · intro result rest before ⟨stocked, chunks, split, filled⟩
    have parsed : Tends formats contents listed heeds held (fun chunk after => result = .ok chunk ∧ after = before)
        (Fallible.ofExcept result) before := Tends.ofExcept stocked fun _ same => ⟨same, rfl⟩
    apply Tends.bind parsed
    rintro chunk before _ ⟨rfl, rfl⟩
    have aside : Aside held (.write (blobsDir ++ [tmpName uuid]) chunk) := by
      refine ⟨.write _ _ (.inl rfl), fun path reached => ?_⟩
      rw [show path = _ from reached]
      exact ⟨entry_not_stands blobs_stored (tmp_temporary uuid) List.prefix_rfl, free⟩
    have writes : Tends formats contents listed heeds held (fun _ after => written rest after)
        (ask (.write (blobsDir ++ [tmpName uuid]) chunk)) before := by
      apply Tends.ask
      intro reply after served
      have goes := aside.goes proper stocked served
      refine ⟨goes, ?_⟩
      rintro count rfl
      obtain ⟨_, _, _, landed, coming, whole, disk⟩ := served.1.1.1
      rw [show count = chunk.length from served.1.2.1, List.take_length] at whole
      have arrived := stocked.linked.untouched (stocked.linked.lands (Fs.landed_lands before.fs (blobsDir ++ [tmpName uuid])))
      refine ⟨goes.stocked, chunks ++ [chunk], by simp [split], chunks.flatten ++ landed, coming, by simp [whole], ?_⟩
      have disk : after.fs = (before.fs.landed (blobsDir ++ [tmpName uuid])).write (blobsDir ++ [tmpName uuid]) landed coming :=
        disk
      rw [disk, Fs.write_plain (flat_plain arrived (.inl rfl) _), filled.landed]
      exact Function.update_self ..
    apply writes.bind
    intro _ after goes holds
    exact .pure goes.stocked holds
  · intro _ after _ ⟨_, chunks, split, filled⟩
    exact ⟨chunks, split.trans (List.append_nil _), filled⟩

private theorem downloadLayer_tends (image : Reference) {layer : Text} (digest : Digest layer)
    (free : ∀ path, blobsDir <+: path ∨ path <+: blobsDir → ¬ held path) :
    Tends formats contents listed heeds held
      (fun _ after => after.fs (blobsDir ++ [layer]) = some (.file (contents.blob layer)))
      (downloadLayer image layer) state := by
  have made : Tends formats contents listed heeds held (fun _ _ => True) (createDirAll blobsDir) state :=
    createDirAll_aside proper stocked (.inl List.prefix_rfl)
      fun dir above => ⟨Trunk.not_stands ⟨blobsDir, blobs_stored, above⟩, free dir (.inr above)⟩
  apply made.bind
  intro _ state goes _
  apply (existsOk_tends proper goes.stocked _).bind
  intro found state goes there
  cases found with
  | true => exact .pure goes.stocked (goes.stocked.blobs layer digest (there rfl).2)
  | false =>
    apply (Tends.read rfl proper goes.stocked fun _ _ _ => trivial :
      Tends formats contents listed heeds held (fun _ _ => True) (ask .uuid) state).bind
    intro uuid state goes _
    have pulls : Tends formats contents listed heeds held
        (fun stream _ => ∀ chunks : List Text, stream = chunks.map .ok → chunks.flatten = contents.blob layer)
        (ask (.pullBlobStream image layer)) state := Tends.read rfl proper goes.stocked fun _ _ answers => answers
    apply pulls.bind
    intro stream state goes whole
    have off : ¬ held (blobsDir ++ [tmpName uuid]) := free _ (.inl (List.prefix_append _ _))
    apply (create_tends proper goes.stocked (.inl rfl) uuid off).bind
    intro _ state goes empty
    apply (writeChunks_tends proper goes.stocked uuid stream off empty).bind
    intro _ state goes holds
    obtain ⟨chunks, same, filled⟩ := holds
    rw [whole chunks same] at filled
    have renames : Tends formats contents listed heeds held
        (fun _ after => ∀ rest, after.fs (blobsDir ++ [layer] ++ rest) =
          state.fs.landed (blobsDir ++ [tmpName uuid]) (blobsDir ++ [tmpName uuid] ++ rest))
        (ask (.rename (blobsDir ++ [tmpName uuid]) (blobsDir ++ [layer]))) state :=
      renameEntry_tends proper goes.stocked blobs_stored uuid digest (fun path below => free path (.inl below))
        (fun same => absurd same (by decide)) (fun _ => filled.landed) fun same => absurd same (by decide)
    apply renames.bind
    intro _ after goes moved
    refine .pure goes.stocked ?_
    simpa [filled.landed] using moved []

private theorem downloadLayers_tends (image : Reference) (layers : List Text) (digests : ∀ layer ∈ layers, Digest layer)
    (free : ∀ path, blobsDir <+: path ∨ path <+: blobsDir → ¬ held path) :
    Tends formats contents listed heeds held
      (fun _ after => ∀ layer ∈ layers, after.fs (blobsDir ++ [layer]) = some (.file (contents.blob layer)))
      (layers.forM fun layer => do
        let _ ← downloadLayer image layer) state := by
  let there (rest : List Text) (after : Depot) : Prop := Stocked formats contents listed after.torn after.fs ∧
    rest ⊆ layers ∧ ∀ layer ∈ layers, layer ∈ rest ∨ after.fs (blobsDir ++ [layer]) ≠ none
  have start : there layers state := ⟨stocked, List.Subset.refl _, fun _ member => .inl member⟩
  refine (Fallible.Along.forM (goes_course formats contents listed held) there ?_ (.refl stocked) start).mono ?_
  · intro layer rest before ⟨stocked, subset, holds⟩
    obtain ⟨member, subset⟩ := List.cons_subset.mp subset
    apply Tends.bind (downloadLayer_tends proper stocked image (digests layer member) free)
    intro _ after goes stored
    refine .pure goes.stocked ⟨goes.stocked, subset, fun other member' => ?_⟩
    rcases holds other member' with first | present
    · rcases List.mem_cons.mp first with rfl | later
      · exact .inr (by rw [stored]; exact nofun)
      · exact .inl later
    · exact .inr (goes.stays blobsDir blobs_stored other (digests other member') present)
  · intro _ after _ ⟨stocked, _, holds⟩ layer member
    exact stocked.blobs layer (digests layer member) ((holds layer member).resolve_left List.not_mem_nil)

theorem downloadImage_tends (reference : Reference) :
    Tends formats contents listed heeds (fun _ => False) (fun _ _ => True) (downloadImage formats reference) state := by
  have made : Tends formats contents listed heeds (fun _ => False) (fun _ _ => True) (createDirAll imagesDir) state :=
    createDirAll_aside proper stocked (.inr (.inl List.prefix_rfl))
      fun dir above => ⟨Trunk.not_stands ⟨imagesDir, images_stored, above⟩, id⟩
  apply made.bind
  intro _ state goes _
  apply (Tends.read rfl proper goes.stocked fun _ _ _ => trivial :
    Tends formats contents listed heeds (fun _ => False) (fun _ _ => True) (ask .uuid) state).bind
  intro uuid state goes _
  apply (downloadManifest_tends proper goes.stocked reference).bind
  rintro ⟨reference, manifest, sha⟩ state goes ⟨digest, image⟩
  have digest : Digest sha := digest
  have image : manifest = contents.image sha := image
  subst image
  apply (writeImage_tends proper goes.stocked uuid (formats.toJson (contents.image sha)) id).bind
  intro _ state goes json
  -- the manifest stays under its own name while the layers come in
  have layers : Tends formats contents listed heeds (fun path => path = imagesDir ++ [tmpName uuid]) _ _ state :=
    downloadLayers_tends proper goes.stocked reference (contents.image sha).layers (proper.digests sha) fun path blobs same => by
      subst same
      rcases blobs with below | above
      · exact storage_apart blobs_stored images_stored (by decide) below (List.prefix_append _ _)
      · exact storage_apart images_stored blobs_stored (by decide) ((List.prefix_append _ _).trans above) List.prefix_rfl
  apply (layers.keeping fun _ => False.elim).bind
  intro _ state goes ⟨same, stored⟩
  have renames : Tends formats contents listed heeds (fun _ => False) _ _ state :=
    renameEntry_tends proper goes.stocked images_stored uuid digest (fun _ _ => id)
      (fun _ => ⟨Filled.landed ⟨_, [], List.append_nil _, (same _ rfl).trans json⟩, stored⟩) (fun same => absurd same (by decide)) fun same => absurd same (by decide)
  apply renames.bind
  intro _ after goes _
  exact .pure goes.stocked trivial

/-- The directory that an image is extracted to is new. -/
theorem extractTmp_tends (uuid : Text) (new : ∀ rest, state.fs (extractedDir ++ tmpName uuid :: rest) = none) :
    Tends formats contents listed heeds (fun _ => False)
      (fun _ after => ∀ rest, after.fs (extractedDir ++ [tmpName uuid] ++ rest) = emptyDir rest)
      (createDirAll (extractedDir ++ [tmpName uuid])) state := by
  have above : Tends formats contents listed heeds (fun path => extractedDir ++ [tmpName uuid] <+: path) (fun _ _ => True)
      (createDirAll extractedDir) state := by
    refine createDirAll_aside proper stocked (.inr (.inr ⟨[], List.prefix_append _ _⟩)) fun dir short => ⟨?_, ?_⟩
    · exact Trunk.not_stands ⟨extractedDir, extracted_stored, short⟩
    · exact fun below => entry_off_trunk extractedDir _ (below.trans short)
  have aside : Aside (fun _ => False) (.createDir (extractedDir ++ [tmpName uuid])) := by
    refine ⟨.createDir (.inr (.inr ⟨_, List.prefix_rfl⟩)), fun path reached => ?_⟩
    rw [show path = _ from reached]
    exact ⟨entry_not_stands extracted_stored (tmp_temporary uuid) List.prefix_rfl, id⟩
  rw [createDirAll_snoc]
  apply Tends.bind (above.keeping fun _ => False.elim)
  intro _ middle goes ⟨same, _⟩
  apply Tends.ask
  intro reply after served
  refine ⟨aside.goes proper goes.stocked served, ?_⟩
  rintro value rfl rest
  have disk : middle.fs.createDir (extractedDir ++ [tmpName uuid]) = some after.fs := served.1.1.1
  by_cases root : rest = []
  · subst root
    simpa [emptyDir] using Fs.createDir_dir disk
  · have different : extractedDir ++ [tmpName uuid] ++ rest ≠ extractedDir ++ [tmpName uuid] := by simpa using root
    rw [Fs.createDir_other disk different, same _ (List.prefix_append _ _), emptyDir, if_neg root]
    simpa using new rest

private theorem unpack_tends (uuid : Text) (entry : Entry) {tree : Fs}
    (here : ∀ rest, state.fs (extractedDir ++ [tmpName uuid] ++ rest) = tree rest) :
    Tends formats contents listed heeds (fun _ => False)
      (fun _ after => ∀ rest, after.fs (extractedDir ++ [tmpName uuid] ++ rest) = tree.unpack [] entry rest)
      (ask (.unpack (extractedDir ++ [tmpName uuid]) entry)) state := by
  have aside : Aside (fun _ => False) (.unpack (extractedDir ++ [tmpName uuid]) entry) := by
    refine ⟨.unpack _ _, fun path reached => ?_⟩
    rw [show path = _ from reached]
    exact ⟨entry_not_stands extracted_stored (tmp_temporary uuid) (List.prefix_append _ _), id⟩
  apply Tends.ask
  intro reply after served
  refine ⟨aside.goes proper stocked served, ?_⟩
  rintro value rfl rest
  have disk : after.fs = state.fs.unpack (extractedDir ++ [tmpName uuid]) entry := served.1.1.1
  unfold Fs.unpack at disk ⊢
  rw [List.nil_append]
  by_cases same : rest = entry.name :: entry.below
  · subst same
    rw [disk, Fs.put, Fs.put, Function.update_self, Function.update_self]
  · rw [disk, Fs.put_other _ _ (by simpa using same), Fs.put_other _ _ same]
    exact here rest

private theorem unpackLayer_tends (uuid layer : Text) {tree : Fs}
    (here : ∀ rest, state.fs (extractedDir ++ [tmpName uuid] ++ rest) = tree rest) :
    Tends formats contents listed heeds (fun _ => False)
      (fun _ after => ∀ rest, after.fs (extractedDir ++ [tmpName uuid] ++ rest) =
        unpackedLayer formats contents tree layer rest)
      (unpackLayer formats (extractedDir ++ [tmpName uuid]) (contents.blob layer)) state := by
  let entries := (formats.entries (contents.blob layer)).1
  let so_far (left : List Entry) (after : Depot) : Prop := Stocked formats contents listed after.torn after.fs ∧
    ∃ done, entries = done ++ left ∧ ∀ rest, after.fs (extractedDir ++ [tmpName uuid] ++ rest) =
      done.foldl (fun tree entry => tree.unpack [] entry) tree rest
  have start : so_far entries state := ⟨stocked, [], rfl, here⟩
  have unpacks : Tends formats contents listed heeds (fun _ => False) (fun _ after => so_far [] after)
      (entries.forM fun entry => ask (.unpack (extractedDir ++ [tmpName uuid]) entry)) state := by
    refine Fallible.Along.forM (goes_course formats contents listed _) so_far ?_ (.refl stocked) start
    intro entry left before ⟨stocked, done, split, holds⟩
    refine (unpack_tends proper stocked uuid entry holds).mono fun _ after goes later => ?_
    refine ⟨goes.stocked, done ++ [entry], by simp [split], ?_⟩
    rw [List.foldl_concat]
    exact later
  apply unpacks.bind
  intro _ after goes ⟨_, done, split, holds⟩
  refine Tends.ofExcept goes.stocked fun _ _ => ?_
  rw [List.append_nil] at split
  unfold unpackedLayer
  rw [show (formats.entries (contents.blob layer)).1 = done from split]
  exact holds

private theorem unpackLayers_tends (uuid sha : Text)
    (here : ∀ rest, state.fs (extractedDir ++ [tmpName uuid] ++ rest) = emptyDir rest) :
    Tends formats contents listed heeds (fun _ => False)
      (fun _ after => Extracted formats contents after.fs sha (extractedDir ++ [tmpName uuid]))
      ((contents.image sha).layers.forM fun layer => do
        let blob ← ask (.readToString (blobsDir ++ [layer]))
        unpackLayer formats (extractedDir ++ [tmpName uuid]) blob) state := by
  let layers := (contents.image sha).layers
  let so_far (left : List Text) (after : Depot) : Prop := Stocked formats contents listed after.torn after.fs ∧
    ∃ done, layers = done ++ left ∧ ∀ rest, after.fs (extractedDir ++ [tmpName uuid] ++ rest) =
      done.foldl (unpackedLayer formats contents) emptyDir rest
  have start : so_far layers state := ⟨stocked, [], rfl, here⟩
  refine (Fallible.Along.forM (goes_course formats contents listed _) so_far ?_ (.refl stocked) start).mono ?_
  · intro layer left before ⟨stocked, done, split, holds⟩
    have member : layer ∈ layers := by simp [split]
    have reads : Tends formats contents listed heeds (fun _ => False) (fun blob after => blob = contents.blob layer ∧ after = before)
        (ask (.readToString (blobsDir ++ [layer]))) before := by
      refine Tends.read rfl proper stocked fun blob disk _ => ⟨?_, rfl⟩
      have whole := stocked.blobs layer (proper.digests sha layer member)
      exact readToString_stored stocked.linked (.inl rfl) disk.1 whole
    apply Tends.bind reads
    rintro _ before _ ⟨rfl, rfl⟩
    refine (unpackLayer_tends proper stocked uuid layer holds).mono fun _ after goes later => ?_
    refine ⟨goes.stocked, done ++ [layer], by simp [split], ?_⟩
    rw [List.foldl_concat]
    exact later
  · intro _ after _ ⟨_, done, split, holds⟩ rest
    rw [List.append_nil] at split
    rw [unpacked, show (contents.image sha).layers = done from split]
    exact holds rest

theorem extractImage_tends {sha : Text} (digest : Digest sha) (whole : sha ∉ state.torn) :
    Tends formats contents listed heeds (fun _ => False)
      (fun path after => path = extractedDir ++ [sha] ∧ Extracted formats contents after.fs sha path)
      (extractImage formats sha) state := by
  apply (existsOk_tends proper stocked (extractedDir ++ [sha])).bind
  intro found state goes there
  cases found with
  | true =>
    obtain ⟨rfl, present⟩ := there rfl
    exact .pure goes.stocked ⟨rfl, goes.stocked.trees sha digest whole present⟩
  | false =>
    have fresh : Tends formats contents listed heeds (fun _ => False)
        (fun uuid after => ∀ rest, after.fs (extractedDir ++ tmpName uuid :: rest) = none) (ask .uuid) state :=
      Tends.read rfl proper goes.stocked fun _ _ answers => answers
    apply fresh.bind
    intro uuid state goes new
    apply (extractTmp_tends proper goes.stocked uuid new).bind
    intro _ state goes empty
    have reads : Tends formats contents listed heeds (fun _ => False)
        (fun json after => json = formats.toJson (contents.image sha) ∧ after = state)
        (ask (.readToString (imagesDir ++ [sha]))) state := by
      refine Tends.read rfl proper goes.stocked fun json disk _ => ⟨?_, rfl⟩
      exact readToString_stored goes.stocked.linked (.inr rfl) disk.1 (goes.stocked.images sha digest)
    apply reads.bind
    rintro _ state goes ⟨rfl, rfl⟩
    have parsed : Tends formats contents listed heeds (fun _ => False)
        (fun manifest after => manifest = contents.image sha ∧ after = state)
        (Fallible.ofExcept (formats.readImage (formats.toJson (contents.image sha)))) state := by
      refine Tends.ofExcept goes.stocked fun manifest same => ⟨?_, rfl⟩
      rw [proper.reads sha] at same
      cases same
      rfl
    apply parsed.bind
    rintro _ state goes ⟨rfl, rfl⟩
    apply (unpackLayers_tends proper goes.stocked uuid sha empty).bind
    intro _ state goes tree
    have root : state.fs (extractedDir ++ [tmpName uuid]) = some .dir := by
      have top := (tree []).trans (unpacked_root sha)
      rwa [List.append_nil] at top
    have tree : Extracted formats contents (state.fs.landed (extractedDir ++ [tmpName uuid])) sha (extractedDir ++ [tmpName uuid]) := by
      rwa [Fs.landed_whole (by simp [root])]
    have renames : Tends formats contents listed heeds (fun _ => False) _ _ state :=
      renameEntry_tends proper goes.stocked extracted_stored uuid digest (fun _ _ => id)
        (fun same => absurd same (by decide)) (fun same => absurd same (by decide)) fun _ => tree
    apply renames.bind
    intro _ after goes moved
    refine .pure goes.stocked ⟨rfl, fun rest => ?_⟩
    exact (moved rest).trans (tree rest)

end

end
end Pos2.Loader
