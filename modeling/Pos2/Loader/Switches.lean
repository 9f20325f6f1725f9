import Pos2.Loader.Storage

/-! The four links by which versions are passed on. Each of them, if it is there,
names the entrypoint of an extracted image, and elsewhere on the disk there are
links in extracted images only. Nothing is ever on its way to the marker. -/

namespace Pos2.Loader
open Calls

theorem entrypointOf_inj {first second : Text} (same : entrypointOf first = entrypointOf second) : first = second := by
  unfold entrypointOf at same
  simpa using same

/-- A path to an extracted image, or into one. -/
def InImage (path : Path) : Prop := ∃ name, extractedDir ++ [name] <+: path

theorem InImage.below {path : Path} (inside : InImage path) : extractedDir <+: path := by
  obtain ⟨name, below⟩ := inside
  exact (List.prefix_append _ _).trans below

structure Linked (fs : Fs) : Prop where
  links : ∀ path ∈ switches, ∀ node, fs path = some node → ∃ sha, node = .link (.absolute (entrypointOf sha))
  plain : ∀ path target, dockerloaderDir <+: path → fs path = some (.link target) →
    path ∈ switches ∨ InImage path
  marker : ∀ content coming, fs updateAttemptFile ≠ some (.filling content coming)

/-- Nothing happened to the four links, and no link was made but in an image. -/
structure Untouched (before after : Fs) : Prop where
  links : ∀ path ∈ switches, after path = before path
  plain : ∀ path target, after path = some (.link target) →
    before path = some (.link target) ∨ InImage path
  marker : ∀ content coming, after updateAttemptFile = some (.filling content coming) →
    before updateAttemptFile = some (.filling content coming)

theorem Untouched.refl (fs : Fs) : Untouched fs fs := ⟨fun _ _ => rfl, fun _ _ link => .inl link, fun _ _ fills => fills⟩

theorem Untouched.trans {before middle after : Fs} (first : Untouched before middle) (second : Untouched middle after) :
    Untouched before after := by
  refine ⟨fun path switch => (second.links path switch).trans (first.links path switch), ?_, ?_⟩
  · intro path target link
    rcases second.plain path target link with earlier | inside
    · exact first.plain path target earlier
    · exact .inr inside
  · exact fun content coming fills => first.marker content coming (second.marker content coming fills)

theorem Linked.untouched {before after : Fs} (linked : Linked before) (untouched : Untouched before after) :
    Linked after := by
  refine ⟨?_, ?_, ?_⟩
  · intro path switch node found
    rw [untouched.links path switch] at found
    exact linked.links path switch node found
  · intro path target own link
    rcases untouched.plain path target link with earlier | inside
    · exact linked.plain path target own earlier
    · exact .inr inside
  · exact fun content coming fills => linked.marker content coming (untouched.marker content coming fills)

theorem switch_length {path : Path} (switch : path ∈ switches) : path.length = 3 := by
  simp only [switches, List.mem_cons, List.not_mem_nil, or_false] at switch
  rcases switch with rfl | rfl | rfl | rfl <;> rfl

theorem storage_length {dir : Path} (stored : dir ∈ storageDirs) : dir.length = 5 := by
  simp only [storageDirs, List.mem_cons, List.not_mem_nil, or_false] at stored
  rcases stored with rfl | rfl | rfl <;> rfl

theorem switch_own {path : Path} (switch : path ∈ switches) : dockerloaderDir <+: path := by
  simp only [switches, List.mem_cons, List.not_mem_nil, or_false] at switch
  rcases switch with rfl | rfl | rfl | rfl <;> exact List.prefix_append _ _

theorem storage_own {dir : Path} (stored : dir ∈ storageDirs) : dockerloaderDir <+: dir := by
  simp only [storageDirs, List.mem_cons, List.not_mem_nil, or_false] at stored
  rcases stored with rfl | rfl | rfl <;> exact (List.prefix_append _ _).trans (List.prefix_append _ _)

/-- No switch is below a storage directory. -/
theorem switch_not_below {dir path : Path} (stored : dir ∈ storageDirs) (below : dir <+: path) :
    path ∉ switches := by
  intro switch
  have shorter := below.length_le
  have three := switch_length switch
  have five := storage_length stored
  omega

theorem Linked.stored {fs : Fs} (linked : Linked fs) {dir : Path} (stored : dir ∈ storageDirs) (target : Target) :
    fs dir ≠ some (.link target) := by
  intro link
  rcases linked.plain dir target (storage_own stored) link with switch | ⟨name, below⟩
  · exact switch_not_below stored List.prefix_rfl switch
  · have longer := below.length_le
    rw [List.length_append, storage_length stored, storage_length extracted_stored, List.length_singleton] at longer
    omega

/-- The storage directories are apart from each other. -/
theorem storage_extracted {dir rest : Path} (stored : dir ∈ storageDirs) (inside : extractedDir <+: dir ++ rest) :
    dir = extractedDir := by
  simp only [storageDirs, List.mem_cons, List.not_mem_nil, or_false] at stored
  rcases stored with rfl | rfl | rfl
  · simp [blobsDir, extractedDir, storageDir, dockerloaderDir] at inside
  · simp [imagesDir, extractedDir, storageDir, dockerloaderDir] at inside
  · rfl

theorem updateAttempt_other : updateAttemptFile ∉ switches := by decide

/-- The marker is not below a storage directory. -/
theorem marker_not_below {dir : Path} (stored : dir ∈ storageDirs) : ¬ dir <+: updateAttemptFile := by
  intro below
  have shorter := below.length_le
  have five := storage_length stored
  have three : updateAttemptFile.length = 3 := rfl
  omega

theorem stored_ne_marker {dir : Path} (stored : dir ∈ storageDirs) (rest : Path) : dir ++ rest ≠ updateAttemptFile :=
  fun same => marker_not_below stored (same ▸ List.prefix_append _ _)

theorem mem_storageDirs {dir : Path} (flat : dir = blobsDir ∨ dir = imagesDir) : dir ∈ storageDirs := by
  rcases flat with rfl | rfl <;> simp [storageDirs]

theorem Fs.follow_plain {fs : Fs} {path : Path} (plain : ∀ target, fs path ≠ some (.link target)) :
    fs.follow path = some path := by
  unfold Fs.follow Fs.maxLinks Fs.followLinks
  split
  next target link => exact (plain target link).elim
  next => rfl

theorem Untouched.put {fs : Fs} {path : Path} {node : Node} (other : path ∉ switches)
    (plain : (∀ target, node ≠ .link target) ∨ InImage path)
    (still : (∀ content coming, node ≠ .filling content coming) ∨ path ≠ updateAttemptFile) :
    Untouched fs (fs.put path node) := by
  refine ⟨?_, ?_, ?_⟩
  · intro switch member
    have different : switch ≠ path := fun same => other (same ▸ member)
    exact Function.update_of_ne different _ _
  · intro current target link
    by_cases here : current = path
    · subst here
      rw [Fs.put, Function.update_self, Option.some_inj] at link
      rcases plain with never | inside
      · exact (never target link).elim
      · exact .inr inside
    · rw [Fs.put, Function.update_of_ne here] at link
      exact .inl link
  · intro content coming fills
    by_cases here : updateAttemptFile = path
    · rw [here, Fs.put, Function.update_self, Option.some_inj] at fills
      rcases still with never | apart
      · exact (never content coming fills).elim
      · exact (apart here.symm).elim
    · rwa [Fs.put, Function.update_of_ne here] at fills

/-- A file of the storage is put in place. -/
theorem Untouched.putFile {fs : Fs} {path : Path} (other : path ∉ switches) (text : Text) :
    Untouched fs (fs.put path (.file text)) :=
  .put other (.inl nofun) (.inl nofun)

theorem Untouched.create {before after : Fs} {path : Path} (other : path ∉ switches)
    (plain : ∀ target, before path ≠ some (.link target)) (created : before.create path = some after) :
    Untouched before after := by
  unfold Fs.create at created
  rw [Fs.follow_plain plain, Option.bind_eq_bind, Option.bind_some] at created
  split at created
  · split at created
    · cases created
      exact .putFile other []
    · cases created
  · cases created
    exact .putFile other []
  · cases created
    exact .putFile other []
  · cases created

theorem Untouched.append {fs : Fs} {path : Path} (other : path ∉ switches)
    (plain : ∀ target, fs path ≠ some (.link target)) (text : Text) : Untouched fs (fs.append path text) := by
  unfold Fs.append
  rw [Fs.follow_plain plain]
  dsimp only
  split
  · exact .putFile other _
  · exact .refl fs

/-- A file that is being filled is a file. -/
theorem Node.filled_ne_link (content coming : Text) (target : Target) : Node.filled content coming ≠ .link target := by
  cases coming <;> rintro ⟨⟩

theorem Node.filled_ne_dir (content coming : Text) : Node.filled content coming ≠ .dir := by
  cases coming <;> rintro ⟨⟩

theorem Untouched.write {fs : Fs} {path : Path} (other : path ∉ switches) (apart : path ≠ updateAttemptFile)
    (plain : ∀ target, fs path ≠ some (.link target)) (landed coming : Text) : Untouched fs (fs.write path landed coming) := by
  unfold Fs.write
  rw [Fs.follow_plain plain]
  dsimp only
  split
  · exact .put other (.inl (Node.filled_ne_link _ coming)) (.inr apart)
  · exact .refl fs

theorem Untouched.remove {before after : Fs} {path : Path} (other : path ∉ switches)
    (removed : before.remove path after) : Untouched before after := by
  obtain ⟨_, _, rfl⟩ := removed
  have earlier {current : Path} {node : Node} (found : Function.update before path none current = some node) :
      before current = some node := by
    by_cases here : current = path
    · rw [here, Function.update_self] at found
      cases found
    · rwa [Function.update_of_ne here] at found
  refine ⟨?_, ?_, ?_⟩
  · intro switch member
    have different : switch ≠ path := fun same => other (same ▸ member)
    exact Function.update_of_ne different _ _
  · exact fun current target link => .inl (earlier link)
  · exact fun content coming fills => earlier fills

/-- Renames inside one storage directory. -/
theorem Untouched.rename {before after : Fs} {dir : Path} {source target : Text} (linked : Linked before)
    (stored : dir ∈ storageDirs) (renamed : before.rename (dir ++ [source]) (dir ++ [target]) after) :
    Untouched before after := by
  have apart (name : Text) {path : Path} (member : path ∈ switches) : ¬ dir ++ [name] <+: path := fun below =>
    switch_not_below stored ((List.prefix_append dir [name]).trans below) member
  unfold Fs.rename at renamed
  split at renamed
  next => exact renamed.2 ▸ .refl before
  next =>
    rw [renamed.1]
    refine ⟨?_, ?_, ?_⟩
    · intro switch member
      rw [Fs.move, if_neg (apart target member), if_neg (apart source member)]
    · intro path link found
      by_cases below : dir ++ [target] <+: path
      · obtain ⟨rest, rfl⟩ := below
        rw [Fs.move, if_pos (List.prefix_append _ _), List.drop_left] at found
        have own : dockerloaderDir <+: dir ++ [source] ++ rest := by
          rw [List.append_assoc]
          exact (storage_own stored).trans (List.prefix_append _ _)
        rcases linked.plain _ link own found with switch | inside
        · exact (apart source switch (List.prefix_append _ _)).elim
        · rw [List.append_assoc] at inside
          have same := storage_extracted stored inside.below
          rw [same, List.append_assoc]
          exact .inr ⟨target, List.prefix_append _ _⟩
      · rw [Fs.move, if_neg below] at found
        split at found
        · cases found
        · exact .inl found
    · intro content coming fills
      have off (name : Text) : ¬ dir ++ [name] <+: updateAttemptFile := fun below =>
        marker_not_below stored ((List.prefix_append _ _).trans below)
      rwa [Fs.move, if_neg (off target), if_neg (off source)] at fills

/-- What a rename of one switch to another does. -/
structure Passed (before after : Fs) (source target : Path) : Prop where
  there : before source ≠ none
  arrived : after target = before source
  left : after source = none
  others : ∀ path, path ≠ source → path ≠ target → path.length = 3 → after path = before path

theorem Linked.rename {before after : Fs} {source target : Path} (linked : Linked before)
    (first : source ∈ switches) (second : target ∈ switches) (different : source ≠ target)
    (renamed : before.rename source target after) : Passed before after source target ∧ Linked after := by
  have lengths : source.length = 3 ∧ target.length = 3 := ⟨switch_length first, switch_length second⟩
  rw [Fs.rename, if_neg different] at renamed
  obtain ⟨rfl, _, _, shape⟩ := renamed
  have same {path later : Path} (below : path <+: later) (long : path.length = 3) (short : later.length = 3) :
      path = later := below.eq_of_length (long.trans short.symm)
  have there : before source ≠ none := by
    intro missing
    rw [missing] at shape
    exact shape
  have target_ : before.move source target target = before source := by
    rw [Fs.move, if_pos List.prefix_rfl, List.drop_length, List.append_nil]
  have source_ : before.move source target source = none := by
    rw [Fs.move, if_neg fun below => different (same below lengths.2 lengths.1).symm, if_pos List.prefix_rfl]
  have others (path : Path) (apart : path ≠ source) (apart' : path ≠ target) (long : path.length = 3) :
      before.move source target path = before path := by
    rw [Fs.move, if_neg fun below => apart' (same below lengths.2 long).symm,
      if_neg fun below => apart (same below lengths.1 long).symm]
  refine ⟨⟨there, target_, source_, others⟩, ?_, ?_, ?_⟩
  · intro path switch node found
    by_cases here : path = target
    · rw [here, target_] at found
      exact linked.links source first node found
    · by_cases gone : path = source
      · rw [gone, source_] at found
        cases found
      · rw [others path gone here (switch_length switch)] at found
        exact linked.links path switch node found
  · intro path link own found
    by_cases below : target <+: path
    · obtain ⟨rest, rfl⟩ := below
      rw [Fs.move, if_pos (List.prefix_append _ _), List.drop_left] at found
      have nothing : rest = [] := by
        rcases linked.plain _ link ((switch_own first).trans (List.prefix_append _ _)) found with switch | inside
        · have long := switch_length switch
          rw [List.length_append, lengths.1] at long
          exact List.eq_nil_of_length_eq_zero (by omega)
        · have inside := inside.below
          simp only [switches, List.mem_cons, List.not_mem_nil, or_false] at first
          rcases first with rfl | rfl | rfl | rfl <;>
            simp [entrypointPath, entrypointAttemptPath, entrypointAttemptingPath, tmpSymlink, extractedDir,
              storageDir, dockerloaderDir] at inside
      rw [nothing, List.append_nil]
      exact .inl second
    · rw [Fs.move, if_neg below] at found
      split at found
      · cases found
      · exact linked.plain path link own found
  · have apart {path : Path} (switch : path ∈ switches) : updateAttemptFile ≠ path :=
      fun same => updateAttempt_other (same ▸ switch)
    rw [others _ (apart first) (apart second) rfl]
    exact linked.marker

theorem Linked.symlink {before after : Fs} {path : Path} {sha : Text} (linked : Linked before)
    (switch : path ∈ switches) (made : before.symlink (.absolute (entrypointOf sha)) path = some after) :
    before path = none ∧ after = before.put path (.link (.absolute (entrypointOf sha))) ∧ Linked after := by
  unfold Fs.symlink at made
  split at made
  next free =>
    cases made
    refine ⟨free.1, rfl, ?_, ?_, ?_⟩
    · intro other member node found
      by_cases here : other = path
      · rw [here, Fs.put, Function.update_self, Option.some_inj] at found
        exact ⟨sha, found.symm⟩
      · rw [Fs.put, Function.update_of_ne here] at found
        exact linked.links other member node found
    · intro other target own found
      by_cases here : other = path
      · exact .inl (here ▸ switch)
      · rw [Fs.put, Function.update_of_ne here] at found
        exact linked.plain other target own found
    · have apart : updateAttemptFile ≠ path := fun same => updateAttempt_other (same ▸ switch)
      rw [Fs.put, Function.update_of_ne apart]
      exact linked.marker
  next => cases made

theorem Linked.remove {before after : Fs} {path : Path} (linked : Linked before)
    (removed : before.remove path after) : (∀ other, other ≠ path → after other = before other) ∧ Linked after := by
  obtain ⟨_, _, rfl⟩ := removed
  have earlier {other : Path} {node : Node} (found : Function.update before path none other = some node) :
      before other = some node := by
    by_cases here : other = path
    · rw [here, Function.update_self] at found
      cases found
    · rwa [Function.update_of_ne here] at found
  refine ⟨fun other apart => Function.update_of_ne apart _ _, ?_, ?_, ?_⟩
  · intro other member node found
    exact linked.links other member node (earlier found)
  · intro other target own found
    exact linked.plain other target own (earlier found)
  · exact fun content coming fills => linked.marker content coming (earlier fills)

theorem Request.reads_nothing {request : Request} (reads : request.reads = true) {before after : Fs}
    {value : request.Value} (done : request.OnDisk before value after) : after = before := by
  cases request with
  | exists_ | readToString | readDir | isDir | tree =>
    first
    | exact done.2
    | exact done.2.2
  | uuid | var | pullManifest | pullBlob | pullBlobStream => exact done
  | _ => cases reads

/-- Files that storing writes to are no links. -/
theorem flat_plain {fs : Fs} (linked : Linked fs) {dir : Path} (flat : dir = blobsDir ∨ dir = imagesDir)
    (name : Text) (target : Target) : fs (dir ++ [name]) ≠ some (.link target) := by
  intro link
  have stored := mem_storageDirs flat
  rcases linked.plain _ _ ((storage_own stored).trans (List.prefix_append _ _)) link with switch | inside
  · exact switch_not_below stored (List.prefix_append _ _) switch
  · have same := storage_extracted stored inside.below
    subst same
    rcases flat with impossible | impossible <;> revert impossible <;> decide

private theorem stored_other {dir : Path} (stored : dir ∈ storageDirs) (rest : Path) : dir ++ rest ∉ switches :=
  switch_not_below stored (List.prefix_append _ _)

private theorem Stores.untouched {request : Request} (stores : Stores request) {before after : Fs}
    (linked : Linked before) {value : request.Value} (done : request.OnDisk before value after) :
    Untouched before after := by
  cases stores with
  | read reads =>
    rw [Request.reads_nothing reads done]
    exact .refl before
  | createDir laid =>
    change before.createDir _ = some after at done
    unfold Fs.createDir at done
    split at done
    · split at done
      · cases done
        exact .put laid.other (.inl nofun) (.inl nofun)
      · cases done
    · cases done
      exact .refl before
    · cases done
  | create name flat => exact .create (stored_other (mem_storageDirs flat) _) (flat_plain linked flat name) done
  | write name text flat =>
    obtain ⟨_, _, _, landed, coming, _, rfl⟩ := done
    have stored := mem_storageDirs flat
    exact .write (stored_other stored _) (stored_ne_marker stored _) (flat_plain linked flat name) landed coming
  | writeAll name text flat =>
    rw [show after = _ from done]
    exact .append (stored_other (mem_storageDirs flat) _) (flat_plain linked flat name) _
  | rename source target stored => exact .rename linked stored done
  | removeFile name stored => exact .remove (stored_other stored _) done.2
  | remove name below stored =>
    refine .remove ?_ done
    rw [List.append_assoc]
    exact stored_other stored _
  | unpack name entry =>
    rw [show after = _ from done]
    have inside : InImage (extractedDir ++ [name] ++ entry.name :: entry.below) := ⟨name, List.prefix_append _ _⟩
    exact .put (switch_not_below extracted_stored inside.below) (.inr inside) (.inl entry.whole)

/-- A call that does not write leaves the disk alone when it fails. -/
theorem Request.fails_nothing {request : Request} {before after : Fs} (failed : request.Fails before after)
    (other : ∀ path text, request ≠ .writeAll path text) : after = before := by
  cases request with
  | writeAll path text => exact (other path text rfl).elim
  | exit code => exact failed.elim
  | _ => exact failed

private theorem Stores.failed {request : Request} (stores : Stores request) {before after : Fs}
    (linked : Linked before) (failed : request.Fails before after) : Untouched before after := by
  cases stores with
  | writeAll name text flat =>
    obtain ⟨written, _, rfl⟩ := failed
    exact .append (stored_other (mem_storageDirs flat) _) (flat_plain linked flat name) _
  | read reads =>
    rw [Request.fails_nothing failed (by rintro path text rfl; cases reads)]
    exact .refl before
  | _ =>
    rw [Request.fails_nothing failed (by simp)]
    exact .refl before

private theorem Stores.same_child {request : Request} (stores : Stores request) {before : Machine} {after : Child}
    {value : request.Value} (done : request.OnChild before value after) : after = before.child := by
  cases stores with
  | read reads =>
    cases request with
    | spawn | wait | waitTimeout | kill => cases reads
    | _ => exact done
  | _ => exact done

/-- Storing images touches neither the links nor the child. -/
theorem Stores.keeps {request : Request} (stores : Stores request) {before after : Machine}
    (linked : Linked before.fs) {reply : Except String request.Value} (served : serves request before reply after) :
    Untouched before.fs after.fs ∧ after.child = before.child := by
  match reply, served with
  | .ok value, ⟨disk, child⟩ => exact ⟨stores.untouched linked disk, stores.same_child child⟩
  | .error error, ⟨failed, child⟩ => exact ⟨stores.failed linked failed, child⟩

/-- Nothing changes but files that are being filled, and these are files. -/
def Fs.Lands (before after : Fs) : Prop := ∀ path, after path = before path ∨
  (∃ content coming, before path = some (.filling content coming)) ∧ ∃ content coming, after path = some (.filled content coming)

section
variable {before middle after : Fs}

theorem Fs.Arrives.lands (arrives : before.Arrives after) : before.Lands after := by
  obtain ⟨path, content, coming, landed, rest, fills, _, rfl⟩ := arrives
  intro other
  by_cases here : other = path
  · subst here
    exact .inr ⟨⟨content, coming, fills⟩, content ++ landed, rest, Function.update_self ..⟩
  · exact .inl (Function.update_of_ne here _ _)

theorem Fs.Lands.refl (fs : Fs) : fs.Lands fs := fun _ => .inl rfl

theorem Fs.Lands.trans (first : before.Lands middle) (second : middle.Lands after) : before.Lands after := by
  intro path
  rcases first path with same | ⟨fills, filled⟩ <;> rcases second path with same' | ⟨fills', filled'⟩
  · exact .inl (same'.trans same)
  · exact .inr ⟨same ▸ fills', filled'⟩
  · exact .inr ⟨fills, same' ▸ filled⟩
  · exact .inr ⟨fills, filled'⟩

theorem Fs.Lands.other (lands : before.Lands after) {path : Path} {node : Node} (found : before path = some node)
    (whole : ∀ content coming, node ≠ .filling content coming) : after path = before path := by
  rcases lands path with same | ⟨⟨content, coming, fills⟩, _⟩
  · exact same
  · rw [found, Option.some_inj] at fills
    exact (whole content coming fills).elim

private theorem Fs.Lands.link_iff (lands : before.Lands after) (path : Path) (target : Target) :
    after path = some (.link target) ↔ before path = some (.link target) := by
  rcases lands path with same | ⟨⟨content, coming, fills⟩, later, left, filled⟩
  · rw [same]
  · rw [fills, filled, Option.some_inj, Option.some_inj]
    exact ⟨fun link => (Node.filled_ne_link later left target link).elim, nofun⟩

theorem Fs.Lands.none_iff (lands : before.Lands after) (path : Path) : after path = none ↔ before path = none := by
  rcases lands path with same | ⟨⟨content, coming, fills⟩, later, left, filled⟩
  · rw [same]
  · simp [fills, filled]

theorem Fs.Lands.followLinks (lands : before.Lands after) (count : Nat) (path : Path) :
    after.followLinks count path = before.followLinks count path := by
  induction count generalizing path with
  | zero => rfl
  | succ count ih =>
    by_cases link : ∃ target, before path = some (.link target)
    · obtain ⟨target, there⟩ := link
      rw [Fs.followLinks, Fs.followLinks, there, (lands.link_iff path target).mpr there]
      exact ih _
    · have stays {fs : Fs} (plain : ∀ target, fs path ≠ some (.link target)) :
          fs.followLinks (count + 1) path = some path := by
        rw [Fs.followLinks]
        split
        next target there => exact (plain target there).elim
        next => rfl
      have plain : ∀ target, before path ≠ some (.link target) := fun target there => link ⟨target, there⟩
      rw [stays plain, stays fun target there => plain target ((lands.link_iff path target).mp there)]

/-- What is there is there whatever arrives. -/
theorem Fs.Lands.exists_ (lands : before.Lands after) (path : Path) : after.exists_ path = before.exists_ path := by
  rw [Fs.exists_, Fs.exists_, Fs.follow, Fs.follow, lands.followLinks]
  cases before.followLinks Fs.maxLinks path with
  | none => rfl
  | some file =>
    rw [Option.bind_some, Option.bind_some, ← Option.not_isNone, ← Option.not_isNone, Bool.not_inj_iff, Bool.eq_iff_iff,
      Option.isNone_iff_eq_none, Option.isNone_iff_eq_none]
    exact lands.none_iff file

/-- What arrives leaves the links and the marker alone. -/
theorem Linked.lands (linked : Linked before) (lands : before.Lands after) : Untouched before after := by
  refine ⟨?_, ?_, ?_⟩
  · intro switch member
    cases found : before switch with
    | none => exact (lands.none_iff switch).mpr found
    | some node =>
      obtain ⟨sha, rfl⟩ := linked.links switch member node found
      exact (lands.link_iff switch _).mpr found
  · exact fun path target link => .inl ((lands.link_iff path target).mp link)
  · intro content coming fills
    rcases lands updateAttemptFile with same | ⟨⟨earlier, more, filling⟩, _⟩
    · exact same ▸ fills
    · exact (linked.marker earlier more filling).elim

theorem Linked.lands_marker (linked : Linked before) (lands : before.Lands after) :
    after updateAttemptFile = before updateAttemptFile := by
  rcases lands updateAttemptFile with same | ⟨⟨content, coming, fills⟩, _⟩
  · exact same
  · exact (linked.marker content coming fills).elim

end

section
variable {before after : Fs} {path other : Path}

theorem Fs.put_other (fs : Fs) (node : Node) (different : other ≠ path) : fs.put path node other = fs other :=
  Function.update_of_ne different _ _

theorem Fs.createDir_other (made : before.createDir path = some after) (different : other ≠ path) :
    after other = before other := by
  unfold Fs.createDir at made
  split at made
  · split at made
    · cases made
      exact Fs.put_other before .dir different
    · cases made
  · cases made
    rfl
  · cases made

private theorem Fs.createDir_self (made : before.createDir path = some after) :
    after path = before path ∨ (before path = none ∧ before.hasParent path = true ∧ after path = some .dir) := by
  unfold Fs.createDir at made
  split at made
  next missing =>
    split at made
    next parent =>
      cases made
      exact .inr ⟨missing, parent, Function.update_self ..⟩
    next => cases made
  next =>
    cases made
    exact .inl rfl
  next => cases made

theorem Fs.create_plain (plain : ∀ target, before path ≠ some (.link target)) (created : before.create path = some after) :
    after = before.put path (.file []) := by
  unfold Fs.create at created
  rw [Fs.follow_plain plain, Option.bind_eq_bind, Option.bind_some] at created
  split at created
  · split at created
    · exact (Option.some.inj created).symm
    · cases created
  · exact (Option.some.inj created).symm
  · exact (Option.some.inj created).symm
  · cases created

theorem Fs.append_plain (plain : ∀ target, before path ≠ some (.link target)) (text : Text) :
    before.append path text = match before path with
      | some (.file content) => before.put path (.file (content ++ text))
      | _ => before := by
  have followed := Fs.follow_plain plain
  cases found : before path with
  | none => simp [Fs.append, followed, found]
  | some node => cases node <;> simp [Fs.append, followed, found]

theorem Fs.append_other (plain : ∀ target, before path ≠ some (.link target)) (text : Text) (different : other ≠ path) :
    before.append path text other = before other := by
  rw [Fs.append_plain plain]
  split
  · exact Fs.put_other before _ different
  · rfl

theorem Fs.write_plain (plain : ∀ target, before path ≠ some (.link target)) (landed coming : Text) :
    before.write path landed coming = match before path with
      | some (.file content) => before.put path (.filled (content ++ landed) coming)
      | _ => before := by
  have followed := Fs.follow_plain plain
  cases found : before path with
  | none => simp [Fs.write, followed, found]
  | some node => cases node <;> simp [Fs.write, followed, found]

theorem Fs.write_other (plain : ∀ target, before path ≠ some (.link target)) (landed coming : Text)
    (different : other ≠ path) : before.write path landed coming other = before other := by
  rw [Fs.write_plain plain]
  split
  · exact Fs.put_other before _ different
  · rfl

theorem Fs.rename_other {source target : Path} (renamed : before.rename source target after)
    (fromApart : ¬ source <+: other) (toApart : ¬ target <+: other) : after other = before other := by
  unfold Fs.rename at renamed
  split at renamed
  next => rw [renamed.2]
  next => rw [renamed.1, Fs.move, if_neg toApart, if_neg fromApart]

theorem Fs.remove_other (removed : before.remove path after) (different : other ≠ path) : after other = before other := by
  rw [removed.2.2]
  exact Function.update_of_ne different _ _

end

/-- A path that storing images does not reach. -/
structure Beyond (path : Path) : Prop where
  above : ∀ dir ∈ storageDirs, ¬ dir <+: path
  unlaid : ¬ Laid path

theorem marker_beyond : Beyond updateAttemptFile := by
  refine ⟨?_, ?_⟩
  · exact fun dir stored => marker_not_below stored
  · rintro (blobs | images | ⟨name, extracted⟩)
    · revert blobs
      decide
    · revert images
      decide
    · simp [updateAttemptFile, extractedDir, storageDir, dockerloaderDir] at extracted

/-- Off the entries of the storage directories nothing is done but to create directories. -/
theorem Stores.outside {request : Request} (stores : Stores request) {before after : Machine}
    (linked : Linked before.fs) {reply : Except String request.Value} (served : serves request before reply after)
    {path : Path} (apart : ∀ dir ∈ storageDirs, ∀ name, ¬ dir ++ [name] <+: path) :
    after.fs path = before.fs path ∨
      (Laid path ∧ before.fs path = none ∧ before.fs.hasParent path = true ∧ after.fs path = some .dir) := by
  have ne {dir : Path} (stored : dir ∈ storageDirs) (name : Text) (rest : Path) : path ≠ dir ++ [name] ++ rest := by
    rintro rfl
    exact apart dir stored name (List.prefix_append _ _)
  have flat {dir : Path} (name : Text) (flat : dir = blobsDir ∨ dir = imagesDir) : path ≠ dir ++ [name] := by
    have other := ne (mem_storageDirs flat) name []
    rwa [List.append_nil] at other
  cases reply with
  | error error =>
    refine .inl ?_
    cases stores with
    | writeAll name text flat' =>
      obtain ⟨written, _, disk⟩ := served.1
      rw [disk]
      exact Fs.append_other (flat_plain linked flat' name) _ (flat name flat')
    | read reads => rw [Request.fails_nothing served.1 (by rintro path text rfl; cases reads)]
    | _ => rw [Request.fails_nothing served.1 (by simp)]
  | ok value =>
    have disk := served.1
    cases stores with
    | read reads => exact .inl (by rw [Request.reads_nothing reads disk])
    | @createDir made laid =>
      by_cases here : path = made
      · subst here
        exact Fs.createDir_self disk |>.imp id fun ⟨missing, parent, there⟩ => ⟨laid, missing, parent, there⟩
      · exact .inl (Fs.createDir_other disk here)
    | create name flat' =>
      rw [Fs.create_plain (flat_plain linked flat' name) disk]
      exact .inl (Fs.put_other _ _ (flat name flat'))
    | write name text flat' =>
      obtain ⟨_, _, _, landed, coming, _, disk⟩ := disk
      rw [disk]
      exact .inl (Fs.write_other (flat_plain linked flat' name) landed coming (flat name flat'))
    | writeAll name text flat' =>
      rw [show after.fs = _ from disk]
      exact .inl (Fs.append_other (flat_plain linked flat' name) _ (flat name flat'))
    | @rename dir source target stored => exact .inl (Fs.rename_other disk (apart dir stored source) (apart dir stored target))
    | removeFile name stored =>
      have other := ne stored name []
      rw [List.append_nil] at other
      exact .inl (Fs.remove_other disk.2 other)
    | remove name below stored => exact .inl (Fs.remove_other disk (ne stored name below))
    | unpack name entry =>
      rw [show after.fs = _ from disk]
      exact .inl (Fs.put_other _ _ (ne extracted_stored name _))

theorem Stores.beyond {request : Request} (stores : Stores request) {before after : Machine}
    (linked : Linked before.fs) {reply : Except String request.Value} (served : serves request before reply after)
    {path : Path} (beyond : Beyond path) : after.fs path = before.fs path := by
  apply (stores.outside linked served ?_).resolve_right
  · exact fun laid => beyond.unlaid laid.1
  · exact fun dir stored name below => beyond.above dir stored ((List.prefix_append _ _).trans below)

end Pos2.Loader
