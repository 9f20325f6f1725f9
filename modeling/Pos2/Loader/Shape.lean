import Pos2.Loader.Rounds

/-! What stands where below the loader's directory: which paths are directories,
which are files, and that a link is never there without its directory. -/

namespace Pos2.Loader
open Calls

/-- The directories of the loader, the extracted images included. -/
def Framed (path : Path) : Prop := dockerloaderDir <+: path ∧ Laid path

def Flat (path : Path) : Prop :=
  path = updateAttemptFile ∨ ∃ dir name, (dir = blobsDir ∨ dir = imagesDir) ∧ path = dir ++ [name]

structure Shaped (fs : Fs) : Prop where
  dirs : ∀ path node, Framed path → fs path = some node → node = .dir
  files : ∀ path node, Flat path → fs path = some node → ∃ content coming, node = .filled content coming

/-- A path to one of the storage directories. -/
def Trunk (path : Path) : Prop := ∃ dir ∈ storageDirs, path <+: dir

theorem Laid.length_le {path : Path} (laid : Laid path) : path.length ≤ 6 := by
  rcases laid with blobs | images | ⟨name, extracted⟩
  · have := blobs.length_le
    have : blobsDir.length = 5 := rfl
    omega
  · have := images.length_le
    have : imagesDir.length = 5 := rfl
    omega
  · have := extracted.length_le
    have : (extractedDir ++ [name]).length = 6 := rfl
    omega

private theorem flat_unlaid {dir : Path} (flat : dir = blobsDir ∨ dir = imagesDir) (rest : Path) (name : Text) :
    ¬ Laid (dir ++ name :: rest) := by
  have five := storage_length (mem_storageDirs flat)
  rintro (blobs | images | ⟨other, extracted⟩)
  · have := blobs.length_le
    have : blobsDir.length = 5 := rfl
    simp only [List.length_append, List.length_cons] at *
    omega
  · have := images.length_le
    have : imagesDir.length = 5 := rfl
    simp only [List.length_append, List.length_cons] at *
    omega
  · rcases flat with rfl | rfl <;>
      simp [blobsDir, imagesDir, extractedDir, storageDir, dockerloaderDir] at extracted

theorem Flat.unlaid {path : Path} (flat : Flat path) : ¬ Laid path := by
  rcases flat with rfl | ⟨dir, name, flat, rfl⟩
  · exact marker_beyond.unlaid
  · exact flat_unlaid flat [] name

private theorem switch_apart {path : Path} (switch : path ∈ switches) (rest : Path) :
    ¬ Laid (path ++ rest) ∧ ¬ Flat (path ++ rest) := by
  have apart {later : Path} (laid : Laid later) : ¬ path <+: later := fun below => (laid.above below).other switch
  refine ⟨fun laid => apart laid (List.prefix_append _ _), ?_⟩
  rintro (same | ⟨dir, name, flat, same⟩)
  · have nothing : rest = [] := by
      have lengths := congrArg List.length same
      have : updateAttemptFile.length = 3 := rfl
      rw [List.length_append, switch_length switch] at lengths
      exact List.eq_nil_of_length_eq_zero (by omega)
    rw [nothing, List.append_nil] at same
    rw [same] at switch
    revert switch
    decide
  · have laid : Laid dir := by
      rcases flat with rfl | rfl
      · exact .inl List.prefix_rfl
      · exact .inr (.inl List.prefix_rfl)
    refine apart laid ?_
    have below : path <+: dir ++ [name] := ⟨rest, same⟩
    have three := switch_length switch
    have five := storage_length (mem_storageDirs flat)
    exact List.prefix_of_prefix_length_le below (List.prefix_append _ _) (by omega)

section
variable {before after : Fs} {path : Path}

theorem Shaped.put (shaped : Shaped before) {node : Node} (dir : Framed path → node = .dir)
    (file : Flat path → ∃ content coming, node = .filled content coming) : Shaped (before.put path node) := by
  refine ⟨?_, ?_⟩ <;> intro other found role there <;> by_cases here : other = path
  · rw [here, Fs.put, Function.update_self, Option.some_inj] at there
    exact there ▸ dir (here ▸ role)
  · rw [Fs.put_other _ _ here] at there
    exact shaped.dirs other found role there
  · rw [here, Fs.put, Function.update_self, Option.some_inj] at there
    exact there ▸ file (here ▸ role)
  · rw [Fs.put_other _ _ here] at there
    exact shaped.files other found role there

theorem Shaped.remove (shaped : Shaped before) (removed : before.remove path after) : Shaped after := by
  obtain ⟨_, _, rfl⟩ := removed
  have earlier {other : Path} {node : Node} (there : Function.update before path none other = some node) :
      before other = some node := by
    by_cases here : other = path
    · rw [here, Function.update_self] at there
      cases there
    · rwa [Function.update_of_ne here] at there
  exact ⟨fun other node framed there => shaped.dirs other node framed (earlier there),
    fun other node flat there => shaped.files other node flat (earlier there)⟩

theorem Shaped.rename (shaped : Shaped before) {source target : Path} (renamed : before.rename source target after)
    (framed : ∀ rest, Framed (target ++ rest) → Framed (source ++ rest))
    (flat : ∀ rest, Flat (target ++ rest) → Flat (source ++ rest)) : Shaped after := by
  unfold Fs.rename at renamed
  split at renamed
  next => exact renamed.2 ▸ shaped
  next =>
    have moved (path : Path) (node : Node) (there : after path = some node) :
        before path = some node ∨ ∃ rest, path = target ++ rest ∧ before (source ++ rest) = some node := by
      rw [renamed.1] at there
      unfold Fs.move at there
      split at there
      next below =>
        obtain ⟨rest, rfl⟩ := below
        rw [List.drop_left] at there
        exact .inr ⟨rest, rfl, there⟩
      next =>
        split at there
        · cases there
        · exact .inl there
    refine ⟨?_, ?_⟩ <;> intro path node role there <;> rcases moved path node there with kept | ⟨rest, rfl, came⟩
    · exact shaped.dirs path node role kept
    · exact shaped.dirs _ node (framed rest role) came
    · exact shaped.files path node role kept
    · exact shaped.files _ node (flat rest role) came

theorem Shaped.create (shaped : Shaped before) (flat : Flat path) (plain : ∀ target, before path ≠ some (.link target))
    (created : before.create path = some after) : Shaped after := by
  rw [Fs.create_plain plain created]
  exact shaped.put (fun framed => (flat.unlaid framed.2).elim) fun _ => ⟨[], [], rfl⟩

theorem Shaped.append (shaped : Shaped before) (flat : Flat path) (plain : ∀ target, before path ≠ some (.link target))
    (text : Text) : Shaped (before.append path text) := by
  rw [Fs.append_plain plain]
  split
  · exact shaped.put (fun framed => (flat.unlaid framed.2).elim) fun _ => ⟨_, [], rfl⟩
  · exact shaped

theorem Shaped.write (shaped : Shaped before) (flat : Flat path) (plain : ∀ target, before path ≠ some (.link target))
    (landed coming : Text) : Shaped (before.write path landed coming) := by
  rw [Fs.write_plain plain]
  split
  · exact shaped.put (fun framed => (flat.unlaid framed.2).elim) fun _ => ⟨_, _, rfl⟩
  · exact shaped

theorem Shaped.lands (shaped : Shaped before) (lands : before.Lands after) : Shaped after := by
  refine ⟨?_, ?_⟩ <;> intro path node role there <;> rcases lands path with same | ⟨⟨content, coming, fills⟩, filled⟩
  · exact shaped.dirs path node role (same ▸ there)
  · cases shaped.dirs path _ role fills
  · exact shaped.files path node role (same ▸ there)
  · obtain ⟨later, left, filled⟩ := filled
    rw [filled, Option.some_inj] at there
    exact ⟨later, left, there.symm⟩

theorem Shaped.createDir (shaped : Shaped before) (laid : Laid path) (made : before.createDir path = some after) :
    Shaped after := by
  unfold Fs.createDir at made
  split at made
  · split at made
    · cases made
      exact shaped.put (fun _ => rfl) fun flat => (flat.unlaid laid).elim
    · cases made
  · cases made
    exact shaped
  · cases made

end

theorem flat_entry {dir : Path} (flat : dir = blobsDir ∨ dir = imagesDir) (name : Text) : Flat (dir ++ [name]) :=
  .inr ⟨dir, name, flat, rfl⟩

/-- Entries of one storage directory are of one kind. -/
theorem Shaped.renameStored {before after : Fs} {dir : Path} {source target : Text} (shaped : Shaped before)
    (stored : dir ∈ storageDirs) (renamed : before.rename (dir ++ [source]) (dir ++ [target]) after) : Shaped after := by
  have five := storage_length stored
  have top {rest : Path} (short : (dir ++ [target] ++ rest).length ≤ 6) : rest = [] := by
    simp only [List.length_append, List.length_cons, List.length_nil] at short
    exact List.eq_nil_of_length_eq_zero (by omega)
  apply shaped.rename renamed
  · rintro rest ⟨own, laid⟩
    cases top laid.length_le
    rw [List.append_nil] at laid ⊢
    have extracted : dir = extractedDir := by
      simp only [storageDirs, List.mem_cons, List.not_mem_nil, or_false] at stored
      rcases stored with rfl | rfl | rfl
      · exact (flat_unlaid (.inl rfl) [] target laid).elim
      · exact (flat_unlaid (.inr rfl) [] target laid).elim
      · rfl
    rw [extracted]
    exact ⟨(storage_own extracted_stored).trans (List.prefix_append _ _), .inr (.inr ⟨source, List.prefix_rfl⟩)⟩
  · rintro rest (same | ⟨other, name, flat, same⟩)
    · have lengths := congrArg List.length same
      have : updateAttemptFile.length = 3 := rfl
      simp only [List.length_append, List.length_cons, List.length_nil] at lengths
      omega
    · have short : (dir ++ [target] ++ rest).length ≤ 6 := by
        rw [same, List.length_append, storage_length (mem_storageDirs flat)]
        exact Nat.le_refl _
      cases top short
      rw [List.append_nil] at same ⊢
      obtain ⟨rfl, _⟩ := List.append_inj' same rfl
      exact flat_entry flat source

private theorem Shaped.renameSwitch {before after : Fs} {source target : Path} (shaped : Shaped before)
    (switch : target ∈ switches) (renamed : before.rename source target after) : Shaped after :=
  shaped.rename renamed (fun rest framed => ((switch_apart switch rest).1 framed.2).elim)
    fun rest flat => ((switch_apart switch rest).2 flat).elim

theorem Stores.shaped {request : Request} (stores : Stores request) {before after : Machine} (linked : Linked before.fs)
    (shaped : Shaped before.fs) {reply : Except String request.Value} (served : serves request before reply after) :
    Shaped after.fs := by
  cases reply with
  | error error =>
    cases stores with
    | writeAll name text flat =>
      obtain ⟨written, _, disk⟩ := served.1
      rw [disk]
      exact shaped.append (flat_entry flat name) (flat_plain linked flat name) _
    | read reads =>
      rw [Request.fails_nothing served.1 (by rintro path text rfl; cases reads)]
      exact shaped
    | _ =>
      rw [Request.fails_nothing served.1 (by simp)]
      exact shaped
  | ok value =>
    have disk := served.1
    cases stores with
    | read reads =>
      rw [Request.reads_nothing reads disk]
      exact shaped
    | createDir laid => exact shaped.createDir laid disk
    | create name flat => exact shaped.create (flat_entry flat name) (flat_plain linked flat name) disk
    | write name text flat =>
      obtain ⟨_, _, _, landed, coming, _, disk⟩ := disk
      rw [disk]
      exact shaped.write (flat_entry flat name) (flat_plain linked flat name) landed coming
    | writeAll name text flat =>
      rw [show after.fs = _ from disk]
      exact shaped.append (flat_entry flat name) (flat_plain linked flat name) _
    | rename source target stored => exact shaped.renameStored stored disk
    | removeFile name stored => exact shaped.remove disk.2
    | remove name below stored => exact shaped.remove disk
    | unpack name entry =>
      rw [show after.fs = _ from disk]
      have long : 6 < (extractedDir ++ [name] ++ entry.name :: entry.below).length := by
        have : extractedDir.length = 5 := rfl
        simp only [List.length_append, List.length_cons, List.length_nil]
        omega
      refine shaped.put (fun framed => ?_) fun flat => ?_
      · have := framed.2.length_le
        omega
      · rcases flat with same | ⟨dir, other, flat, same⟩
        · rw [same] at long
          exact absurd long (by decide)
        · rw [same, List.length_append, storage_length (mem_storageDirs flat)] at long
          exact (Nat.lt_irrefl _ long).elim

theorem Trunk.apart {path : Path} (trunk : Trunk path) (dir : Path) (stored : dir ∈ storageDirs) (name : Text) :
    ¬ dir ++ [name] <+: path := by
  intro below
  obtain ⟨root, rooted, short⟩ := trunk
  have deep := (below.trans short).length_le
  rw [List.length_append, storage_length stored, storage_length rooted] at deep
  exact Nat.not_succ_le_self _ deep

/-- The directories on the way to the storage stay. -/
theorem Stores.trunk {request : Request} (stores : Stores request) {before after : Machine} (linked : Linked before.fs)
    {reply : Except String request.Value} (served : serves request before reply after) {path : Path} (trunk : Trunk path)
    (there : before.fs path = some .dir) : after.fs path = some .dir := by
  rcases stores.outside linked served trunk.apart with same | ⟨_, missing, _⟩
  · exact same.trans there
  · rw [there] at missing
    cases missing

theorem home_trunk : Trunk dockerloaderDir := ⟨blobsDir, blobs_stored, storage_own blobs_stored⟩

theorem volume_trunk : Trunk ["data".toList] := ⟨blobsDir, blobs_stored, List.prefix_append _ _⟩

/-- The loader's directory stands where anything goes by the links. -/
structure Housed (machine : Machine) : Prop where
  shaped : Shaped machine.fs
  volume : machine.fs dockerloaderDir = some .dir → machine.fs ["data".toList] = some .dir
  home : (machine.child ≠ .none ∨ ∃ path ∈ switches, machine.fs path ≠ none) → machine.fs dockerloaderDir = some .dir

section
variable {before after : Machine} {request : Request} {reply : Except String request.Value}

theorem Stores.housed (stores : Stores request) (linked : Linked before.fs) (housed : Housed before)
    (served : serves request before reply after) : Housed after := by
  obtain ⟨untouched, child⟩ := stores.keeps linked served
  have stays := fun {path} (trunk : Trunk path) => stores.trunk linked served trunk
  refine ⟨stores.shaped linked housed.shaped served, ?_, ?_⟩
  · intro there
    rcases stores.outside linked served home_trunk.apart with same | ⟨_, _, parent, _⟩
    · exact stays volume_trunk (housed.volume (same ▸ there))
    · apply stays volume_trunk
      simpa [Fs.hasParent, dockerloaderDir] using parent
  · intro used
    apply stays home_trunk
    apply housed.home
    refine used.imp (fun alive => child ▸ alive) ?_
    rintro ⟨path, switch, there⟩
    exact ⟨path, switch, untouched.links path switch ▸ there⟩

theorem Trunk.laid {path : Path} (trunk : Trunk path) : Laid path := by
  obtain ⟨dir, stored, below⟩ := trunk
  simp only [storageDirs, List.mem_cons, List.not_mem_nil, or_false] at stored
  rcases stored with rfl | rfl | rfl
  · exact .inl below
  · exact .inr (.inl below)
  · exact .inr (.inr ⟨[], below.trans (List.prefix_append _ _)⟩)

private theorem Trunk.not_below {path switch : Path} (trunk : Trunk path) (member : switch ∈ switches) :
    ¬ switch <+: path :=
  fun below => (trunk.laid.above below).other member

private theorem Trunk.ne_marker {path : Path} (trunk : Trunk path) : path ≠ updateAttemptFile := by
  rintro rfl
  exact marker_beyond.unlaid trunk.laid

/-- A step on the links or the marker. -/
theorem Housed.off (housed : Housed before) (shaped : Shaped after.fs)
    (trunk : ∀ path, Trunk path → after.fs path = before.fs path)
    (used : (after.child ≠ .none ∨ ∃ path ∈ switches, after.fs path ≠ none) → before.fs dockerloaderDir = some .dir) :
    Housed after := by
  refine ⟨shaped, ?_, ?_⟩
  · intro there
    rw [trunk _ home_trunk] at there
    rw [trunk _ volume_trunk]
    exact housed.volume there
  · intro busy
    rw [trunk _ home_trunk]
    exact used busy

theorem Housed.rename {source target : Path} (housed : Housed before) (first : source ∈ switches)
    (second : target ∈ switches) (renamed : before.fs.rename source target after.fs)
    (home : before.fs dockerloaderDir = some .dir) : Housed after := by
  refine housed.off (housed.shaped.renameSwitch second renamed) (fun path trunk => ?_) fun _ => home
  exact Fs.rename_other renamed (trunk.not_below first) (trunk.not_below second)

theorem Housed.removed {path : Path} (housed : Housed before) (off : path ∈ switches ∨ path = updateAttemptFile)
    (removed : before.fs.remove path after.fs) (home : before.fs dockerloaderDir = some .dir) : Housed after := by
  refine housed.off (housed.shaped.remove removed) (fun other trunk => Fs.remove_other removed ?_) fun _ => home
  rintro rfl
  rcases off with switch | rfl
  · exact trunk.not_below switch List.prefix_rfl
  · exact trunk.ne_marker rfl

theorem Housed.symlink {path : Path} {sha : Text} (housed : Housed before) (linked : Linked before.fs)
    (switch : path ∈ switches) (made : before.fs.symlink (.absolute (entrypointOf sha)) path = some after.fs) :
    Housed after := by
  have parent : before.fs.hasParent path = true := by
    unfold Fs.symlink at made
    split at made
    next free => exact free.2
    next => cases made
  have home : before.fs dockerloaderDir = some .dir := by
    simp only [switches, List.mem_cons, List.not_mem_nil, or_false] at switch
    rcases switch with rfl | rfl | rfl | rfl <;>
      simpa [Fs.hasParent, entrypointPath, entrypointAttemptPath, entrypointAttemptingPath, tmpSymlink,
        dockerloaderDir] using parent
  obtain ⟨_, disk, _⟩ := linked.symlink switch made
  rw [disk] at made
  refine housed.off ?_ (fun other trunk => ?_) fun _ => home
  · rw [disk]
    have apart := switch_apart switch []
    rw [List.append_nil] at apart
    exact housed.shaped.put (fun framed => (apart.1 framed.2).elim) fun flat => (apart.2 flat).elim
  · rw [disk]
    refine Fs.put_other _ _ ?_
    rintro rfl
    exact trunk.not_below switch List.prefix_rfl

theorem Housed.same (housed : Housed before) (disk : after.fs = before.fs)
    (home : after.child ≠ .none → before.fs dockerloaderDir = some .dir) : Housed after := by
  refine housed.off (disk ▸ housed.shaped) (fun _ _ => by rw [disk]) ?_
  rw [disk]
  rintro (alive | there)
  · exact home alive
  · exact housed.home (.inr there)

/-- What has been written arrives. -/
theorem Housed.lands {fs : Fs} (housed : Housed before) (lands : before.fs.Lands fs) :
    Housed { before with fs } := by
  have dir {path : Path} : fs path = some .dir ↔ before.fs path = some .dir := by
    rcases lands path with same | ⟨⟨content, coming, fills⟩, later, left, filled⟩
    · exact same ▸ Iff.rfl
    · rw [fills, filled, Option.some_inj, Option.some_inj]
      exact ⟨fun impossible => (Node.filled_ne_dir later left impossible).elim, nofun⟩
  refine ⟨housed.shaped.lands lands, fun there => dir.mpr (housed.volume (dir.mp there)), fun used => ?_⟩
  refine dir.mpr (housed.home (used.imp id ?_))
  rintro ⟨path, switch, there⟩
  exact ⟨path, switch, mt (lands.none_iff path).mpr there⟩

theorem Updates.housed {self : Process} (updates : Updates self request) (linked : Linked before.fs)
    (alive : before.child = .running self) (housed : Housed before) (served : serves request before reply after) :
    Housed after := by
  have home : before.fs dockerloaderDir = some .dir := housed.home (.inl (by simp [alive]))
  have nothing (failed : request.Fails before.fs after.fs) (other : ∀ path text, request ≠ .writeAll path text) :
      Housed after := housed.same (Request.fails_nothing failed other) fun _ => home
  have written (text : Text) (disk : after.fs = before.fs.append updateAttemptFile text) : Housed after := by
    refine housed.off ?_ (fun path trunk => ?_) fun _ => home <;> rw [disk]
    · exact housed.shaped.append (.inl rfl) linked.updateAttempt_plain text
    · exact Fs.append_other linked.updateAttempt_plain text trunk.ne_marker
  match updates, reply, served with
  | .store stores, _, served => exact stores.housed linked housed served
  | .write _, .error _, ⟨⟨text, _, disk⟩, _⟩ => exact written text disk
  | .write text, .ok _, ⟨disk, _⟩ => exact written text disk
  | .mark, .error _, ⟨failed, _⟩ | .unmark, .error _, ⟨failed, _⟩ | .link _, .error _, ⟨failed, _⟩
  | .unlink, .error _, ⟨failed, _⟩ | .attempt, .error _, ⟨failed, _⟩ | .commit _, .error _, ⟨failed, _⟩ =>
    exact nothing failed (by simp)
  | .exit _, .error _, ⟨impossible, _⟩ => exact impossible.elim
  | .mark, .ok _, ⟨disk, _⟩ =>
    refine housed.off (housed.shaped.create (.inl rfl) linked.updateAttempt_plain disk) (fun path trunk => ?_) fun _ => home
    rw [Fs.create_plain linked.updateAttempt_plain disk]
    exact Fs.put_other _ _ trunk.ne_marker
  | .unmark, .ok _, ⟨disk, _⟩ => exact housed.removed (.inr rfl) disk.2 home
  | .link sha, .ok _, ⟨disk, _⟩ => exact housed.symlink linked (by decide) disk
  | .unlink, .ok _, ⟨disk, _⟩ => exact housed.removed (.inl (by decide)) disk.2 home
  | .attempt, .ok _, ⟨disk, _⟩ => exact housed.rename (by decide) (by decide) disk home
  | .commit trial, .ok _, ⟨disk, _⟩ => exact housed.rename (by decide) (by decide) disk home

theorem Prepares.housed (prepares : Prepares request) (linked : Linked before.fs) (housed : Housed before)
    (quiet : before.child = .none) (served : serves request before reply after) : Housed after := by
  match prepares, reply, served with
  | .store stores, _, served => exact stores.housed linked housed served
  | .link sha, .error _, ⟨failed, child⟩ =>
    refine housed.same (Request.fails_nothing failed (by simp)) fun alive => ?_
    rw [child, quiet] at alive
    exact (alive rfl).elim
  | .link sha, .ok _, ⟨disk, _⟩ => exact housed.symlink linked (by decide) disk

theorem Transition.housed {round : Round} {supervisor : Loads Verdict} (linked : Linked before.fs) (housed : Housed before)
    (transition : Transition round before supervisor after) : Housed after := by
  have spawned {path : Path} {trial : Bool} {app : Process} (switch : path ∈ switches)
      (spawned : Spawned before.fs path trial app) : Housed { before with child := .running app } := by
    refine housed.same rfl fun _ => housed.home (.inr ⟨path, switch, ?_⟩)
    rw [spawned.2.1]
    exact nofun
  cases transition with
  | fails | finds | findsNone | timesOut | stands | gone | killFails => exact housed
  | takes renamed =>
    obtain ⟨passed, _⟩ := linked.rename (by decide) (by decide) (by decide) renamed
    exact housed.rename (by decide) (by decide) renamed (housed.home (.inr ⟨_, by decide, passed.there⟩))
  | spawnsTrial new => exact spawned (by decide) new
  | spawns new => exact spawned (by decide) new
  | reaps | kills => exact housed.same rfl fun impossible => (impossible rfl).elim

end

section
variable {formats : Formats} {world after : World} {event : Event}

theorem Housed.step (holds : world.Holds) (phase : Phase world.supervisor world.machine) (housed : Housed world.machine)
    (step : Step formats world event after) : Housed after.machine := by
  have whole := step
  have linked := holds.valid.linked
  cases step with
  | supervisor reply served =>
    cases phase with
    | prepares uses quiet => exact uses.1.housed linked housed quiet served
    | loops round here => exact (whole.transition linked here).2.1.housed linked housed
    | ended verdict here => cases here
  | round | start => exact housed
  | @task machine after supervisor tasks app request next i reply alive waiting served =>
    have uses := holds.tasks app alive i
    dsimp only at uses
    rw [waiting] at uses
    exact uses.1.housed linked alive housed served
  | exit code alive => exact housed.same rfl fun _ => housed.home (.inl (by simp [alive]))
  | arrives arrived => exact housed.lands arrived.lands
  | restart => exact housed.same rfl fun impossible => (impossible rfl).elim

private theorem initial_housed {disk : Fs} (fresh : Fresh disk) : Housed (World.initial formats disk).machine := by
  have missing {path : Path} (own : dockerloaderDir <+: path) : disk path = none := fresh path own
  refine ⟨⟨?_, ?_⟩, ?_, ?_⟩
  · intro path node framed there
    have gone : disk path = some node := there
    rw [missing framed.1] at gone
    cases gone
  · intro path node flat there
    have own : dockerloaderDir <+: path := by
      rcases flat with rfl | ⟨dir, name, flat, rfl⟩
      · exact List.prefix_append _ _
      · exact (storage_own (mem_storageDirs flat)).trans (List.prefix_append _ _)
    have gone : disk path = some node := there
    rw [missing own] at gone
    cases gone
  · intro there
    have gone : disk dockerloaderDir = some .dir := there
    rw [missing List.prefix_rfl] at gone
    cases gone
  · rintro (impossible | ⟨path, switch, there⟩)
    · exact (impossible rfl).elim
    · exact (there (missing (switch_own switch))).elim

theorem World.Reachable.housed (reachable : world.Reachable formats) : Housed world.machine := by
  obtain ⟨disk, fresh, run⟩ := reachable
  induction run with
  | refl => exact initial_housed fresh
  | tail run move before =>
    obtain ⟨event, step, _⟩ := move
    obtain ⟨holds, phase⟩ := World.Reachable.phase ⟨disk, fresh, run⟩
    exact before.step holds phase step

end
end Pos2.Loader
