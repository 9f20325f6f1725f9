import Mathlib.Data.List.Induction
import Pos2.Calls.Total
import Pos2.Loader.Shape

/-! Downloading and extracting where nothing is in the way: no call fails that can
succeed, the registry answers, every write takes its whole chunk, and what is on
its way to a file has got there when the file is renamed. -/

namespace Pos2.Loader
open Calls

/-- What a registry holds as long as it does not change. -/
structure Registry where
  manifests : Reference → Manifest × Text
  blobs : Text → Text

def Registry.Answers (registry : Registry) : (request : Request) → Except String request.Value → Prop
  | .pullManifest reference, reply => reply = .ok (registry.manifests reference)
  | .pullBlobStream _ digest, reply =>
    ∃ chunks : List Text, reply = .ok (chunks.map .ok) ∧ chunks.flatten = registry.blobs digest
  | .write _ text, reply => ∀ written, reply = .ok written → written = text.length
  | _, _ => True

/-- All that is on its way to a file has got there. -/
def Fs.landed (fs : Fs) (path : Path) : Fs :=
  match fs path with
  | some (.filling content coming) => fs.put path (.file (content ++ coming))
  | _ => fs

/-- A file is whole by the next write to it, and by the time it is renamed. Nobody looks at it before. -/
def Machine.arrived (machine : Machine) : Request → Machine
  | .write path _ | .rename path _ => { machine with fs := machine.fs.landed path }
  | _ => machine

/-- A disk on which the loader has its directory. -/
structure Settled (fs : Fs) : Prop where
  linked : Linked fs
  shaped : Shaped fs
  home : fs dockerloaderDir = some .dir
  volume : fs ["data".toList] = some .dir

/-- What has been done leaves everything else as it was. -/
structure Wrote (area : Path → Prop) (before after : Machine) : Prop where
  settled : Settled after.fs
  child : after.child = before.child
  kept : ∀ path, ¬ area path → after.fs path = before.fs path

section
variable {registry : Registry} {before middle after state : Machine} {area wider : Path → Prop} {request : Request}

theorem Wrote.trans (first : Wrote area before middle) (second : Wrote area middle after) : Wrote area before after where
  settled := second.settled
  child := second.child.trans first.child
  kept := fun path apart => (second.kept path apart).trans (first.kept path apart)

theorem Wrote.mono (wrote : Wrote area before after) (implies : ∀ path, area path → wider path) :
    Wrote wider before after where
  settled := wrote.settled
  child := wrote.child
  kept := fun path apart => wrote.kept path fun inside => apart (implies path inside)

theorem Wrote.refl (settled : Settled before.fs) : Wrote area before before := ⟨settled, rfl, fun _ _ => rfl⟩

theorem Stores.settled {reply : Except String request.Value} (stores : Stores request) (settled : Settled before.fs)
    (served : serves request before reply after) : Settled after.fs where
  linked := settled.linked.untouched (stores.keeps settled.linked served).1
  shaped := stores.shaped settled.linked settled.shaped served
  home := stores.trunk settled.linked served home_trunk settled.home
  volume := stores.trunk settled.linked served volume_trunk settled.volume

theorem Stores.wrote {reply : Except String request.Value} (stores : Stores request) (settled : Settled before.fs)
    (served : serves request before reply after) (kept : ∀ path, ¬ area path → after.fs path = before.fs path) :
    Wrote area before after :=
  ⟨stores.settled settled served, (stores.keeps settled.linked served).2, kept⟩

theorem Fs.landed_whole {fs : Fs} {path : Path} (whole : ∀ content coming, fs path ≠ some (.filling content coming)) :
    fs.landed path = fs := by
  unfold Fs.landed
  split
  next content coming fills => exact (whole content coming fills).elim
  next => rfl

theorem Fs.landed_lands (fs : Fs) (path : Path) : fs.Lands (fs.landed path) := by
  unfold Fs.landed
  split
  next content coming fills =>
    intro other
    by_cases here : other = path
    · subst here
      exact .inr ⟨⟨content, coming, fills⟩, content ++ coming, [], Function.update_self ..⟩
    · exact .inl (Fs.put_other _ _ here)
  next => exact .refl fs

theorem Fs.landed_other (fs : Fs) {path other : Path} (different : other ≠ path) : fs.landed path other = fs other := by
  unfold Fs.landed
  cases fs path with
  | none => rfl
  | some node =>
    cases node with
    | filling content coming => exact Fs.put_other _ _ different
    | _ => rfl

theorem Settled.lands {fs later : Fs} (settled : Settled fs) (lands : fs.Lands later) : Settled later where
  linked := settled.linked.untouched (settled.linked.lands lands)
  shaped := settled.shaped.lands lands
  home := (lands.other settled.home nofun).trans settled.home
  volume := (lands.other settled.volume nofun).trans settled.volume

theorem Machine.arrived_reads {request : Request} (reads : request.reads = true) : state.arrived request = state := by
  cases request with
  | write | rename => cases reads
  | _ => rfl

theorem createDirAll_snoc (path : Path) (name : Text) :
    createDirAll (path ++ [name]) = createDirAll path >>= fun _ => ask (.createDir (path ++ [name])) := by
  have last : (path ++ [name]).inits.tail = path.inits.tail ++ [path ++ [name]] := by
    cases path <;> simp [List.inits_append]
  rw [createDirAll, last]
  simp [createDirAll, List.forM_append]

theorem Laid.framed {path : Path} (laid : Laid path) (long : 2 ≤ path.length) : Framed path := by
  refine ⟨?_, laid⟩
  have shorter : dockerloaderDir.length ≤ path.length := long
  have own (stored : Path) (member : stored ∈ storageDirs) := storage_own member
  rcases laid with blobs | images | ⟨name, extracted⟩
  · exact List.prefix_of_prefix_length_le (own blobsDir blobs_stored) blobs shorter
  · exact List.prefix_of_prefix_length_le (own imagesDir images_stored) images shorter
  · exact List.prefix_of_prefix_length_le ((own extractedDir extracted_stored).trans (List.prefix_append _ _))
      extracted shorter

theorem Settled.laid (settled : Settled state.fs) {path : Path} (laid : Laid path) (there : path ≠ []) :
    state.fs path = none ∨ state.fs path = some .dir := by
  by_cases long : 2 ≤ path.length
  · cases found : state.fs path with
    | none => exact .inl rfl
    | some node => exact .inr (congrArg some (settled.shaped.dirs path node (laid.framed long) found))
  · refine .inr ?_
    have first : path = ["data".toList] := by
      obtain ⟨name, rest, rfl⟩ := List.exists_cons_of_ne_nil there
      have nothing : rest = [] := by
        apply List.eq_nil_of_length_eq_zero
        simp only [List.length_cons] at long
        omega
      subst nothing
      rcases laid with blobs | images | ⟨other, extracted⟩
      · exact congrArg (· :: []) (List.cons_prefix_cons.mp blobs).1
      · exact congrArg (· :: []) (List.cons_prefix_cons.mp images).1
      · exact congrArg (· :: []) (List.cons_prefix_cons.mp extracted).1
    rw [first]
    exact settled.volume

theorem Machine.eq_of {before after : Machine} (disk : after.fs = before.fs) (child : after.child = before.child) :
    after = before := by
  cases after
  cases disk
  cases child
  rfl

/-- Names that come from a registry are none of the loader's own. -/
def Digest (name : Text) : Prop := ¬ "tmp-".toList <+: name ∧ ¬ "removing-".toList <+: name

section
variable {dir : Path} {name : Text}

theorem Settled.put (settled : Settled state.fs) (flat : dir = blobsDir ∨ dir = imagesDir) (name text coming : Text) :
    Settled (state.fs.put (dir ++ [name]) (.filled text coming)) := by
  have stored := mem_storageDirs flat
  have trunk {path : Path} (trunk : Trunk path) : path ≠ dir ++ [name] := by
    rintro rfl
    exact trunk.apart dir stored name List.prefix_rfl
  refine ⟨?_, ?_, ?_, ?_⟩
  · exact settled.linked.untouched (.put (switch_not_below stored (List.prefix_append _ _))
      (.inl (Node.filled_ne_link text coming)) (.inr (stored_ne_marker stored _)))
  · refine settled.shaped.put (fun framed => ?_) fun _ => ⟨text, coming, rfl⟩
    exact ((flat_entry flat name).unlaid framed.2).elim
  · exact (Fs.put_other _ _ (trunk home_trunk)).trans settled.home
  · exact (Fs.put_other _ _ (trunk volume_trunk)).trans settled.volume

/-- A file on its way: some of the text is in it, and the rest is coming. -/
def Written (start : Machine) (path : Path) (text : Text) (state : Machine) : Prop :=
  ∃ content coming, content ++ coming = text ∧ state = { start with fs := start.fs.put path (.filled content coming) }

theorem entries_apart (dir : Path) {first second : Text} (different : first ≠ second) :
    ¬ dir ++ [first] <+: dir ++ [second] := by
  intro below
  have same := below.eq_of_length (by simp)
  exact different (List.cons.inj (List.append_cancel_left same)).1

theorem entry_off_trunk (dir : Path) (name : Text) : ¬ dir ++ [name] <+: dir := by
  intro below
  have := below.length_le
  rw [List.length_append, List.length_singleton] at this
  omega

theorem Fs.exists_plain {fs : Fs} {path : Path} (plain : ∀ target, fs path ≠ some (.link target)) :
    fs.exists_ path = (fs path).isSome := by
  rw [Fs.exists_, Fs.follow_plain plain, Option.bind_some]

/-- A reference leads to an image, at once or through an index. -/
def Registry.Resolves (registry : Registry) (reference final : Reference) (manifest : ImageManifest) (version : Text) : Prop :=
  registry.manifests final = (.image manifest, version) ∧ (final = reference ∨
    ∃ digest sha, registry.manifests reference = (.index (some digest), sha) ∧ final = { reference with digest := some digest })

variable {formats : Formats} {reference final : Reference} {manifest : ImageManifest} {version : Text}

theorem storage_apart {first second path : Path} (one : first ∈ storageDirs) (other : second ∈ storageDirs)
    (different : first ≠ second) (below : first <+: path) : ¬ second <+: path := by
  intro below'
  have lengths : first.length = second.length := (storage_length one).trans (storage_length other).symm
  exact different ((List.prefix_of_prefix_length_le below below' lengths.le).eq_of_length lengths)

def Under (dir path : Path) : Prop := dir <+: path ∧ path ≠ dir

end
end
end Pos2.Loader
