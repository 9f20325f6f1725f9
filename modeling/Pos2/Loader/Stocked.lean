import Pos2.Loader.Crashes

/-! What the storage holds between any two calls, and the calls that keep it because
they change nothing that is stored under a digest, or one entry only. -/

namespace Pos2.Loader
open Calls

/-- What is stored under a digest is what the digest stands for. Of a torn image there
are parts. The layers that an image lists are there, as far as that is asked for. -/
structure Stocked (formats : Formats) (contents : Contents) (listed : Prop) (torn : List Text) (fs : Fs) : Prop where
  linked : Linked fs
  images : ∀ sha, Digest sha → fs (imagesDir ++ [sha]) ≠ none →
    fs (imagesDir ++ [sha]) = some (.file (formats.toJson (contents.image sha)))
  layers : listed → ∀ sha, Digest sha → fs (imagesDir ++ [sha]) ≠ none → ∀ layer ∈ (contents.image sha).layers,
    fs (blobsDir ++ [layer]) = some (.file (contents.blob layer))
  blobs : ∀ layer, Digest layer → fs (blobsDir ++ [layer]) ≠ none →
    fs (blobsDir ++ [layer]) = some (.file (contents.blob layer))
  trees : ∀ sha, Digest sha → sha ∉ torn → fs (extractedDir ++ [sha]) ≠ none →
    Extracted formats contents fs sha (extractedDir ++ [sha])
  parts : ∀ sha, Digest sha → ∀ rest, fs (extractedDir ++ [sha] ++ rest) ≠ none →
    fs (extractedDir ++ [sha] ++ rest) = unpacked formats contents sha rest
  rooted : ∀ sha, Digest sha → sha ∈ torn → fs (extractedDir ++ [sha]) ≠ none

/-- A path at or below an entry that goes by a digest. -/
def Stands (path : Path) : Prop := ∃ dir ∈ storageDirs, ∃ name, Digest name ∧ dir ++ [name] <+: path

section
variable {path dir : Path} {name : Text}

theorem Digest.stands (digest : Digest name) (stored : dir ∈ storageDirs) (rest : Path) : Stands (dir ++ [name] ++ rest) :=
  ⟨dir, stored, name, digest, List.prefix_append _ _⟩

theorem Digest.entry_stands (digest : Digest name) (stored : dir ∈ storageDirs) : Stands (dir ++ [name]) :=
  ⟨dir, stored, name, digest, List.prefix_rfl⟩

/-- The directories of the storage, and the entries of each, are apart. -/
theorem entry_unique {first second : Path} {one other : Text} (stored : first ∈ storageDirs) (stored' : second ∈ storageDirs)
    (here : first ++ [one] <+: path) (too : second ++ [other] <+: path) : first = second ∧ one = other := by
  have lengths : (first ++ [one]).length = (second ++ [other]).length := by
    rw [List.length_append, List.length_append, storage_length stored, storage_length stored']
    rfl
  have same := (List.prefix_of_prefix_length_le here too lengths.le).eq_of_length lengths
  obtain ⟨dirs, names⟩ := List.append_inj' same rfl
  injection names with names
  exact ⟨dirs, names⟩

theorem Trunk.not_stands (trunk : Trunk path) : ¬ Stands path := by
  intro ⟨dir, stored, name, _, below⟩
  exact trunk.apart dir stored name below

theorem entry_not_stands (stored : dir ∈ storageDirs) (temporary : ¬ Digest name) (below : dir ++ [name] <+: path) :
    ¬ Stands path := by
  intro ⟨other, stored', found, digest, below'⟩
  obtain ⟨_, rfl⟩ := entry_unique stored stored' below below'
  exact temporary digest

theorem tmp_temporary (uuid : Text) : ¬ Digest (tmpName uuid) := fun digest => digest.1 (List.prefix_append _ _)

theorem removing_temporary (trimmed : Text) : ¬ Digest (removingName trimmed) :=
  fun digest => digest.2 (List.prefix_append _ _)

end

section
variable {formats : Formats} {contents : Contents} {listed : Prop} {torn torn' : List Text} {before after : Fs}

theorem Stocked.imaged (stocked : Stocked formats contents True torn before) {sha : Text} (digest : Digest sha)
    (there : before (imagesDir ++ [sha]) ≠ none) : Imaged formats contents before sha :=
  ⟨stocked.images sha digest there, stocked.layers trivial sha digest there⟩

/-- Only one entry changes. -/
theorem Stocked.but (stocked : Stocked formats contents listed torn before) (proper : contents.Proper formats)
    (linked : Linked after) {dir : Path} {name : Text} (stored : dir ∈ storageDirs)
    (same : ∀ path, Stands path → ¬ dir ++ [name] <+: path → after path = before path)
    (tears : ∀ sha, ¬ (dir = extractedDir ∧ sha = name) → (sha ∈ torn ↔ sha ∈ torn'))
    (image : dir = imagesDir → after (imagesDir ++ [name]) ≠ none →
      after (imagesDir ++ [name]) = some (.file (formats.toJson (contents.image name))) ∧
        (listed → ∀ layer ∈ (contents.image name).layers, after (blobsDir ++ [layer]) = some (.file (contents.blob layer))))
    (blob : dir = blobsDir → after (blobsDir ++ [name]) ≠ some (.file (contents.blob name)) →
      after (blobsDir ++ [name]) = none ∧
        (listed → ∀ sha, Digest sha → before (imagesDir ++ [sha]) ≠ none → name ∉ (contents.image sha).layers))
    (tree : dir = extractedDir → Digest name → (name ∉ torn' → after (extractedDir ++ [name]) ≠ none →
      Extracted formats contents after name (extractedDir ++ [name])) ∧
      (∀ rest, after (extractedDir ++ [name] ++ rest) ≠ none →
        after (extractedDir ++ [name] ++ rest) = unpacked formats contents name rest) ∧
      (name ∈ torn' → after (extractedDir ++ [name]) ≠ none)) : Stocked formats contents listed torn' after := by
  have kept {other : Path} {entry : Text} (stored' : other ∈ storageDirs) (digest : Digest entry)
      (apart : ¬ (dir = other ∧ name = entry)) (rest : Path) :
      after (other ++ [entry] ++ rest) = before (other ++ [entry] ++ rest) :=
    same _ (digest.stands stored' rest) fun below => apart (entry_unique stored stored' below (List.prefix_append _ _))
  have at_ {other : Path} {entry : Text} (stored' : other ∈ storageDirs) (digest : Digest entry)
      (apart : ¬ (dir = other ∧ name = entry)) : after (other ++ [entry]) = before (other ++ [entry]) := by
    simpa using kept stored' digest apart []
  have still {sha : Text} (apart : ¬ (dir = extractedDir ∧ name = sha)) : sha ∈ torn ↔ sha ∈ torn' :=
    tears sha fun here => apart ⟨here.1, here.2.symm⟩
  refine ⟨linked, ?_, ?_, ?_, ?_, ?_, ?_⟩
  · intro sha digest there
    by_cases here : dir = imagesDir ∧ name = sha
    · obtain ⟨rfl, rfl⟩ := here
      exact (image rfl there).1
    · have manifest := at_ images_stored digest here
      rw [manifest] at there
      exact manifest.trans (stocked.images sha digest there)
  · intro asked sha digest there layer member
    by_cases here : dir = imagesDir ∧ name = sha
    · obtain ⟨rfl, rfl⟩ := here
      exact (image rfl there).2 asked layer member
    · rw [at_ images_stored digest here] at there
      by_cases changed : dir = blobsDir ∧ name = layer
      · obtain ⟨rfl, rfl⟩ := changed
        by_contra missing
        exact (blob rfl missing).2 asked sha digest there member
      · have same := at_ blobs_stored (proper.digests sha layer member) changed
        exact same.trans (stocked.layers asked sha digest there layer member)
  · intro layer digest there
    by_cases changed : dir = blobsDir ∧ name = layer
    · obtain ⟨rfl, rfl⟩ := changed
      by_contra missing
      exact there (blob rfl missing).1
    · have same := at_ blobs_stored digest changed
      rw [same] at there ⊢
      exact stocked.blobs layer digest there
  · intro sha digest untorn there
    by_cases changed : dir = extractedDir ∧ name = sha
    · obtain ⟨rfl, rfl⟩ := changed
      exact (tree rfl digest).1 untorn there
    · rw [at_ extracted_stored digest changed] at there
      intro rest
      rw [kept extracted_stored digest changed rest]
      exact stocked.trees sha digest (mt (still changed).mp untorn) there rest
  · intro sha digest rest there
    by_cases changed : dir = extractedDir ∧ name = sha
    · obtain ⟨rfl, rfl⟩ := changed
      exact (tree rfl digest).2.1 rest there
    · have same := kept extracted_stored digest changed rest
      rw [same] at there ⊢
      exact stocked.parts sha digest rest there
  · intro sha digest member
    by_cases changed : dir = extractedDir ∧ name = sha
    · obtain ⟨rfl, rfl⟩ := changed
      exact (tree rfl digest).2.2 member
    · rw [at_ extracted_stored digest changed]
      exact stocked.rooted sha digest ((still changed).mpr member)

/-- Nothing changes under any digest. -/
theorem Stocked.beside (stocked : Stocked formats contents listed torn before) (proper : contents.Proper formats)
    (linked : Linked after) (same : ∀ path, Stands path → after path = before path)
    (tears : ∀ sha, Digest sha → (sha ∈ torn ↔ sha ∈ torn')) : Stocked formats contents listed torn' after := by
  have entry {dir : Path} {name : Text} (stored : dir ∈ storageDirs) (digest : Digest name) :
      after (dir ++ [name]) = before (dir ++ [name]) := same _ (digest.entry_stands stored)
  refine ⟨linked, ?_, ?_, ?_, ?_, ?_, ?_⟩
  · intro sha digest there
    rw [entry images_stored digest] at there ⊢
    exact stocked.images sha digest there
  · intro asked sha digest there layer member
    rw [entry images_stored digest] at there
    rw [entry blobs_stored (proper.digests sha layer member)]
    exact stocked.layers asked sha digest there layer member
  · intro layer digest there
    rw [entry blobs_stored digest] at there ⊢
    exact stocked.blobs layer digest there
  · intro sha digest untorn there rest
    rw [entry extracted_stored digest] at there
    rw [same _ (digest.stands extracted_stored rest)]
    exact stocked.trees sha digest (mt (tears sha digest).mp untorn) there rest
  · intro sha digest rest there
    rw [same _ (digest.stands extracted_stored rest)] at there ⊢
    exact stocked.parts sha digest rest there
  · intro sha digest member
    rw [entry extracted_stored digest]
    exact stocked.rooted sha digest ((tears sha digest).mpr member)

end

/-! ### What a call tears -/

section
variable {torn : List Text} {sha name : Text} {request : Request} {reply : Except String request.Value}

theorem tears_apart (apart : ∀ rest, request ≠ .remove (extractedDir ++ [sha] ++ rest)) :
    sha ∈ tears torn (.asks request reply) ↔ sha ∈ torn := by
  cases request with
  | remove path =>
    cases reply with
    | error error => exact Iff.rfl
    | ok value =>
      have other (rest : Path) (name : Text) (found : path.dropPrefix? extractedDir = some (name :: rest)) : sha ≠ name := by
        intro here
        subst here
        obtain ⟨start, rfl, same⟩ := List.dropPrefix?_eq_some_iff.mp found
        apply apart rest
        rw [eq_of_beq same, List.append_cons]
      change sha ∈ tear torn path ↔ sha ∈ torn
      unfold tear
      split
      · next name found => simp [List.mem_filter, other [] name found]
      · next name more rest found => simp [other (more :: rest) name found]
      · exact Iff.rfl
  | _ => exact Iff.rfl

theorem tears_remove (torn : List Text) (name : Text) (rest : Path) (value : Unit) :
    tears torn (.asks (.remove (extractedDir ++ [name] ++ rest)) (.ok value)) =
      if rest = [] then torn.filter (· ≠ name) else name :: torn := by
  have found : (extractedDir ++ [name] ++ rest).dropPrefix? extractedDir = some (name :: rest) :=
    List.dropPrefix?_eq_some_iff.mpr ⟨extractedDir, by simp, beq_self_eq_true _⟩
  change tear torn (extractedDir ++ [name] ++ rest) = _
  unfold tear
  rw [found]
  cases rest with
  | nil => rfl
  | cons first others => rfl

end
end Pos2.Loader
