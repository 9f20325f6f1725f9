import Pos2.Loader.Stocked

/-! What is left of a directory that keeps some of its entries, and that removing
and renaming leave a disk on which only directories have entries. -/

namespace Pos2.Loader
namespace Fs

/-- Only a directory has entries. -/
def Nested (fs : Fs) : Prop := ∀ path name, fs (path ++ [name]) ≠ none → fs path = some .dir

/-- Nothing is left at a path or below it. -/
def without (fs : Fs) (removed : Path) : Fs := fun path => if removed <+: path then none else fs path

end Fs

/-- The entry of a directory that a path leads to, or through. -/
def entryIn (dir path : Path) : Option Text :=
  if dir <+: path then (path.drop dir.length).head? else none

/-- A directory keeps some of its entries, with all that is in them. -/
def Fs.retain (fs : Fs) (dir : Path) (kept : Text → Prop) [DecidablePred kept] : Fs := fun path =>
  match entryIn dir path with
  | some name => if kept name then fs path else none
  | none => fs path

private theorem entryIn_eq_some {dir path : Path} {name : Text} : entryIn dir path = some name ↔ dir ++
    [name] <+: path := by
  unfold entryIn
  constructor
  · intro same
    split at same
    · next below =>
      obtain ⟨rest, rfl⟩ := below
      rw [List.drop_left] at same
      obtain ⟨tail, rfl⟩ := List.head?_eq_some_iff.mp same
      exact ⟨tail, by simp⟩
    · cases same
  · intro ⟨rest, same⟩
    subst same
    simp

namespace Fs
variable {fs : Fs} {dir path : Path} {name : Text} {kept : Text → Prop}

theorem retain_entry [DecidablePred kept] (rest : Path) :
    fs.retain dir kept (dir ++ name :: rest) = if kept name then fs (dir ++ name :: rest) else none := by
  have here : entryIn dir (dir ++ name :: rest) = some name := entryIn_eq_some.mpr ⟨rest, by simp⟩
  simp [retain, here]

theorem retain_outside [DecidablePred kept] (outside : ∀ name, ¬ dir ++ [name] <+: path) : fs.retain dir kept path = fs path := by
  have here : entryIn dir path = none := by
    cases found : entryIn dir path with
    | none => rfl
    | some name => exact absurd (entryIn_eq_some.mp found) (outside name)
  simp [retain, here]

theorem retain_eq_self [DecidablePred kept] (all : ∀ name rest, ¬ kept name → fs (dir ++ name :: rest) = none) :
    fs.retain dir kept = fs := by
  funext path
  by_cases inside : ∃ name, dir ++ [name] <+: path
  · obtain ⟨name, rest, rfl⟩ := inside
    rw [List.append_assoc, List.singleton_append, retain_entry]
    split
    · rfl
    · next dropped => exact (all name rest dropped).symm
  · exact retain_outside (not_exists.mp inside)

/-- Below nothing there is nothing. -/
theorem Nested.below (nested : fs.Nested) (missing : fs path = none) (rest : Path) : fs (path ++ rest) = none := by
  induction rest using List.reverseRecOn with
  | nil => simpa using missing
  | append_singleton rest name ih =>
    by_contra there
    rw [← List.append_assoc] at there
    rw [nested _ _ there] at ih
    cases ih

/-- A directory is on the way to what is in it. -/
theorem Nested.above (nested : fs.Nested) {rest : Path} (there : fs (path ++ name :: rest) ≠ none) : fs path = some .dir := by
  apply nested path name
  intro missing
  apply there
  simpa using nested.below missing rest

theorem Nested.without (nested : fs.Nested) (removed : Path) : (fs.without removed).Nested := by
  intro path name there
  unfold Fs.without at there ⊢
  split at there
  · exact absurd rfl there
  · next off =>
    rw [if_neg fun above => off (above.trans (List.prefix_append path [name]))]
    exact nested path name there

theorem Nested.retain [DecidablePred kept] (nested : fs.Nested) : (fs.retain dir kept).Nested := by
  intro path name there
  unfold Fs.retain at there ⊢
  cases inside : entryIn dir path with
  | none =>
    apply nested path name
    intro missing
    apply there
    cases entryIn dir (path ++ [name]) <;> simp [missing]
  | some entry =>
    have below : dir ++ [entry] <+: path ++ [name] := (entryIn_eq_some.mp inside).trans (List.prefix_append path [name])
    rw [entryIn_eq_some.mpr below] at there
    by_cases keeps : kept entry
    · simp only [keeps, if_true] at there ⊢
      exact nested path name there
    · simp [keeps] at there

/-- A file that is removed leaves nothing below. -/
theorem Nested.removed (nested : fs.Nested) (file : fs path ≠ some .dir) :
    Function.update fs path none = fs.without path := by
  funext other
  unfold Fs.without
  split
  · next below =>
    obtain ⟨rest, rfl⟩ := below
    cases rest with
    | nil => simp
    | cons name rest =>
      have apart : path ++ name :: rest ≠ path := by simp
      rw [Function.update_of_ne apart]
      by_contra there
      exact file (nested.above there)
  · next off =>
    have apart : other ≠ path := by
      rintro rfl
      exact off List.prefix_rfl
    exact Function.update_of_ne apart _ _

/-- An entry that gets another name in its directory. -/
theorem Nested.renamed {source target : Text} {after : Fs} (nested : fs.Nested) (different : source ≠ target)
    (renamed : fs.rename (dir ++ [source]) (dir ++ [target]) after) : after.Nested := by
  have apart : dir ++ [source] ≠ dir ++ [target] := fun same => different (by simpa using same)
  rw [rename, if_neg apart] at renamed
  obtain ⟨moved, _, _, kinds⟩ := renamed
  have there : fs (dir ++ [source]) ≠ none := by
    intro missing
    simp [missing] at kinds
  have above : ∀ name, ¬ dir ++ [name] <+: dir := entry_off_trunk dir
  subst moved
  intro path name there'
  unfold move at there' ⊢
  by_cases below : dir ++ [target] <+: path
  · obtain ⟨rest, rfl⟩ := below
    rw [if_pos (by simp [List.append_assoc]), List.append_assoc (dir ++ [target]), List.drop_left, ← List.append_assoc]
      at there'
    rw [if_pos (List.prefix_append _ _), List.drop_left]
    exact nested _ _ there'
  by_cases new : dir ++ [target] <+: path ++ [name]
  · -- the new name itself: its directory is that of the old one
    obtain ⟨rfl, _⟩ := List.append_inj' ((List.prefix_concat_iff.mp new).resolve_right below) rfl
    rw [if_neg below, if_neg (above source)]
    exact nested dir source there
  · rw [if_neg new] at there'
    split at there'
    · exact absurd rfl there'
    · next off =>
      rw [if_neg below, if_neg fun above => off (above.trans (List.prefix_append path [name]))]
      exact nested path name there'

/-- A directory on the way to its kept entries: nothing else has changed, and of the other entries
this much may be left. -/
structure Thinned (start : Fs) (dir : Path) (kept left : Text → Prop) (fs : Fs) : Prop where
  nested : fs.Nested
  same : ∀ path, (∀ name, dir ++ [name] <+: path → kept name) → fs path = start path
  rest : ∀ name, ¬ kept name → fs (dir ++ [name]) ≠ none → left name

variable {start after : Fs} {left fewer : Text → Prop}

theorem Nested.thinned (nested : fs.Nested) (rest : ∀ name, ¬ kept name → fs (dir ++ [name]) ≠ none → left name) :
    fs.Thinned dir kept left fs := ⟨nested, fun _ _ => rfl, rest⟩

theorem Thinned.mono (thinned : start.Thinned dir kept left fs)
    (fewer_ : ∀ name, ¬ kept name → fs (dir ++ [name]) ≠ none → left name → fewer name) :
    start.Thinned dir kept fewer fs :=
  ⟨thinned.nested, thinned.same, fun name dropped there => fewer_ name dropped there (thinned.rest name dropped there)⟩

theorem Thinned.without (thinned : start.Thinned dir kept left fs) (dropped : ¬ kept name) :
    start.Thinned dir kept (fun other => left other ∧ other ≠ name) (fs.without (dir ++ [name])) := by
  refine ⟨thinned.nested.without _, fun path outside => ?_, fun other dropped' there => ?_⟩
  · have off : ¬ dir ++ [name] <+: path := fun below => dropped (outside name below)
    rw [Fs.without, if_neg off]
    exact thinned.same path outside
  · unfold Fs.without at there
    split at there
    · exact absurd rfl there
    · next off =>
      refine ⟨thinned.rest other dropped' there, ?_⟩
      rintro rfl
      exact off List.prefix_rfl

theorem Thinned.renamed {source target : Text} (thinned : start.Thinned dir kept left fs) (different : source ≠ target)
    (dropped : ¬ kept source) (dropped' : ¬ kept target) (renamed : fs.rename (dir ++ [source]) (dir ++ [target]) after) :
    start.Thinned dir kept (fun other => other = target ∨ left other ∧ other ≠ source) after := by
  refine ⟨thinned.nested.renamed different renamed, fun path outside => ?_, fun other dropped'' there => ?_⟩
  · rw [Fs.rename_other renamed (fun below => dropped (outside source below)) fun below => dropped' (outside target below)]
    exact thinned.same path outside
  · by_cases new : other = target
    · exact .inl new
    have apart : dir ++ [source] ≠ dir ++ [target] := fun same => different (by simpa using same)
    rw [rename, if_neg apart] at renamed
    rw [renamed.1, move, if_neg (entries_apart dir (Ne.symm new))] at there
    split at there
    · exact absurd rfl there
    · next off =>
      refine .inr ⟨thinned.rest other dropped'' there, ?_⟩
      rintro rfl
      exact off List.prefix_rfl

/-- Nothing is left of what is not kept. -/
theorem Thinned.retains [DecidablePred kept] (thinned : start.Thinned dir kept left fs)
    (nothing : ∀ name, ¬ kept name → ¬ left name) : fs = start.retain dir kept := by
  funext path
  by_cases inside : ∃ name, dir ++ [name] <+: path
  · obtain ⟨name, rest, rfl⟩ := inside
    by_cases keeps : kept name
    · have same := thinned.same (dir ++ [name] ++ rest) fun other below => by
        have here := entryIn_eq_some.mpr below
        rw [entryIn_eq_some.mpr (List.prefix_append (dir ++ [name]) rest)] at here
        rwa [← Option.some.inj here]
      rw [same, List.append_assoc, List.singleton_append, retain_entry, if_pos keeps]
    · have gone : fs (dir ++ [name]) = none := by
        by_contra there
        exact nothing name keeps (thinned.rest name keeps there)
      rw [thinned.nested.below gone, List.append_assoc, List.singleton_append, retain_entry, if_neg keeps]
  · rw [retain_outside (not_exists.mp inside)]
    exact thinned.same path fun name below => absurd ⟨name, below⟩ inside

end Fs
end Pos2.Loader
