import Mathlib.Data.Char
import Mathlib.Data.List.Induction
import Mathlib.Data.List.Lex
import Pos2.Keyed
import Pos2.Text

/-! The list of the registry in `server/src/main.rs`: the rows of `registry_apps`, gathered
by name in a hash map and sorted. -/

namespace Pos2.Server

structure RegistryAppModel where
  id : Int
  name : Text
  version : Text
  ociReference : Text
  deriving DecidableEq

structure RegistryAppVersion where
  ociReference : Text
  version : Text
  deriving DecidableEq

structure RegistryApp where
  name : Text
  versions : List RegistryAppVersion
  deriving DecidableEq

def RegistryAppModel.asVersion (row : RegistryAppModel) : RegistryAppVersion := ⟨row.ociReference, row.version⟩

def RegistryApp.push (app : RegistryApp) (version : RegistryAppVersion) : RegistryApp :=
  { app with versions := app.versions ++ [version] }

/-- `apps_map`, whose entries are in no order that counts. -/
def appsMap (rows : List RegistryAppModel) : List RegistryApp :=
  rows.foldl (fun apps row => Keyed.revise RegistryApp.name (·.push row.asVersion) ⟨row.name, [row.asVersion]⟩ apps) []

/-- `sort_by` on what the hash map had. -/
def sortApps (apps : List RegistryApp) : List RegistryApp := Keyed.sorted RegistryApp.name apps

def registryIndex (rows : List RegistryAppModel) : List RegistryApp := sortApps (appsMap rows)

/-- The rows that a list of apps stands for. -/
def listedRows (apps : List RegistryApp) : List (Text × RegistryAppVersion) :=
  apps.flatMap fun app => app.versions.map fun version => (app.name, version)

section
variable {rows : List RegistryAppModel} {apps : List RegistryApp}

private theorem appsMap_snoc (rows : List RegistryAppModel) (row : RegistryAppModel) :
    appsMap (rows ++ [row]) =
      Keyed.revise RegistryApp.name (·.push row.asVersion) ⟨row.name, [row.asVersion]⟩ (appsMap rows) := by
  rw [appsMap, List.foldl_append]
  rfl

theorem appsMap_distinct (rows : List RegistryAppModel) : ((appsMap rows).map RegistryApp.name).Nodup := by
  induction rows using List.reverseRecOn with
  | nil => exact List.nodup_nil
  | append_singleton rows row ih =>
    rw [appsMap_snoc]
    exact Keyed.revise_distinct (fun _ same => same) ih

/-- Under a name there are the versions of its rows, in their order. -/
theorem appsMap_find (rows : List RegistryAppModel) (name : Text) :
    Keyed.find RegistryApp.name name (appsMap rows) =
      if name ∈ rows.map RegistryAppModel.name then
        some ⟨name, (rows.filter fun row => row.name = name).map RegistryAppModel.asVersion⟩
      else none := by
  induction rows using List.reverseRecOn with
  | nil => rfl
  | append_singleton rows row ih =>
    have kept : ∀ app : RegistryApp, app.name = row.name → (app.push row.asVersion).name = row.name := fun _ same => same
    rw [appsMap_snoc, Keyed.find_revise kept, ih]
    by_cases same : row.name = name
    · by_cases there : name ∈ rows.map RegistryAppModel.name
      · simp [same, there, RegistryApp.push]
      · have none_ : rows.filter (fun row => row.name = name) = [] := by
          rw [List.filter_eq_nil_iff]
          intro other inside again
          exact there (List.mem_map.mpr ⟨other, inside, of_decide_eq_true again⟩)
        simp [same, there, none_]
    · simp [same, Ne.symm same]

theorem mem_appsMap {app : RegistryApp} :
    app ∈ appsMap rows ↔ app.name ∈ rows.map RegistryAppModel.name ∧
      app.versions = (rows.filter fun row => row.name = app.name).map RegistryAppModel.asVersion := by
  have found : Keyed.find RegistryApp.name app.name (appsMap rows) = some app ↔ app ∈ appsMap rows ∧ app.name = app.name :=
    Keyed.find_eq_some (appsMap_distinct rows)
  rw [appsMap_find] at found
  constructor
  · intro inside
    have there := found.mpr ⟨inside, rfl⟩
    split at there
    · next named => exact ⟨named, (congrArg RegistryApp.versions (Option.some.inj there)).symm⟩
    · cases there
  · rintro ⟨named, same⟩
    refine (found.mp ?_).1
    rw [if_pos named, ← same]

/-- Every app has a version. -/
theorem versions_ne_nil {app : RegistryApp} (inside : app ∈ appsMap rows) : app.versions ≠ [] := by
  obtain ⟨named, same⟩ := mem_appsMap.mp inside
  obtain ⟨row, there, again⟩ := List.mem_map.mp named
  rw [same]
  intro none_
  rw [List.map_eq_nil_iff, List.filter_eq_nil_iff] at none_
  exact none_ row there (decide_eq_true again)

/-- Rows that come by name are gathered one app after the other. -/
theorem appsMap_ascending (ascends : rows.Pairwise fun first second => first.name ≤ second.name) :
    (appsMap rows).Pairwise (fun first second => first.name < second.name) ∧
      listedRows (appsMap rows) = rows.map fun row => (row.name, row.asVersion) := by
  induction rows using List.reverseRecOn with
  | nil => exact ⟨List.Pairwise.nil, rfl⟩
  | append_singleton rows row ih =>
    rw [List.pairwise_append] at ascends
    obtain ⟨before, _, above⟩ := ascends
    obtain ⟨strict, listed⟩ := ih before
    have below : ∀ app ∈ appsMap rows, app.name ≤ row.name := by
      intro app inside
      obtain ⟨other, there, same⟩ := List.mem_map.mp (mem_appsMap.mp inside).1
      rw [← same]
      exact above other there row (List.mem_singleton.mpr rfl)
    rw [appsMap_snoc, List.map_append, ← listed]
    rcases List.eq_nil_or_concat (appsMap rows) with none_ | ⟨front, last, same⟩
    · rw [none_]
      exact ⟨List.pairwise_singleton _ _, rfl⟩
    rw [List.concat_eq_append] at same
    rw [same] at strict below ⊢
    rw [List.pairwise_append] at strict
    have front_lt : ∀ app ∈ front, app.name < last.name := fun app inside =>
      strict.2.2 app inside last (List.mem_singleton.mpr rfl)
    have last_le : last.name ≤ row.name := below last (by simp)
    by_cases again : last.name = row.name
    · have absent : row.name ∉ front.map RegistryApp.name := by
        intro inside
        obtain ⟨app, there, named⟩ := List.mem_map.mp inside
        exact absurd (front_lt app there) (by rw [named, again]; exact lt_irrefl _)
      rw [Keyed.revise_last _ again absent]
      refine ⟨?_, by simp [listedRows, RegistryApp.push, again]⟩
      rw [List.pairwise_append]
      exact ⟨strict.1, List.pairwise_singleton _ _, by simpa [RegistryApp.push] using front_lt⟩
    · have under : ∀ app ∈ front ++ [last], app.name < row.name := by
        intro app inside
        rcases List.mem_append.mp inside with inside | inside
        · exact lt_of_lt_of_le (front_lt app inside) last_le
        · rw [List.mem_singleton.mp inside]
          exact lt_of_le_of_ne last_le again
      have absent : row.name ∉ (front ++ [last]).map RegistryApp.name := by
        intro inside
        obtain ⟨app, there, named⟩ := List.mem_map.mp inside
        exact absurd (under app there) (by rw [named]; exact lt_irrefl _)
      rw [Keyed.revise_absent _ absent]
      refine ⟨?_, by simp [listedRows]⟩
      rw [List.pairwise_append]
      exact ⟨List.pairwise_append.mpr strict, List.pairwise_singleton _ _, by simpa using under⟩

/-- The list is the same in whatever order the hash map gives its entries: names ascend,
each with the versions of its rows, and rows that come by name come out as they went in. -/
theorem registry_index (rows : List RegistryAppModel) :
    (∀ collected : List RegistryApp, collected.Perm (appsMap rows) → sortApps collected = registryIndex rows) ∧
      ((registryIndex rows).map RegistryApp.name).Pairwise (· < ·) ∧
      (∀ app, app ∈ registryIndex rows ↔ app.versions ≠ [] ∧
        app.versions = (rows.filter fun row => row.name = app.name).map RegistryAppModel.asVersion) ∧
      (rows.Pairwise (fun first second => first.name ≤ second.name) →
        listedRows (registryIndex rows) = rows.map fun row => (row.name, row.asVersion)) := by
  have distinct := appsMap_distinct rows
  refine ⟨fun collected perm => ?_, Keyed.sorted_strict distinct, fun app => ?_, fun ascends => ?_⟩
  · exact Keyed.sorted_unique perm ((perm.map _).nodup_iff.mpr distinct)
  · rw [registryIndex, sortApps, Keyed.mem_sorted]
    constructor
    · exact fun inside => ⟨versions_ne_nil inside, (mem_appsMap.mp inside).2⟩
    · rintro ⟨some_, same⟩
      refine mem_appsMap.mpr ⟨?_, same⟩
      rw [same] at some_
      obtain ⟨row, inside⟩ := List.exists_mem_of_ne_nil _ (mt List.map_eq_nil_iff.mpr some_)
      obtain ⟨there, named⟩ := List.mem_filter.mp inside
      exact List.mem_map.mpr ⟨row, there, of_decide_eq_true named⟩
  · obtain ⟨strict, listed⟩ := appsMap_ascending ascends
    rw [registryIndex, sortApps, Keyed.sorted_self (strict.imp le_of_lt)]
    exact listed

end
end Pos2.Server
