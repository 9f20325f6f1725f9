import Pos2.Text
import Mathlib.Data.List.Nodup
import Mathlib.Logic.Function.Basic

/-! `sync_apps`: the running instances follow the directory of the apps. Only the pairs
of the round before are kept, and hash maps are gone through in any order. -/

namespace Pos2.Wasi

/-- An entry of the directory as `reload_apps` reads it. A name that is no Unicode is `none`,
and so is a modification time that the file system does not keep. -/
structure AppEntry (ρ θ : Type) where
  fileName : Option Text
  path : ρ
  metadata : Except String (Option θ)

section
variable {ρ θ ι : Type}

abbrev AppFiles (ρ θ : Type) := Text → Option (ρ × θ)

def AppEntry.app (entry : AppEntry ρ θ) : Option Text :=
  entry.fileName.bind fun name => name.stripSuffix ".wasm".toList

def AppEntry.insert (map : AppFiles ρ θ) (entry : AppEntry ρ θ) : Except String (AppFiles ρ θ) :=
  match entry.app with
  | none => .ok map
  | some name =>
    match entry.metadata with
    | .error error => .error error
    | .ok none => .ok map
    | .ok (some time) => .ok (Function.update map name (some (entry.path, time)))

/-- What `read_dir` gives: it may fail, and so may each of its entries. -/
abbrev AppDir (ρ θ : Type) := Except String (List (Except String (AppEntry ρ θ)))

def reloadEntries : List (Except String (AppEntry ρ θ)) → AppFiles ρ θ → Except String (AppFiles ρ θ)
  | [], map => .ok map
  | .error error :: _, _ => .error error
  | .ok entry :: rest, map =>
    match entry.insert map with
    | .error error => .error error
    | .ok map => reloadEntries rest map

def reloadApps : AppDir ρ θ → Except String (AppFiles ρ θ)
  | .error error => .error error
  | .ok entries => reloadEntries entries fun _ => none

/-- A call of `make_wasm_instance` that succeeded. -/
structure Made (ρ ι : Type) where
  name : Text
  path : ρ
  app : ι

/-- The state of `sync_apps`, and the instances it made in this round, the last one first. -/
structure AppSync (ρ θ ι : Type) where
  previous : AppFiles ρ θ
  instances : Text → Option ι
  made : List (Made ρ ι)

namespace AppSync

def remove (sync : AppSync ρ θ ι) (name : Text) : AppSync ρ θ ι :=
  { sync with
    previous := Function.update sync.previous name none
    instances := Function.update sync.instances name none }

/-- `make` tells what each call of `make_wasm_instance` returns. -/
def load (make : Nat → ρ → ι) (sync : AppSync ρ θ ι) (name : Text) (value : ρ × θ) : AppSync ρ θ ι :=
  let app := make sync.made.length value.1
  { previous := Function.update sync.previous name (some value)
    instances := Function.update sync.instances name (some app)
    made := ⟨name, value.1, app⟩ :: sync.made }

variable [DecidableEq ρ] [DecidableEq θ]

def visit (make : Nat → ρ → ι) (sync : AppSync ρ θ ι) (entry : Text × ρ × θ) : AppSync ρ θ ι :=
  match sync.previous entry.1 with
  | some existing => if existing = entry.2 then sync else sync.load make entry.1 entry.2
  | none => sync.load make entry.1 entry.2

/-- One turn of the loop. `removing` and `visiting` are the orders in which the two maps are gone through. -/
def round (make : Nat → ρ → ι) (current : AppFiles ρ θ) (removing visiting : List (Text × ρ × θ))
    (sync : AppSync ρ θ ι) : AppSync ρ θ ι :=
  let toRemove := (removing.filter fun entry => (current entry.1).isNone).map Prod.fst
  visiting.foldl (visit make) (toRemove.foldl remove { sync with made := [] })

end AppSync

/-- An order in which a hash map may be gone through. -/
structure Iterates (map : AppFiles ρ θ) (order : List (Text × ρ × θ)) : Prop where
  complete : ∀ name value, (name, value) ∈ order ↔ map name = some value
  once : (order.map Prod.fst).Nodup

/-- A round that is over: what the directory was, and the instances that were made. -/
structure SyncRound (ρ θ ι : Type) where
  dir : AppDir ρ θ
  current : AppFiles ρ θ
  made : List (Made ρ ι)

/-- The rounds so far, the last one first. A directory that cannot be read ends `sync_apps`. -/
inductive Syncs [DecidableEq ρ] [DecidableEq θ] : List (SyncRound ρ θ ι) → AppSync ρ θ ι → Prop where
  | start : Syncs [] ⟨fun _ => none, fun _ => none, []⟩
  | round {history sync dir current removing visiting} (make : Nat → ρ → ι) (earlier : Syncs history sync)
      (reloaded : reloadApps dir = .ok current) (removes : Iterates sync.previous removing)
      (visits : Iterates current visiting) :
      Syncs (⟨dir, current, (sync.round make current removing visiting).made⟩ :: history)
        (sync.round make current removing visiting)

/-! ### What a directory lists -/

/-- An app in the directory: a `.wasm` file with a modification time. -/
def Lists (dir : AppDir ρ θ) (name : Text) : Prop :=
  ∃ entries entry time, dir = .ok entries ∧ .ok entry ∈ entries ∧
    entry.fileName = some (name ++ ".wasm".toList) ∧ entry.metadata = .ok (some time)

private theorem AppEntry.app_eq_some {entry : AppEntry ρ θ} {name : Text} :
    entry.app = some name ↔ entry.fileName = some (name ++ ".wasm".toList) := by
  simp [AppEntry.app, Option.bind_eq_some_iff]

private theorem AppEntry.insert_lists {entry : AppEntry ρ θ} {map after : AppFiles ρ θ}
    (inserted : entry.insert map = .ok after)
    (name : Text) :
    (after name).isSome ↔ (map name).isSome ∨ ∃ time, entry.app = some name ∧ entry.metadata = .ok (some time) := by
  unfold AppEntry.insert at inserted
  cases named : entry.app with
  | none =>
    simp only [named, Except.ok.injEq] at inserted
    simp [← inserted]
  | some app =>
    rw [named] at inserted
    rcases dated : entry.metadata with error | _ | time
    · simp [dated] at inserted
    · simp only [dated, Except.ok.injEq] at inserted
      simp [← inserted]
    · simp only [dated, Except.ok.injEq] at inserted
      subst inserted
      by_cases same : name = app
      · simp [same]
      · simp [same, Ne.symm same]

private theorem reloadEntries_lists {entries : List (Except String (AppEntry ρ θ))} {map current : AppFiles ρ θ}
    (reloaded : reloadEntries entries map = .ok current) (name : Text) :
    (current name).isSome ↔ (map name).isSome ∨
      ∃ entry time, .ok entry ∈ entries ∧ entry.app = some name ∧ entry.metadata = .ok (some time) := by
  induction entries generalizing map with
  | nil =>
    cases reloaded
    simp
  | cons first rest ih =>
    cases first with
    | error error => cases reloaded
    | ok entry =>
      cases inserted : entry.insert map with
      | error error => simp [reloadEntries, inserted] at reloaded
      | ok after =>
        simp only [reloadEntries, inserted] at reloaded
        rw [ih reloaded, AppEntry.insert_lists inserted, or_assoc]
        simp [or_and_right, exists_or]

private theorem reloadApps_lists {dir : AppDir ρ θ} {current : AppFiles ρ θ} (reloaded : reloadApps dir = .ok current)
    (name : Text) : (current name).isSome ↔ Lists dir name := by
  cases dir with
  | error error => cases reloaded
  | ok entries => simp [reloadEntries_lists reloaded, Lists, AppEntry.app_eq_some]

/-! ### One round -/

/-- The instances made for one name. -/
def madeFor (name : Text) (made : List (Made ρ ι)) : List (Made ρ ι) := made.filter fun one => one.name = name

namespace AppSync

/-- Nothing happens to a name. -/
structure Beside (name : Text) (before after : AppSync ρ θ ι) : Prop where
  previous : after.previous name = before.previous name
  instances : after.instances name = before.instances name
  made : madeFor name after.made = madeFor name before.made

theorem Beside.refl (name : Text) (sync : AppSync ρ θ ι) : Beside name sync sync := ⟨rfl, rfl, rfl⟩

theorem Beside.trans {name : Text} {first middle last : AppSync ρ θ ι} (one : Beside name first middle)
    (two : Beside name middle last) : Beside name first last :=
  ⟨two.previous.trans one.previous, two.instances.trans one.instances, two.made.trans one.made⟩

private theorem remove_beside {name other : Text} (apart : name ≠ other) (sync : AppSync ρ θ ι) :
    Beside name sync (sync.remove other) :=
  ⟨Function.update_of_ne apart _ _, Function.update_of_ne apart _ _, rfl⟩

private theorem load_beside {name other : Text} (apart : name ≠ other) (make : Nat → ρ → ι) (sync : AppSync ρ θ ι)
    (value : ρ × θ) : Beside name sync (sync.load make other value) := by
  refine ⟨Function.update_of_ne apart _ _, Function.update_of_ne apart _ _, ?_⟩
  simp [madeFor, load, Ne.symm apart]

/-- Names that are gone lose both entries. -/
theorem removes_at (names : List Text) (sync : AppSync ρ θ ι) (name : Text) :
    (name ∉ names → Beside name sync (names.foldl remove sync)) ∧
      (name ∈ names → (names.foldl remove sync).previous name = none ∧ (names.foldl remove sync).instances name = none) ∧
      (names.foldl remove sync).made = sync.made := by
  induction names generalizing sync with
  | nil => exact ⟨fun _ => .refl name sync, fun impossible => (nomatch impossible), rfl⟩
  | cons first rest ih =>
    obtain ⟨kept, gone, made⟩ := ih (sync.remove first)
    refine ⟨fun apart => ?_, fun member => ?_, made⟩
    · obtain ⟨one, others⟩ := not_or.mp (mt List.mem_cons.mpr apart)
      exact (remove_beside one sync).trans (kept others)
    · by_cases again : name ∈ rest
      · exact gone again
      · obtain rfl := (List.mem_cons.mp member).resolve_right again
        have beside := kept again
        exact ⟨beside.previous.trans (Function.update_self _ _ _), beside.instances.trans (Function.update_self _ _ _)⟩

variable [DecidableEq ρ] [DecidableEq θ] {make : Nat → ρ → ι}

private theorem visit_same {sync : AppSync ρ θ ι} {name : Text} {value : ρ × θ}
    (known : sync.previous name = some value) :
    sync.visit make (name, value) = sync := by
  simp [visit, known]

private theorem visit_new {sync : AppSync ρ θ ι} {name : Text} {value : ρ × θ}
    (changed : sync.previous name ≠ some value) :
    sync.visit make (name, value) = sync.load make name value := by
  cases known : sync.previous name with
  | none => simp [visit, known]
  | some existing =>
    have differs : existing ≠ value := fun same => changed (known.trans (congrArg some same))
    simp [visit, known, differs]

private theorem visit_beside {name : Text} {entry : Text × ρ × θ} (apart : name ≠ entry.1) (sync : AppSync ρ θ ι) :
    Beside name sync (sync.visit make entry) := by
  by_cases known : sync.previous entry.1 = some entry.2
  · rw [show sync.visit make entry = sync from visit_same known]
    exact .refl name sync
  · rw [show sync.visit make entry = sync.load make entry.1 entry.2 from visit_new known]
    exact load_beside apart make sync entry.2

private theorem visits_beside (make : Nat → ρ → ι) {name : Text} {order : List (Text × ρ × θ)}
    (apart : name ∉ order.map Prod.fst)
    (sync : AppSync ρ θ ι) : Beside name sync (order.foldl (visit make) sync) := by
  induction order generalizing sync with
  | nil => exact .refl name sync
  | cons first rest ih =>
    obtain ⟨one, others⟩ := not_or.mp (mt List.mem_cons.mpr apart)
    exact (visit_beside one sync).trans (ih others _)

/-- Each name is visited once. -/
theorem visits_at (make : Nat → ρ → ι) {name : Text} {value : ρ × θ} {order : List (Text × ρ × θ)} (member : (name, value) ∈ order)
    (once : (order.map Prod.fst).Nodup) (sync : AppSync ρ θ ι) :
    ∃ before, Beside name sync before ∧
      Beside name (before.visit make (name, value)) (order.foldl (visit make) sync) := by
  obtain ⟨front, back, rfl⟩ := List.append_of_mem member
  simp only [List.map_append, List.map_cons, List.nodup_append, List.nodup_cons] at once
  obtain ⟨-, ⟨notBack, -⟩, disjoint⟩ := once
  have notFront : name ∉ front.map Prod.fst := fun inside => disjoint name inside name List.mem_cons_self rfl
  refine ⟨front.foldl (visit make) sync, visits_beside make notFront sync, ?_⟩
  rw [List.foldl_append, List.foldl_cons]
  exact visits_beside make notBack _

section
variable {current : AppFiles ρ θ} {removing visiting : List (Text × ρ × θ)} {name : Text} {value : ρ × θ}

/-- What a round does with a name that is listed: nothing, or it makes the instance anew. -/
theorem round_listed (make : Nat → ρ → ι) (sync : AppSync ρ θ ι) (removing : List (Text × ρ × θ))
    (visits : Iterates current visiting) (listed : current name = some value) :
    (sync.round make current removing visiting).previous name = some value ∧
      (if sync.previous name = some value then
        (sync.round make current removing visiting).instances name = sync.instances name ∧
          madeFor name (sync.round make current removing visiting).made = []
      else ∃ app, (sync.round make current removing visiting).instances name = some app ∧
        madeFor name (sync.round make current removing visiting).made = [⟨name, value.1, app⟩]) := by
  have stays : name ∉ (removing.filter fun entry => (current entry.1).isNone).map Prod.fst := by
    simp [listed]
  obtain ⟨before, reached, rest⟩ := visits_at make ((visits.complete name value).mpr listed) visits.once
    (((removing.filter fun entry => (current entry.1).isNone).map Prod.fst).foldl remove { sync with made := [] })
  have reached := ((removes_at _ { sync with made := [] } name).1 stays).trans reached
  split
  · next known =>
    have known := reached.previous.trans known
    rw [visit_same known] at rest
    exact ⟨rest.previous.trans known, rest.instances.trans reached.instances, rest.made.trans reached.made⟩
  · next changed =>
    rw [visit_new (fun known => changed (reached.previous.symm.trans known))] at rest
    refine ⟨rest.previous.trans (Function.update_self _ _ _), make before.made.length value.1,
      rest.instances.trans (Function.update_self _ _ _), rest.made.trans ?_⟩
    have none_ : madeFor name before.made = [] := reached.made
    simpa [madeFor, load] using none_

/-- What a round does with a name that is not listed. -/
theorem round_unlisted (make : Nat → ρ → ι) {sync : AppSync ρ θ ι} (removes : Iterates sync.previous removing)
    (visits : Iterates current visiting)
    (tied : sync.previous name = none → sync.instances name = none) (unlisted : current name = none) :
    (sync.round make current removing visiting).previous name = none ∧
      (sync.round make current removing visiting).instances name = none := by
  have unvisited : name ∉ visiting.map Prod.fst := by
    simp [visits.complete, unlisted]
  have rest := visits_beside make unvisited
    (((removing.filter fun entry => (current entry.1).isNone).map Prod.fst).foldl remove { sync with made := [] })
  obtain ⟨kept, gone, -⟩ := removes_at ((removing.filter fun entry => (current entry.1).isNone).map Prod.fst)
    { sync with made := [] } name
  cases known : sync.previous name with
  | some value =>
    have removed := gone (by simpa [unlisted, removes.complete] using ⟨_, _, known⟩)
    exact ⟨rest.previous.trans removed.1, rest.instances.trans removed.2⟩
  | none =>
    have beside := (kept (by simp [removes.complete, known])).trans rest
    exact ⟨beside.previous.trans known, beside.instances.trans (tied known)⟩

end

end AppSync

/-! ### Every run -/

/-- The pair of a name in the last round. -/
def lastPair : List (SyncRound ρ θ ι) → AppFiles ρ θ
  | [] => fun _ => none
  | round :: _ => round.current

/-- The instance comes from the last round in which the name was new or its pair had changed, the only one that round
made for the name; no later round made any. -/
def MadeLatest (history : List (SyncRound ρ θ ι)) (name : Text) (value : ρ × θ) (app : ι) : Prop :=
  ∃ later round earlier, history = later ++ round :: earlier ∧ round.current name = some value ∧
    lastPair earlier name ≠ some value ∧ madeFor name round.made = [⟨name, value.1, app⟩] ∧
    ∀ round ∈ later, round.current name = some value ∧ madeFor name round.made = []

structure Follows (history : List (SyncRound ρ θ ι)) (sync : AppSync ρ θ ι) : Prop where
  previous : sync.previous = lastPair history
  unlisted : ∀ name, lastPair history name = none → sync.instances name = none
  listed : ∀ name value, lastPair history name = some value →
    ∃ app, sync.instances name = some app ∧ MadeLatest history name value app

theorem MadeLatest.later {history : List (SyncRound ρ θ ι)} {name : Text} {value : ρ × θ} {app : ι}
    (made : MadeLatest history name value app) {round : SyncRound ρ θ ι} (same : round.current name = some value)
    (none_ : madeFor name round.made = []) : MadeLatest (round :: history) name value app := by
  obtain ⟨later, latest, earlier, rfl, listed, changed, once, unmade⟩ := made
  refine ⟨round :: later, latest, earlier, rfl, listed, changed, once, fun other member => ?_⟩
  rcases List.mem_cons.mp member with rfl | member
  · exact ⟨same, none_⟩
  · exact unmade other member

section
variable [DecidableEq ρ] [DecidableEq θ]

theorem Follows.round {history : List (SyncRound ρ θ ι)} {sync : AppSync ρ θ ι} (follows : Follows history sync)
    (dir : AppDir ρ θ) {current : AppFiles ρ θ} {removing visiting : List (Text × ρ × θ)} (make : Nat → ρ → ι)
    (removes : Iterates sync.previous removing) (visits : Iterates current visiting) :
    Follows (⟨dir, current, (sync.round make current removing visiting).made⟩ :: history)
      (sync.round make current removing visiting) := by
  have tied (name : Text) (known : sync.previous name = none) : sync.instances name = none :=
    follows.unlisted name (follows.previous ▸ known)
  refine ⟨funext fun name => ?_, fun name unlisted => ?_, fun name value listed => ?_⟩
  · cases listed : current name with
    | none => exact (AppSync.round_unlisted make removes visits (tied name) listed).1.trans listed.symm
    | some value => exact (AppSync.round_listed make sync removing visits listed).1.trans listed.symm
  · exact (AppSync.round_unlisted make removes visits (tied name) unlisted).2
  · have happens := (AppSync.round_listed make sync removing visits listed).2
    split at happens
    · next known =>
      rw [follows.previous] at known
      obtain ⟨app, runs, made⟩ := follows.listed name value known
      exact ⟨app, happens.1.trans runs, made.later listed happens.2⟩
    · next changed =>
      rw [follows.previous] at changed
      obtain ⟨app, runs, made⟩ := happens
      exact ⟨app, runs, [], _, history, rfl, listed, changed, made, fun _ impossible => (nomatch impossible)⟩

theorem Syncs.follows {history : List (SyncRound ρ θ ι)} {sync : AppSync ρ θ ι} (syncs : Syncs history sync) :
    Follows history sync := by
  induction syncs with
  | start => exact ⟨rfl, fun _ _ => rfl, fun _ _ impossible => (nomatch impossible)⟩
  | round make _ _ removes visits ih => exact ih.round _ make removes visits

/-- After every round the apps in the directory run, each in the instance of its last change. -/
theorem sync_apps_follow {history : List (SyncRound ρ θ ι)} {round : SyncRound ρ θ ι} {sync : AppSync ρ θ ι}
    (syncs : Syncs (round :: history) sync) :
    (∀ name, (sync.instances name).isSome ↔ Lists round.dir name) ∧
      (∀ name value, round.current name = some value →
        ∃ app, sync.instances name = some app ∧ MadeLatest (round :: history) name value app) ∧
      ∀ name value, round.current name = some value → lastPair history name = some value →
        madeFor name round.made = [] := by
  have follows := syncs.follows
  refine ⟨fun name => ?_, follows.listed, fun name value listed known => ?_⟩
  · have reloaded : reloadApps round.dir = .ok round.current := by
      cases syncs
      assumption
    rw [← reloadApps_lists reloaded]
    cases listed : round.current name with
    | none => simp [follows.unlisted name listed]
    | some value =>
      obtain ⟨app, runs, -⟩ := follows.listed name value listed
      simp [runs]
  · obtain ⟨app, -, later, latest, earlier, split, -, changed, -, unmade⟩ := follows.listed name value listed
    cases later with
    | nil =>
      obtain ⟨rfl, rfl⟩ := List.cons.inj split
      exact absurd known changed
    | cons first later =>
      obtain ⟨rfl, -⟩ := List.cons.inj split
      exact (unmade _ List.mem_cons_self).2

end

end

theorem Iterates.single {ρ θ : Type} (name : Text) (value : ρ × θ) :
    Iterates (Function.update (fun _ => none) name (some value)) [(name, value)] := by
  refine ⟨fun other given => ?_, by simp⟩
  by_cases same : other = name
  · simp [same, eq_comm]
  · simp [same]

/-- An app that is rebuilt between two rounds. -/
theorem sync_apps_follow_rebuilt :
    ∃ (sync : AppSync Nat Nat Nat) (history : List (SyncRound Nat Nat Nat)) (dir : AppDir Nat Nat) (value : Nat × Nat)
      (app : Nat), Lists dir "notes".toList ∧ history.length = 2 ∧ sync.instances "notes".toList = some app ∧
        MadeLatest history "notes".toList value app := by
  have lists (time : Nat) : reloadApps (.ok [.ok ⟨some "notes.wasm".toList, 1, .ok (some time)⟩]) =
      .ok (Function.update (fun _ => none) "notes".toList (some (1, time))) := rfl
  have empty : Iterates (fun _ => none : AppFiles Nat Nat) [] := ⟨by simp, by simp⟩
  have first := Syncs.start.round (fun _ _ => 10) (lists 1) empty (.single _ _)
  have second := first.round (fun _ _ => 11) (lists 2) (.single _ (1, 1)) (.single _ (1, 2))
  obtain ⟨runs, latest, -⟩ := sync_apps_follow second
  obtain ⟨app, found, made⟩ := latest "notes".toList (1, 2) rfl
  exact ⟨_, _, _, _, _, (runs "notes".toList).mp (by rw [found]; rfl), rfl, found, made⟩

end Pos2.Wasi
