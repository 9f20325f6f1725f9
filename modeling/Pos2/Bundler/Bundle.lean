import Mathlib.Data.Set.Finite.Basic
import Mathlib.Order.WellFoundedSet
import Pos2.Bundler.Collect

/-! What the copy loop makes of the libraries and of the links between them. -/

namespace Pos2.Bundler
open Calls Links

variable {α : Type} {fs : Tree Text α} {links : Nat} {patchelf : Patchelf α}

/-! ### The loop -/

/-- The path that is copied under a name: the first one. -/
def firstOf (order : List PathBuf) (name : Text) : Option PathBuf := order.find? fun path => fileName path = some name

/-- What the loop makes of a path. -/
def copyOf (fs : Tree Text α) (links : Nat) (patchelf : Patchelf α) (path : PathBuf) : Option (Node Text α) :=
  match fs.lstat links path with
  | some (.link target) => some (.link target)
  | some (.file content) => (patchelf origin content).map .file
  | _ => none

private theorem copyDep_put {output : Output α} {dep : PathBuf} {filename : Text} {node : Node Text α}
    (new : output.lib filename = none) (copy : copyOf fs links patchelf dep = some node) :
    copyDep fs links patchelf output dep filename = .ok (output.put filename node) := by
  rw [copyOf] at copy
  rw [copyDep]
  split at copy
  next target link =>
    obtain rfl := Option.some.inj copy
    simp [link, new]
  next content file =>
    obtain ⟨patched, success, rfl⟩ := Option.map_eq_some_iff.mp copy
    simp [file, success]
  next => cases copy

private theorem copyAll_lib {order : List PathBuf} {copiedFilenames : List Text} {output : Output α}
    (copies : ∀ dep ∈ order, ∃ name node, fileName dep = some name ∧ copyOf fs links patchelf dep = some node)
    (copied : ∀ name, output.lib name ≠ none → name ∈ copiedFilenames) :
    ∃ after, copyAll fs links patchelf order copiedFilenames output = .ok after ∧ after.entrypoint = output.entrypoint ∧
      ∀ name, after.lib name =
        if name ∈ copiedFilenames then output.lib name else (firstOf order name).bind (copyOf fs links patchelf) := by
  induction order generalizing copiedFilenames output with
  | nil =>
    refine ⟨output, rfl, rfl, fun name => ?_⟩
    split
    next => rfl
    next new => exact not_imp_comm.mp (copied name) new
  | cons dep rest ih =>
    obtain ⟨filename, node, named, copy⟩ := copies dep (.head _)
    have others := fun dep inside => copies dep (.tail _ inside)
    simp only [copyAll, named]
    split
    next old =>
      obtain ⟨after, ends, entrypoint, lib⟩ := ih others copied
      refine ⟨after, ends, entrypoint, fun name => ?_⟩
      rw [lib, firstOf, firstOf, List.find?_cons]
      by_cases same : filename = name
      · subst same
        rw [if_pos old, if_pos old]
      · simp [named, same]
    next new =>
      have free : output.lib filename = none := not_imp_comm.mp (copied filename) new
      have grown (name : Text) (there : (output.put filename node).lib name ≠ none) : name ∈ filename :: copiedFilenames := by
        by_cases same : name = filename
        · rw [same]
          exact .head _
        · simp only [Output.put, Function.update_of_ne same] at there
          exact .tail _ (copied name there)
      obtain ⟨after, ends, entrypoint, lib⟩ := ih others grown
      rw [copyDep_put free copy]
      refine ⟨after, ends, entrypoint, fun name => ?_⟩
      rw [lib, firstOf, firstOf, List.find?_cons]
      by_cases same : filename = name
      · subst same
        simp [named, new, copy, Output.put]
      · have apart : name ≠ filename := Ne.symm same
        simp [named, same, apart, Output.put]

/-! ### Where links lead -/

/-- A place for files in the output directory. -/
inductive Landing where
  | lib (name : Text)
  | entrypoint
  deriving DecidableEq

/-- Where a path leads from `lib`: a file name, behind any number of `../lib`, or `../entrypoint`. -/
def landing : List Component → Option Landing
  | [.normal name] => some (.lib name)
  | [.parentDir, .normal name] => if name = Output.entrypointName then some .entrypoint else none
  | .parentDir :: .normal dir :: rest => if dir = Output.libName then landing rest else none
  | _ => none

/-- An absolute link does not stay in the output directory. -/
def landingOf : Target → Option Landing
  | .absolute _ => none
  | .relative path => landing path

private theorem landing_ends {path : List Component} {name : Text} (lands : landing path = some (.lib name)) :
    ∃ front, path = front ++ [.normal name] := by
  fun_induction landing path with
  | case1 last =>
    cases lands
    exact ⟨[], rfl⟩
  | case2 | case3 | case5 | case6 => cases lands
  | case4 rest longer ih =>
    obtain ⟨front, rfl⟩ := ih lands
    exact ⟨.parentDir :: .normal Output.libName :: front, rfl⟩

private theorem fileName_from (path : PathBuf) {target : Target} {name : Text}
    (lands : landingOf target = some (.lib name)) :
    fileName (target.from path) = some name := by
  cases target with
  | absolute target => cases lands
  | relative target =>
    obtain ⟨front, rfl⟩ := landing_ends lands
    rw [Links.Target.from, ← List.append_assoc, fileName, List.getLast?_concat]

namespace Output
variable {output : Output α}

/-- From `lib` up and down again. -/
theorem walks_around {count : Nat} {rest : List Component} {final : List Text}
    (walks : output.tree.Walks count [libName] rest final) :
    output.tree.Walks count [libName] (.parentDir :: .normal libName :: rest) final :=
  .up rfl rfl (.enter rfl nofun walks)

private theorem walks_landing {path : List Component} {name : Text} (lands : landing path = some (.lib name))
    {count : Nat}
    {final : List Text} (walks : output.tree.Walks count [libName] [.normal name] final) :
    output.tree.Walks count [libName] path final := by
  fun_induction landing path with
  | case1 last =>
    cases lands
    exact walks
  | case2 | case3 | case5 | case6 => cases lands
  | case4 rest longer ih => exact walks_around (ih lands)

private theorem walks_entrypoint {path : List Component} (lands : landing path = some .entrypoint) :
    output.tree.Walks 0 [libName] path [entrypointName] := by
  fun_induction landing path with
  | case1 | case3 | case5 | case6 => cases lands
  | case2 => exact .up rfl rfl (.enter rfl nofun .here)
  | case4 rest longer ih => exact walks_around (ih lands)

private theorem landing_around (rest : List Component) : landing
    (.parentDir :: .normal libName :: rest) = landing rest := by
  cases rest with
  | nil => rfl
  | cons component others => rw [landing, if_pos rfl]; nofun

private theorem node_lib (name : Text) : output.tree.node ([libName] ++ [name]) = output.lib name := by
  change output.node [libName, name] = _
  rw [node, if_pos rfl]

private theorem walks_up {count : Nat} {rest : List Component} {final : List Text}
    (walks : output.tree.Walks count [libName] (.parentDir :: rest) final) : output.tree.Walks count [] rest final := by
  cases walks with
  | up dir above onward =>
    obtain rfl := Option.some.inj above
    exact onward

private theorem walks_down {count : Nat} {dir : Text} {rest : List Component} {final : List Text} {copy : α}
    (walks : output.tree.Walks count [] (.normal dir :: rest) final) (file : output.node final = some (.file copy)) :
    dir = libName ∧ output.tree.Walks count [libName] rest final ∨
      dir = entrypointName ∧ rest = [] ∧ copy = output.entrypoint := by
  by_cases lib : dir = libName
  · subst lib
    cases walks with
    | enter found plain onward => exact .inl ⟨rfl, onward⟩
    | follow found => cases found
  · by_cases entrypoint : dir = entrypointName
    · subst entrypoint
      cases walks with
      | enter found plain onward =>
        have binary : output.tree.node [entrypointName] = some (.file output.entrypoint) := rfl
        obtain rfl := onward.from_file binary
        cases onward
        exact .inr ⟨rfl, rfl, (Node.file.inj (Option.some.inj file)).symm⟩
      | follow found => cases found
    · have absent : output.tree.node ([] ++ [dir]) = none := by
        change output.node [dir] = none
        rw [node, if_neg lib, if_neg entrypoint]
      cases walks with
      | enter found => cases absent.symm.trans found
      | follow found => cases absent.symm.trans found

/-- Where every name in `lib` is that of a file, nothing else leads to one. -/
theorem landing_of_walks {path : List Component} {count : Nat} {final : List Text} {copy : α}
    (files : ∀ name, output.lib name ≠ none →
      ∃ count place content, output.tree.Walks count [libName] [.normal name] place ∧ output.node place = some (.file content))
    (walks : output.tree.Walks count [libName] path final) (file : output.node final = some (.file copy)) :
    (∃ name, landing path = some (.lib name)) ∨ landing path = some .entrypoint ∧ copy = output.entrypoint := by
  match path with
  | [] =>
    cases walks
    cases file
  | [.normal name] => exact .inl ⟨name, rfl⟩
  | .normal name :: component :: rest =>
    obtain ⟨before, after, mid, -, toMid, onward⟩ := @Links.Tree.Walks.split _ _ _ _ _ _ [.normal name] _ walks
    have present : output.lib name ≠ none := by
      rw [← node_lib]
      cases toMid with
      | enter found | follow found => exact Option.ne_none_iff_exists'.mpr ⟨_, found⟩
    obtain ⟨_, place, content, walksToo, there⟩ := files name present
    obtain ⟨-, rfl⟩ := toMid.det walksToo
    cases onward.from_file there
  | [.parentDir] =>
    cases walks_up walks
    cases file
  | .parentDir :: .parentDir :: rest =>
    cases walks_up walks with
    | up dir above => cases above
  | .parentDir :: .normal dir :: rest =>
    rcases walks_down (walks_up walks) file with ⟨rfl, inside⟩ | ⟨rfl, rfl, same⟩
    · rw [landing_around]
      exact landing_of_walks files inside file
    · exact .inr ⟨rfl, same⟩

/-- A name in `lib`, from the root of the output directory on. -/
def libPath (name : Text) : List Component := [.normal libName, .normal name]

private theorem reaches_libPath {count : Nat} {name : Text} {copy : α} : output.tree.Reaches count (libPath name) copy ↔
    ∃ place, output.tree.Walks count [libName] [.normal name] place ∧ output.node place = some (.file copy) := by
  constructor
  · rintro ⟨place, walks, file⟩
    cases walks with
    | enter found plain onward => exact ⟨place, onward, file⟩
    | follow found => cases found
  · rintro ⟨place, walks, file⟩
    exact ⟨place, .enter rfl nofun walks, file⟩

private theorem reaches_file {name : Text} {copy : α} (found : output.lib name = some (.file copy)) :
    output.tree.Reaches 0 (libPath name) copy := by
  have there := (node_lib name).trans found
  exact reaches_libPath.mpr ⟨_, .enter there nofun .here, there⟩

private theorem reaches_link {count : Nat} {name : Text} {target : Target} {copy : α}
    (found : output.lib name = some (.link target)) : output.tree.Reaches count (libPath name) copy ↔
      ∃ less path place, count = less + 1 ∧ target = .relative path ∧ output.tree.Walks less [libName] path place ∧
        output.node place = some (.file copy) := by
  have there := (node_lib name).trans found
  rw [reaches_libPath]
  constructor
  · rintro ⟨place, walks, file⟩
    cases walks with
    | enter same plain => exact (plain target (Option.some.inj (same.symm.trans there))).elim
    | follow same start onward =>
      obtain rfl := Node.link.inj (Option.some.inj (there.symm.trans same))
      cases target with
      | absolute path => cases start
      | relative path =>
        obtain rfl := Option.some.inj start
        rw [Links.Target.path, List.append_nil] at onward
        exact ⟨_, path, place, rfl, rfl, onward, file⟩
  · rintro ⟨less, path, place, rfl, rfl, walks, file⟩
    refine ⟨place, .follow there rfl ?_, file⟩
    rwa [Links.Target.path, List.append_nil]

end Output

/-! ### Bundles -/

/-- Equal up to the rpath. -/
def IsCopy (patchelf : Patchelf α) (content copy : α) : Prop := copy = content ∨ ∃ rpath, patchelf rpath content = some copy

/-- Each dependency's name leads, inside the output directory, to a copy of the library it leads to outside. -/
def Bundled (fs : Tree Text α) (patchelf : Patchelf α) (deps : List PathBuf) (output : Output α) : Prop :=
  ∀ dep ∈ deps, ∃ name, fileName dep = some name ∧ ∃ before content, fs.Reaches before dep content ∧
    ∃ count copy, output.tree.Reaches count (Output.libPath name) copy ∧ IsCopy patchelf content copy

/-- Paths with the same name lead to the same library. -/
def SameNames (fs : Tree Text α) (deps : List PathBuf) : Prop :=
  ∀ first ∈ deps, ∀ second ∈ deps, fileName first = fileName second → ∀ count other content same,
    fs.Reaches count first content → fs.Reaches other second same → content = same

/-- A name is copied as a link that leads to another one. -/
def LeadsOn (fs : Tree Text α) (links : Nat) (order : List PathBuf) (name next : Text) : Prop :=
  ∃ path target, firstOf order name = some path ∧ fs.lstat links path = some (.link target) ∧
    landingOf target = some (.lib next)

/-- The links that are copied suit a single directory. -/
structure Flat (fs : Tree Text α) (links : Nat) (patchelf : Patchelf α) (binary : α) (order : List PathBuf) : Prop where
  /-- A link stays in `lib`, unless it leads to the binary and did so before. -/
  lands : ∀ name path target, firstOf order name = some path → fs.lstat links path = some (.link target) →
    (∃ next, landingOf target = some (.lib next)) ∨ landingOf target = some .entrypoint ∧
      ∀ count content, fs.Reaches count path content → IsCopy patchelf content binary
  acyclic : ∀ name, ¬ Relation.TransGen (LeadsOn fs links order) name name

/-- What the loop leaves in a new output directory. -/
def copiedLibs (fs : Tree Text α) (links : Nat) (patchelf : Patchelf α) (binary : α) (order : List PathBuf) : Output α :=
  ⟨binary, fun name => (firstOf order name).bind (copyOf fs links patchelf)⟩

private theorem firstOf_mem {order : List PathBuf} {name : Text} {path : PathBuf}
    (first : firstOf order name = some path) :
    path ∈ order ∧ fileName path = some name :=
  ⟨List.mem_of_find?_eq_some first, by simpa using List.find?_some first⟩

private theorem exists_firstOf {order : List PathBuf} {name : Text} {path : PathBuf} (member : path ∈ order)
    (named : fileName path = some name) : ∃ first, firstOf order name = some first := by
  rw [← Option.isSome_iff_exists, firstOf, List.find?_isSome]
  exact ⟨path, member, by simp [named]⟩

private theorem copiedLibs_lib {order : List PathBuf} {name : Text} {path : PathBuf} (binary : α)
    (first : firstOf order name = some path) :
    (copiedLibs fs links patchelf binary order).lib name = copyOf fs links patchelf path :=
  congrArg (Option.bind · _) first

section
variable {library : α → Prop} {binary : α} {order : List PathBuf} (collected : Collected fs links library none order)
  (patches : ∀ content, library content → ∃ patched, patchelf origin content = some patched)
include collected patches

private theorem copyAll_copiedLibs :
    copyAll fs links patchelf order [] (.new binary) = .ok (copiedLibs fs links patchelf binary order) := by
  have copies (dep : PathBuf) (inside : dep ∈ order) :
      ∃ name node, fileName dep = some name ∧ copyOf fs links patchelf dep = some node := by
    obtain ⟨count, followed, content, member, reaches⟩ := collected.resolves dep inside
    obtain ⟨front, name, ends⟩ := reaches.ends
    have named : fileName dep = some name := by rw [ends, fileName, List.getLast?_concat]
    obtain ⟨patched, success⟩ := patches content member
    rcases reaches.lstat followed with file | ⟨target, link, -⟩
    · exact ⟨name, .file patched, named, by simp [copyOf, file, success]⟩
    · exact ⟨name, .link target, named, by simp [copyOf, link]⟩
  have new (name : Text) (there : (Output.new binary).lib name ≠ none) : name ∈ [] := (there rfl).elim
  obtain ⟨after, ends, entrypoint, libs⟩ := copyAll_lib copies new
  have whole : after = copiedLibs fs links patchelf binary order := by
    cases after
    exact congrArg₂ Output.mk entrypoint (funext libs)
  rw [ends, whole]

/-- Where the copied links suit a single directory, each name leads where its first path did. -/
theorem Flat.reaches (flat : Flat fs links patchelf binary order) (same : SameNames fs order) {name : Text}
    (member : name ∈ order.filterMap fileName) : ∀ path before content, firstOf order name = some path →
      fs.Reaches before path content → ∃ count copy,
        (copiedLibs fs links patchelf binary order).tree.Reaches count (Output.libPath name) copy ∧
          IsCopy patchelf content copy := by
  have strict : IsStrictOrder Text fun later name => Relation.TransGen (LeadsOn fs links order) name later :=
    { irrefl := flat.acyclic, trans := fun _ _ _ first second => second.trans first }
  -- On the names, since a copied link leads on and never back.
  have descends := @Set.Finite.wellFoundedOn _ _ strict _ (List.finite_toSet (order.filterMap fileName))
  apply descends.induction member
  intro name member ih path before content first reaches
  obtain ⟨inside, named⟩ := firstOf_mem first
  obtain ⟨count, followed, _, present, reachesToo⟩ := collected.resolves path inside
  obtain ⟨rfl, rfl⟩ := reaches.det reachesToo
  have copied : (copiedLibs fs links patchelf binary order).lib name = _ := copiedLibs_lib binary first
  rcases reaches.lstat followed with file | ⟨target, link, less, shorter, onward⟩
  · obtain ⟨patched, success⟩ := patches content present
    simp only [copyOf, file, success, Option.map_some] at copied
    exact ⟨0, patched, Output.reaches_file copied, .inr ⟨origin, success⟩⟩
  · simp only [copyOf, link] at copied
    simp only [Output.reaches_link copied]
    cases target with
    | absolute target => obtain ⟨_, ⟨⟩⟩ | ⟨⟨⟩, _⟩ := flat.lands name path _ first link
    | relative target =>
      rcases flat.lands name path _ first link with ⟨next, lands⟩ | ⟨lands, isCopy⟩
      · obtain chain | ⟨⟨⟩⟩ := collected.chains path inside _ link
        have called := fileName_from path lands
        obtain ⟨other, start⟩ := exists_firstOf chain called
        obtain ⟨otherInside, otherNamed⟩ := firstOf_mem start
        obtain ⟨_, _, content', _, otherReaches⟩ := collected.resolves other otherInside
        obtain rfl := same _ chain _ otherInside (called.trans otherNamed.symm) _ _ _ _ onward otherReaches
        obtain ⟨count, copy, ends, isCopy⟩ := ih next (List.mem_filterMap.mpr ⟨other, otherInside, otherNamed⟩)
          (.single ⟨path, _, first, link, lands⟩) other _ _ start otherReaches
        obtain ⟨place, walks, file⟩ := Output.reaches_libPath.mp ends
        exact ⟨count + 1, copy, ⟨count, target, place, rfl, rfl, Output.walks_landing lands walks, file⟩, isCopy⟩
      · exact ⟨1, binary, ⟨0, target, _, rfl, rfl, Output.walks_entrypoint lands, rfl⟩, isCopy _ _ reaches⟩

private theorem Flat.bundled (flat : Flat fs links patchelf binary order) (same : SameNames fs order) :
    Bundled fs patchelf order (copiedLibs fs links patchelf binary order) := by
  intro dep inside
  obtain ⟨count, -, content, -, reaches⟩ := collected.resolves dep inside
  obtain ⟨front, name, ends⟩ := reaches.ends
  have named : fileName dep = some name := by rw [ends, fileName, List.getLast?_concat]
  obtain ⟨path, first⟩ := exists_firstOf inside named
  obtain ⟨pathInside, pathNamed⟩ := firstOf_mem first
  obtain ⟨_, _, content', _, pathReaches⟩ := collected.resolves path pathInside
  obtain rfl := same _ inside _ pathInside (named.trans pathNamed.symm) _ _ _ _ reaches pathReaches
  exact ⟨name, named, count, content, reaches, flat.reaches collected patches same
    (List.mem_filterMap.mpr ⟨path, pathInside, pathNamed⟩) path _ _ first pathReaches⟩

end

section
variable {library : α → Prop} {binary : α} {order : List PathBuf} (collected : Collected fs links library none order)
  (bundled : Bundled fs patchelf order (copiedLibs fs links patchelf binary order))

include bundled in
theorem Bundled.reaches {name : Text} {path : PathBuf} (first : firstOf order name = some path) : ∃ count copy,
    (copiedLibs fs links patchelf binary order).tree.Reaches count (Output.libPath name) copy ∧
      ∀ before content, fs.Reaches before path content → IsCopy patchelf content copy := by
  obtain ⟨inside, named⟩ := firstOf_mem first
  obtain ⟨_, again, before, content, reaches, count, copy, ends, isCopy⟩ := bundled path inside
  obtain rfl := Option.some.inj (named.symm.trans again)
  refine ⟨count, copy, ends, fun _ _ too => ?_⟩
  rw [(too.det reaches).2]
  exact isCopy

include collected bundled in
private theorem Bundled.descends {name next : Text} {count : Nat} {copy : α} (leads : LeadsOn fs links order name next)
    (reaches : (copiedLibs fs links patchelf binary order).tree.Reaches count (Output.libPath name) copy) :
    ∃ less < count, ∃ other, (copiedLibs fs links patchelf binary order).tree.Reaches less (Output.libPath next) other := by
  obtain ⟨path, target, first, link, lands⟩ := leads
  have copied : (copiedLibs fs links patchelf binary order).lib name = _ := copiedLibs_lib binary first
  simp only [copyOf, link] at copied
  obtain ⟨less, way, place, rfl, rfl, walks, -⟩ := (Output.reaches_link copied).mp reaches
  obtain chain | ⟨⟨⟩⟩ := collected.chains path (firstOf_mem first).1 _ link
  obtain ⟨start, begins⟩ := exists_firstOf chain (fileName_from path lands)
  obtain ⟨onward, other, ends, -⟩ := bundled.reaches begins
  obtain ⟨_, walksOn, -⟩ := Output.reaches_libPath.mp ends
  obtain ⟨rfl, -⟩ := walks.det (Output.walks_landing lands walksOn)
  exact ⟨less, Nat.lt_succ_self _, other, ends⟩

include collected bundled in
theorem Bundled.flat : Flat fs links patchelf binary order := by
  have files (name : Text) (there : (copiedLibs fs links patchelf binary order).lib name ≠ none) : ∃ count place content,
      (copiedLibs fs links patchelf binary order).tree.Walks count [Output.libName] [.normal name] place ∧
        (copiedLibs fs links patchelf binary order).node place = some (.file content) := by
    obtain ⟨path, first⟩ : ∃ path, firstOf order name = some path := by
      cases first : firstOf order name with
      | none => exact (there (congrArg (Option.bind · _) first)).elim
      | some path => exact ⟨path, rfl⟩
    obtain ⟨count, copy, ends, -⟩ := bundled.reaches first
    obtain ⟨place, walks, file⟩ := Output.reaches_libPath.mp ends
    exact ⟨count, place, copy, walks, file⟩
  constructor
  · intro name path target first link
    have copied : (copiedLibs fs links patchelf binary order).lib name = _ := copiedLibs_lib binary first
    simp only [copyOf, link] at copied
    obtain ⟨count, copy, ends, isCopy⟩ := bundled.reaches first
    obtain ⟨less, way, place, rfl, rfl, walks, file⟩ := (Output.reaches_link copied).mp ends
    rcases Output.landing_of_walks files walks file with lands | ⟨lands, rfl⟩
    · exact .inl lands
    · exact .inr ⟨lands, isCopy⟩
  · intro name circle
    have descends {next : Text} (chain : Relation.TransGen (LeadsOn fs links order) name next) {count : Nat} {copy : α}
        (reaches : (copiedLibs fs links patchelf binary order).tree.Reaches count (Output.libPath name) copy) :
        ∃ less < count, ∃ other, (copiedLibs fs links patchelf binary order).tree.Reaches less (Output.libPath next) other := by
      induction chain with
      | single leads => exact bundled.descends collected leads reaches
      | tail chain leads ih =>
        obtain ⟨less, shorter, other, onward⟩ := ih
        obtain ⟨least, shortest, last, ends⟩ := bundled.descends collected leads onward
        exact ⟨least, shortest.trans shorter, last, ends⟩
    obtain ⟨next, ⟨path, target, first, -⟩, -⟩ := Relation.TransGen.head'_iff.mp circle
    obtain ⟨count, copy, ends, -⟩ := bundled.reaches first
    obtain ⟨less, shorter, other, again⟩ := descends circle ends
    exact absurd (ends.det again).1 (Nat.ne_of_gt shorter)

end

section
variable (fs : Tree Text α) (patchelf : Patchelf α) (binary : α) {reported : List PathBuf}

/-- Collecting and copying succeed, and what they come to. -/
theorem libs_copied (resolves : ∀ path ∈ reported, ∃ count ≤ links, ∃ content, fs.Reaches count path content)
    (patches : ∀ path ∈ reported, ∀ count content, fs.Reaches count path content →
      ∃ patched, patchelf origin content = some patched) :
    ∀ turns > links, ∃ deps,
      collectAll fs links turns reported [] = some (.ok deps) ∧ (∀ path ∈ reported, path ∈ deps) ∧
        ∀ order, order.Perm deps →
          copyAll fs links patchelf order [] (.new binary) = .ok (copiedLibs fs links patchelf binary order) ∧
            (SameNames fs deps →
              (Bundled fs patchelf deps (copiedLibs fs links patchelf binary order) ↔ Flat fs links patchelf binary order)) := by
  intro turns enough
  let library (content : α) : Prop := ∃ path ∈ reported, ∃ count, fs.Reaches count path content
  have within (path : PathBuf) (member : path ∈ reported) :
      ∃ count ≤ links, ∃ content, library content ∧ fs.Reaches count path content := by
    obtain ⟨count, followed, content, reaches⟩ := resolves path member
    exact ⟨count, followed, content, ⟨path, member, count, reaches⟩, reaches⟩
  have libraries (content : α) (member : library content) : ∃ patched, patchelf origin content = some patched := by
    obtain ⟨path, inside, count, reaches⟩ := member
    exact patches path inside count content reaches
  obtain ⟨deps, ends, collected, all, -⟩ := collectAll_collected within enough .nil
  refine ⟨deps, ends, all, fun order perm => ?_⟩
  have ordered := collected.perm perm
  refine ⟨copyAll_copiedLibs ordered libraries, fun same => ?_⟩
  have sameOrdered : SameNames fs order := by simpa only [SameNames, perm.mem_iff] using same
  have members : Bundled fs patchelf deps = Bundled fs patchelf order := by
    funext output
    simp only [Bundled, perm.mem_iff]
  rw [members]
  exact ⟨fun bundled => bundled.flat ordered, fun flat => flat.bundled ordered libraries sameOrdered⟩

/-- The program, for what `ldd` writes and any order in which the set is iterated. -/
theorem bundle_copies (stdout : Text) (iterate : List PathBuf → List PathBuf) (orders : ∀ deps, (iterate deps).Perm deps)
    (resolves : ∀ path ∈ (stdout.splitOn '\n').filterMap reportedPath, ∃ count ≤ links, ∃ content,
      fs.Reaches count path content)
    (patches : ∀ path ∈ (stdout.splitOn '\n').filterMap reportedPath, ∀ count content, fs.Reaches count path content →
      ∃ patched, patchelf origin content = some patched) :
    ∀ turns > links, ∃ deps output,
      bundle fs links patchelf turns (some stdout) binary iterate = some (.ok output) ∧
        (∀ path ∈ (stdout.splitOn '\n').filterMap reportedPath, path ∈ deps) ∧
          (SameNames fs deps → (Bundled fs patchelf deps output ↔ Flat fs links patchelf binary (iterate deps))) := by
  intro turns enough
  obtain ⟨deps, ends, all, iterated⟩ := libs_copied fs patchelf binary resolves patches turns enough
  obtain ⟨copies, flat⟩ := iterated (iterate deps) (orders deps)
  refine ⟨deps, _, ?_, all, flat⟩
  rw [bundle, getDependencies, ends]
  exact congrArg some copies

end

/-- The bundle contains every library it needs exactly when the links that are copied
suit a single directory. -/
theorem bundled_iff (fs : Tree Text α) (links : Nat) (patchelf : Patchelf α) (binary : α) (reported : List PathBuf)
    (resolves : ∀ path ∈ reported, ∃ count ≤ links, ∃ content, fs.Reaches count path content)
    (patches : ∀ path ∈ reported, ∀ count content, fs.Reaches count path content →
      ∃ patched, patchelf origin content = some patched) :
    ∀ turns > links, ∃ deps,
      collectAll fs links turns reported [] = some (.ok deps) ∧ (∀ path ∈ reported, path ∈ deps) ∧
        (SameNames fs deps → ∀ order, order.Perm deps →
          ∃ output, copyAll fs links patchelf order [] (.new binary) = .ok output ∧
            (Bundled fs patchelf deps output ↔ Flat fs links patchelf binary order)) := by
  intro turns enough
  obtain ⟨deps, ends, all, iterated⟩ := libs_copied fs patchelf binary resolves patches turns enough
  exact ⟨deps, ends, all, fun same order perm => ⟨_, (iterated order perm).1, (iterated order perm).2 same⟩⟩

/-! ### The dynamic loader -/

/-- A file with its rpath. -/
abbrev Elf := Text × Text

def setRpath : Patchelf Elf := fun rpath elf => some (rpath, elf.2)

private def ld : Text := "ld-linux-x86-64.so.2".toList
private def gnu : Text := "x86_64-linux-gnu".toList
private def usr : Text := "usr".toList
private def lib : Text := "lib".toList
private def lib64 : Text := "lib64".toList

/-- The links in the build image on the way to the dynamic loader. -/
private def trixie : Tree Text Elf := .ofList
  [([lib64], .link (.relative [.normal usr, .normal lib64])), ([usr], .dir), ([usr, lib], .dir), ([usr, lib64], .dir),
    ([usr, lib, gnu], .dir), ([usr, lib, gnu, ld], .file ([], ld)),
    ([usr, lib64, ld], .link (.relative [.parentDir, .normal lib, .normal gnu, .normal ld]))]
  (by decide)

private def loader : PathBuf := [.normal lib64, .normal ld]
private def loaderItself : PathBuf := [.normal lib64, .parentDir, .normal lib, .normal gnu, .normal ld]
private def app : Elf := ([], "app".toList)

private theorem trixie_reaches {path : PathBuf} (member : path ∈ [loader, loaderItself]) :
    ∃ count ≤ 40, trixie.Reaches count path ([], ld) := by
  have ends : ∀ path ∈ [loader, loaderItself], trixie.walk 40 [] path = some [usr, lib, gnu, ld] := by decide
  exact Tree.reaches_of_walk (ends path member) rfl

private theorem trixie_sameNames : SameNames trixie [loader, loaderItself] := by
  intro first firstMember second secondMember _ _ _ _ _ reaches reachesToo
  obtain ⟨_, -, known⟩ := trixie_reaches firstMember
  obtain ⟨_, -, knownToo⟩ := trixie_reaches secondMember
  rw [(reaches.det known).2, (reachesToo.det knownToo).2]

/-- When the loader itself comes first, it is the one that is copied. -/
theorem bundled_iff_trixie : ∃ output,
    copyAll trixie 40 setRpath [loaderItself, loader] [] (.new app) = .ok output ∧
      Bundled trixie setRpath [loader, loaderItself] output := by
  have resolves (path : PathBuf) (member : path ∈ [loader]) :
      ∃ count ≤ 40, ∃ content, trixie.Reaches count path content := by
    obtain rfl := List.mem_singleton.mp member
    obtain ⟨count, followed, reaches⟩ := trixie_reaches (.head _)
    exact ⟨count, followed, _, reaches⟩
  obtain ⟨deps, ends, -, copied⟩ :=
    bundled_iff trixie 40 setRpath app [loader] resolves (fun _ _ _ content _ => ⟨(origin, content.2), rfl⟩) 41 (by decide)
  have collects : collectAll trixie 40 41 [loader] [] = some (.ok [loader, loaderItself]) := by decide
  cases collects.symm.trans ends
  obtain ⟨output, copies, bundled⟩ := copied trixie_sameNames [loaderItself, loader] (.swap ..)
  refine ⟨output, copies, bundled.mpr ?_⟩
  have plain {name : Text} {path : PathBuf} {target : Target} (first : firstOf [loaderItself, loader] name = some path)
      (link : trixie.lstat 40 path = some (.link target)) : False := by
    obtain ⟨member, named⟩ := firstOf_mem first
    have ends : ∀ path ∈ [loaderItself, loader], fileName path = some ld := by decide
    obtain rfl := Option.some.inj ((ends path member).symm.trans named)
    have here : firstOf [loaderItself, loader] ld = some loaderItself := by decide
    obtain rfl := Option.some.inj (here.symm.trans first)
    have file : trixie.lstat 40 loaderItself = some (.file ([], ld)) := by decide
    cases file.symm.trans link
  constructor
  · exact fun name path target first link => (plain first link).elim
  · intro name circle
    obtain ⟨next, ⟨path, target, first, link, -⟩, -⟩ := Relation.TransGen.head'_iff.mp circle
    exact plain first link

/-- The link to the loader is copied before the loader, whose name it has. In the
output directory it leads nowhere. -/
theorem loader_dangles : (∃ count ≤ 40, ∃ content, trixie.Reaches count loader content) ∧
    collectAll trixie 40 41 [loader] [] = some (.ok [loader, loaderItself]) ∧ SameNames trixie [loader, loaderItself] ∧
      ∃ output, copyAll trixie 40 setRpath [loader, loaderItself] [] (.new app) = .ok output ∧
        ¬ Bundled trixie setRpath [loader, loaderItself] output := by
  refine ⟨?_, by decide, trixie_sameNames, _, rfl, ?_⟩
  · obtain ⟨count, followed, reaches⟩ := trixie_reaches (.head _)
    exact ⟨count, followed, _, reaches⟩
  · intro bundled
    obtain ⟨name, named, -, -, -, count, copy, reaches, -⟩ := bundled loader (.head _)
    obtain rfl := Option.some.inj named
    obtain ⟨less, path, place, -, ⟨⟩, walks, file⟩ := (Output.reaches_link rfl).mp reaches
    rcases Output.walks_down (Output.walks_up walks) file with ⟨-, inside⟩ | ⟨never, -⟩
    · cases inside with
      | enter found | follow found => cases (Output.node_lib gnu).symm.trans found
    · cases never

end Pos2.Bundler
