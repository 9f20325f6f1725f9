import Mathlib.Data.List.Basic

/-! Trees of files and symbolic links, and how a path is walked in them. A link is
followed from the directory it lies in, wherever on the path it is. -/

namespace Links
variable {Name α : Type}

/-- A component of a path; `.` says nothing and is left out. -/
inductive Component (Name : Type) where
  | parentDir
  | normal (name : Name)
  deriving DecidableEq

/-- What a symbolic link holds. -/
inductive Target (Name : Type) where
  | absolute (path : List (Component Name))
  | relative (path : List (Component Name))
  deriving DecidableEq

def Target.path : Target Name → List (Component Name)
  | .absolute path => path
  | .relative path => path

/-- The path a link leads to that lies at an absolute one. -/
def Target.from (target : Target Name) (path : List (Component Name)) : List (Component Name) :=
  match target with
  | .absolute target => target
  | .relative target => path.dropLast ++ target

inductive Node (Name α : Type) where
  | file (content : α)
  | dir
  | link (target : Target Name)
  deriving DecidableEq

/-- The nodes by their places: their names from the root on. -/
structure Tree (Name α : Type) where
  node : List Name → Option (Node Name α)
  root : node [] = some .dir
  parent : ∀ place name, node (place ++ [name]) ≠ none → node place = some .dir
  /-- Nothing is above the root of a whole file system, and its absolute paths begin there.
  Elsewhere both lead out of the tree. -/
  whole : Bool

section
variable [DecidableEq Name]

/-- The node that is listed at a place, below a root. -/
def listed (entries : List (List Name × Node Name α)) (place : List Name) : Option (Node Name α) :=
  if place = [] then some .dir else entries.lookup place

/-- A whole file system of finitely many nodes, in directories that are listed too. -/
def Tree.ofList (entries : List (List Name × Node Name α))
    (closed : ∀ entry ∈ entries, listed entries entry.1.dropLast = some .dir) : Tree Name α where
  node := listed entries
  root := if_pos rfl
  parent := by
    intro place name present
    rw [listed, if_neg (by simp), ← Option.isSome_iff_ne_none, List.lookup_isSome_iff] at present
    obtain ⟨entry, member, same⟩ := present
    rw [← closed entry member, ← eq_of_beq same, List.dropLast_concat]
  whole := true

end

namespace Tree
variable (tree : Tree Name α)

def above : List Name → Option (List Name)
  | [] => if tree.whole then some [] else none
  | name :: rest => some (name :: rest).dropLast

/-- Where the walk along a link begins. -/
def start (place : List Name) : Target Name → Option (List Name)
  | .absolute _ => if tree.whole then some [] else none
  | .relative _ => some place

/-- A path leads from a place to another, along so many links. -/
inductive Walks : Nat → List Name → List (Component Name) → List Name → Prop where
  | here {place} : Walks 0 place [] place
  | up {count place parent rest final} (dir : tree.node place = some .dir) (above : tree.above place = some parent)
      (onward : Walks count parent rest final) : Walks count place (.parentDir :: rest) final
  | enter {count place name node rest final} (found : tree.node (place ++ [name]) = some node)
      (plain : ∀ target, node ≠ .link target) (onward : Walks count (place ++ [name]) rest final) :
      Walks count place (.normal name :: rest) final
  | follow {count place name target first rest final} (found : tree.node (place ++ [name]) = some (.link target))
      (start : tree.start place target = some first) (onward : Walks count first (target.path ++ rest) final) :
      Walks (count + 1) place (.normal name :: rest) final

variable {tree}

theorem Walks.append {before after : Nat} {place mid final : List Name} {first second : List (Component Name)}
    (toMid : tree.Walks before place first mid) (toFinal : tree.Walks after mid second final) :
    tree.Walks (before + after) place (first ++ second) final := by
  induction toMid with
  | here => rwa [Nat.zero_add]
  | up dir above onward ih => exact .up dir above (ih toFinal)
  | enter found plain onward ih => exact .enter found plain (ih toFinal)
  | follow found start onward ih =>
    rw [Nat.add_right_comm]
    exact .follow found start (List.append_assoc .. ▸ ih toFinal)

theorem Walks.split {count : Nat} {place final : List Name} {first second : List (Component Name)}
    (walks : tree.Walks count place (first ++ second) final) :
    ∃ before after mid, count = before + after ∧ tree.Walks before place first mid ∧ tree.Walks after mid second final := by
  generalize whole : first ++ second = path at walks
  induction walks generalizing first with
  | @here place =>
    obtain ⟨rfl, rfl⟩ := List.append_eq_nil_iff.mp whole
    exact ⟨0, 0, place, rfl, .here, .here⟩
  | @up count place parent rest final dir above onward ih =>
    cases first with
    | nil =>
      obtain rfl : second = _ := whole
      exact ⟨0, _, place, (Nat.zero_add _).symm, .here, .up dir above onward⟩
    | cons component others =>
      obtain ⟨rfl, rfl⟩ := List.cons.inj whole
      obtain ⟨before, after, mid, counts, toMid, toFinal⟩ := ih rfl
      exact ⟨before, after, mid, counts, .up dir above toMid, toFinal⟩
  | @enter count place name node rest final found plain onward ih =>
    cases first with
    | nil =>
      obtain rfl : second = _ := whole
      exact ⟨0, _, place, (Nat.zero_add _).symm, .here, .enter found plain onward⟩
    | cons component others =>
      obtain ⟨rfl, rfl⟩ := List.cons.inj whole
      obtain ⟨before, after, mid, counts, toMid, toFinal⟩ := ih rfl
      exact ⟨before, after, mid, counts, .enter found plain toMid, toFinal⟩
  | @follow count place name target start rest final found starts onward ih =>
    cases first with
    | nil =>
      obtain rfl : second = _ := whole
      exact ⟨0, _, place, (Nat.zero_add _).symm, .here, .follow found starts onward⟩
    | cons component others =>
      obtain ⟨rfl, rfl⟩ := List.cons.inj whole
      obtain ⟨before, after, mid, counts, toMid, toFinal⟩ := ih (List.append_assoc target.path others second)
      exact ⟨before + 1, after, mid, by omega, .follow found starts toMid, toFinal⟩

theorem Walks.det {count other : Nat} {place final elsewhere : List Name} {path : List (Component Name)}
    (walks : tree.Walks count place path final) (too : tree.Walks other place path elsewhere) :
    count = other ∧ final = elsewhere := by
  induction walks generalizing other with
  | here =>
    cases too
    exact ⟨rfl, rfl⟩
  | up dir above onward ih =>
    cases too with
    | up _ same rest =>
      obtain rfl := Option.some.inj (above.symm.trans same)
      exact ih rest
  | enter found plain onward ih =>
    cases too with
    | enter _ _ rest => exact ih rest
    | follow link => exact (plain _ (Option.some.inj (found.symm.trans link))).elim
  | follow found start onward ih =>
    cases too with
    | enter same plain => exact (plain _ (Option.some.inj (same.symm.trans found))).elim
    | follow same begins rest =>
      obtain rfl := Node.link.inj (Option.some.inj (found.symm.trans same))
      obtain rfl := Option.some.inj (start.symm.trans begins)
      obtain ⟨rfl, ends⟩ := ih rest
      exact ⟨rfl, ends⟩

/-- Nothing is below a file. -/
theorem Walks.from_file {count : Nat} {place final : List Name} {path : List (Component Name)} {content : α}
    (file : tree.node place = some (.file content)) (walks : tree.Walks count place path final) : path = [] := by
  have below (name : Name) (node : Node Name α) (found : tree.node (place ++ [name]) = some node) : False := by
    have dir := tree.parent place name (by rw [found]; exact Option.some_ne_none _)
    cases file.symm.trans dir
  cases walks with
  | here => rfl
  | up dir => cases file.symm.trans dir
  | enter found => exact (below _ _ found).elim
  | follow found => exact (below _ _ found).elim

/-! ### Walking -/

/-- The walk up to the first link, and what follows it from there. -/
def walkWith (tree : Tree Name α) (follow : List Name → List (Component Name) → Option (List Name)) :
    List Name → List (Component Name) → Option (List Name)
  | place, [] => some place
  | place, .parentDir :: rest =>
    match tree.node place, tree.above place with
    | some .dir, some parent => walkWith tree follow parent rest
    | _, _ => none
  | place, .normal name :: rest =>
    match tree.node (place ++ [name]) with
    | none => none
    | some (.link target) => (tree.start place target).bind fun first => follow first (target.path ++ rest)
    | some _ => walkWith tree follow (place ++ [name]) rest

/-- Along so many links at most. -/
def walk (tree : Tree Name α) : Nat → List Name → List (Component Name) → Option (List Name)
  | 0 => tree.walkWith fun _ _ => none
  | links + 1 => tree.walkWith (walk tree links)

theorem walkWith_walks {follow : List Name → List (Component Name) → Option (List Name)} {links : Nat}
    (follows : ∀ place path final, follow place path = some final → ∃ count < links, tree.Walks count place path final)
    {place final : List Name} {path : List (Component Name)} (found : tree.walkWith follow place path = some final) :
    ∃ count ≤ links, tree.Walks count place path final := by
  fun_induction walkWith tree follow place path with
  | case1 place =>
    obtain rfl := Option.some.inj found
    exact ⟨0, Nat.zero_le _, .here⟩
  | case2 place rest parent above dir ih =>
    obtain ⟨count, small, walks⟩ := ih found
    exact ⟨count, small, .up dir above walks⟩
  | case3 | case4 => cases found
  | case5 place name rest target link =>
    obtain ⟨first, start, followed⟩ := Option.bind_eq_some_iff.mp found
    obtain ⟨count, small, walks⟩ := follows _ _ _ followed
    exact ⟨count + 1, small, .follow link start walks⟩
  | case6 place name rest node plain there ih =>
    obtain ⟨count, small, walks⟩ := ih found
    exact ⟨count, small, .enter there plain walks⟩

theorem walk_walks {links : Nat} {place final : List Name} {path : List (Component Name)}
    (found : tree.walk links place path = some final) : ∃ count ≤ links, tree.Walks count place path final := by
  induction links generalizing place final path with
  | zero => exact walkWith_walks (fun _ _ _ never => (Option.some_ne_none _ never.symm).elim) found
  | succ links ih =>
    refine walkWith_walks (fun place path final followed => ?_) found
    obtain ⟨count, small, walks⟩ := ih followed
    exact ⟨count, Nat.lt_succ_of_le small, walks⟩

theorem Walks.walk {count links : Nat} {place final : List Name} {path : List (Component Name)}
    (walks : tree.Walks count place path final) (enough : count ≤ links) : tree.walk links place path = some final := by
  induction walks generalizing links with
  | here => cases links <;> rfl
  | up dir above onward ih =>
    have onward := ih enough
    cases links <;> simpa only [Tree.walk, walkWith, dir, above] using onward
  | @enter count place name node rest final found plain onward ih =>
    have onward := ih enough
    cases node with
    | link target => exact (plain target rfl).elim
    | dir | file content => cases links <;> simpa only [Tree.walk, walkWith, found] using onward
  | follow found start onward ih =>
    cases links with
    | zero => cases enough
    | succ links =>
      simp only [Tree.walk, walkWith, found, start, Option.bind_some]
      exact ih (Nat.le_of_succ_le_succ enough)

/-! ### What is at a path -/

/-- The node at a path. A link at its end is not followed. -/
def lstat (tree : Tree Name α) (links : Nat) (path : List (Component Name)) : Option (Node Name α) :=
  match path.getLast? with
  | some (.normal name) => (tree.walk links [] path.dropLast).bind fun place => tree.node (place ++ [name])
  | _ => (tree.walk links [] path).bind tree.node

theorem lstat_normal {links : Nat} {front : List (Component Name)} {name : Name} :
    tree.lstat links (front ++ [.normal name]) =
      (tree.walk links [] front).bind fun place => tree.node (place ++ [name]) := by
  rw [lstat, List.getLast?_concat, List.dropLast_concat]

/-- A path leads to a file, along so many links. -/
def Reaches (tree : Tree Name α) (count : Nat) (path : List (Component Name)) (content : α) : Prop :=
  ∃ place, tree.Walks count [] path place ∧ tree.node place = some (.file content)

theorem Reaches.det {count other : Nat} {path : List (Component Name)} {content same : α}
    (reaches : tree.Reaches count path content) (too : tree.Reaches other path same) : count = other ∧ content = same := by
  obtain ⟨place, walks, file⟩ := reaches
  obtain ⟨elsewhere, walksToo, fileToo⟩ := too
  obtain ⟨counts, rfl⟩ := walks.det walksToo
  exact ⟨counts, Node.file.inj (Option.some.inj (file.symm.trans fileToo))⟩

theorem above_dir {place above : List Name} (dir : tree.node place = some .dir) (found : tree.above place = some above) :
    tree.node above = some .dir := by
  rcases place.eq_nil_or_concat with rfl | ⟨front, name, rfl⟩
  · rw [Tree.above] at found
    split at found
    · obtain rfl := Option.some.inj found
      exact dir
    · cases found
  · rw [List.concat_eq_append] at dir found
    have back : tree.above (front ++ [name]) = some front := by
      cases front with
      | nil => rfl
      | cons first rest => rw [List.cons_append, Tree.above, ← List.cons_append, List.dropLast_concat]
    obtain rfl := Option.some.inj (back.symm.trans found)
    exact tree.parent front name (by rw [dir]; exact Option.some_ne_none _)

theorem reaches_of_walk {links : Nat} {path : List (Component Name)} {place : List Name} {content : α}
    (found : tree.walk links [] path = some place) (file : tree.node place = some (.file content)) :
    ∃ count ≤ links, tree.Reaches count path content := by
  obtain ⟨count, followed, walks⟩ := walk_walks found
  exact ⟨count, followed, place, walks, file⟩

/-- A path to a file ends with a name. -/
theorem Reaches.ends {count : Nat} {path : List (Component Name)} {content : α} (reaches : tree.Reaches count path content) :
    ∃ front name, path = front ++ [.normal name] := by
  obtain ⟨final, walks, file⟩ := reaches
  rcases path.eq_nil_or_concat with rfl | ⟨front, component, rfl⟩
  · cases walks
    rw [tree.root] at file
    cases file
  · rw [List.concat_eq_append] at walks ⊢
    obtain ⟨before, after, mid, -, -, last⟩ := walks.split
    cases component with
    | normal name => exact ⟨front, name, rfl⟩
    | parentDir =>
      cases last with
      | up dir above onward =>
        cases onward
        rw [above_dir dir above] at file
        cases file

/-- At a path to a file there is that file, or a link from which the way is shorter. -/
theorem Reaches.lstat {count links : Nat} {path : List (Component Name)} {content : α}
    (reaches : tree.Reaches count path content) (enough : count ≤ links) :
    tree.lstat links path = some (.file content) ∨
      ∃ target, tree.lstat links path = some (.link target) ∧ ∃ less < count, tree.Reaches less (target.from path) content := by
  obtain ⟨front, name, rfl⟩ := reaches.ends
  obtain ⟨final, walks, file⟩ := reaches
  obtain ⟨before, after, mid, counts, toMid, last⟩ := walks.split
  rw [lstat_normal, toMid.walk (by omega), Option.bind_some]
  cases last with
  | enter found plain onward =>
    cases onward
    exact .inl file
  | @follow count _ _ target first _ _ found start onward =>
    refine .inr ⟨target, found, ?_⟩
    rw [List.append_nil] at onward
    cases target with
    | absolute path =>
      have root : first = [] := by
        rw [Tree.start] at start
        split at start
        · exact (Option.some.inj start).symm
        · cases start
      subst root
      exact ⟨count, by omega, final, onward, file⟩
    | relative path =>
      obtain rfl := Option.some.inj start
      rw [Target.from, List.dropLast_concat]
      exact ⟨before + count, by omega, final, toMid.append onward, file⟩

end Tree
end Links
