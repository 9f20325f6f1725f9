import Mathlib.Data.List.Nodup
import Mathlib.Data.List.Sort

/-! Lists whose items have keys of their own, as maps. An item is found by its key; it is
changed in its place, or comes new behind all others. Sorted by their keys the items of a
map come in one order only. -/

namespace Keyed
variable {α κ : Type} (key : α → κ)

section
variable [DecidableEq κ]

def find (k : κ) (items : List α) : Option α := items.find? fun item => key item = k

/-- What is under a key is changed, or comes new behind all others. -/
def revise (change : α → α) (new : α) : List α → List α
  | [] => [new]
  | item :: rest => if key item = key new then change item :: rest else item :: revise change new rest

variable {key} {change : α → α} {new : α} {items : List α}

@[simp] theorem find_nil (k : κ) : find key k [] = none := rfl

theorem find_cons (k : κ) (item : α) (rest : List α) :
    find key k (item :: rest) = if key item = k then some item else find key k rest := by
  by_cases same : key item = k <;> simp [find, same]

/-- Where the keys are apart the item under a key is the only one. -/
theorem find_eq_some (distinct : (items.map key).Nodup) {k : κ} {item : α} :
    find key k items = some item ↔ item ∈ items ∧ key item = k := by
  induction items with
  | nil => simp
  | cons first rest ih =>
    rw [List.map_cons, List.nodup_cons] at distinct
    rw [find_cons, List.mem_cons]
    split
    next same =>
      have absent : ∀ other ∈ rest, key other ≠ k := by
        intro other inside again
        exact distinct.1 (List.mem_map.mpr ⟨other, inside, again.trans same.symm⟩)
      constructor
      · intro found
        cases found
        exact ⟨.inl rfl, same⟩
      · rintro ⟨rfl | inside, again⟩
        · rfl
        · exact (absent item inside again).elim
    next other =>
      rw [ih distinct.2]
      constructor
      · exact fun found => ⟨.inr found.1, found.2⟩
      · rintro ⟨rfl | inside, same⟩
        · exact (other same).elim
        · exact ⟨inside, same⟩

/-- A new key comes at the end. -/
theorem revise_absent (change : α → α) (absent : key new ∉ items.map key) :
    revise key change new items = items ++ [new] := by
  induction items with
  | nil => rfl
  | cons item rest ih =>
    rw [List.map_cons, List.mem_cons, not_or] at absent
    rw [revise, if_neg (Ne.symm absent.1), ih absent.2, List.cons_append]

/-- A key that came last is found there. -/
theorem revise_last (change : α → α) {last : α} (same : key last = key new) (absent : key new ∉ items.map key) :
    revise key change new (items ++ [last]) = items ++ [change last] := by
  induction items with
  | nil => simp [revise, same]
  | cons item rest ih =>
    rw [List.map_cons, List.mem_cons, not_or] at absent
    rw [List.cons_append, revise, if_neg (Ne.symm absent.1), ih absent.2, List.cons_append]

section
variable (kept : ∀ item, key item = key new → key (change item) = key new)
include kept

theorem revise_keys (items : List α) :
    (revise key change new items).map key =
      if key new ∈ items.map key then items.map key else items.map key ++ [key new] := by
  induction items with
  | nil => simp [revise]
  | cons item rest ih =>
    rw [revise]
    split
    next same => simp [kept item same, same]
    next other => rw [List.map_cons, ih]; split <;> simp_all [Ne.symm other]

theorem revise_distinct (distinct : (items.map key).Nodup) : ((revise key change new items).map key).Nodup := by
  rw [revise_keys kept]
  split
  next => exact distinct
  next absent => exact List.nodup_append'.mpr ⟨distinct, by simp, by simpa [List.Disjoint] using absent⟩

theorem find_revise (k : κ) (items : List α) :
    find key k (revise key change new items) =
      if key new = k then some (((find key k items).map change).getD new) else find key k items := by
  induction items with
  | nil => rw [revise, find_cons]; simp
  | cons item rest ih =>
    rw [revise]
    by_cases same : key item = key new
    · by_cases asked : key new = k
      · simp [find_cons, same, kept item same, asked]
      · simp [find_cons, same, kept item same, asked]
    · rw [if_neg same, find_cons, find_cons, ih]
      by_cases asked : key new = k
      · simp [← asked, same]
      · simp [asked]

end
end

section
variable [LinearOrder κ]

def sorted (items : List α) : List α := items.mergeSort fun first second => key first ≤ key second

variable {key} {items others : List α}

theorem sorted_perm (items : List α) : (sorted key items).Perm items := List.mergeSort_perm _ _

@[simp] theorem mem_sorted {item : α} : item ∈ sorted key items ↔ item ∈ items := (sorted_perm items).mem_iff

theorem sorted_ascends (items : List α) : (sorted key items).Pairwise fun first second => key first ≤ key second := by
  have sorts : (sorted key items).Pairwise fun first second => decide (key first ≤ key second) = true := by
    apply List.pairwise_mergeSort
    · intro first second third one two
      simp only [decide_eq_true_eq] at one two ⊢
      exact le_trans one two
    · intro first second
      simp only [Bool.or_eq_true, decide_eq_true_eq]
      exact le_total _ _
  exact sorts.imp fun below => of_decide_eq_true below

/-- Where the keys are apart each is less than the next. -/
theorem sorted_strict (distinct : (items.map key).Nodup) : ((sorted key items).map key).Pairwise (· < ·) := by
  have apart : ((sorted key items).map key).Nodup := ((sorted_perm items).map key).nodup_iff.mpr distinct
  rw [List.pairwise_map]
  exact ((sorted_ascends items).and (List.pairwise_map.mp apart)).imp fun both => lt_of_le_of_ne both.1 both.2

/-- The order in which a map gives its items does not matter. -/
theorem sorted_unique (perm : items.Perm others) (distinct : (items.map key).Nodup) : sorted key items = sorted key others := by
  have same : (sorted key items).Perm (sorted key others) := ((sorted_perm items).trans perm).trans (sorted_perm others).symm
  have distinct' : (others.map key).Nodup := (perm.map key).nodup_iff.mp distinct
  refine same.eq_of_pairwise ?_ (sorted_ascends items) (sorted_ascends others)
  intro first second inside inside' below above
  have one := (find_eq_some distinct').mpr ⟨perm.mem_iff.mp (mem_sorted.mp inside), rfl⟩
  have two := (find_eq_some distinct').mpr ⟨mem_sorted.mp inside', rfl⟩
  rw [le_antisymm below above, two] at one
  exact (Option.some.inj one).symm

theorem sorted_self (ascends : items.Pairwise fun first second => key first ≤ key second) : sorted key items = items :=
  List.mergeSort_of_pairwise (ascends.imp fun below => decide_eq_true below)

end

end Keyed
