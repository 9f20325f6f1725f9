import Mathlib.Data.List.Basic
import Mathlib.Order.Lattice
import Mathlib.Algebra.Order.Group.Nat

/-! Files as histories of edits. A file holds, at each position, what the last
write there has put since the position was last cut off. -/

namespace Edits
variable {α : Type}

section
variable (blank : α)

theorem getD_append_blanks (items : List α) (n i : Nat) :
    (items ++ List.replicate n blank).getD i blank = items.getD i blank := by
  simp only [List.getD_eq_getElem?_getD, List.getElem?_append, List.getElem?_replicate]
  split
  · rfl
  · rename_i outside
    rw [List.getElem?_eq_none (Nat.le_of_not_lt outside)]
    split <;> rfl

theorem getD_blanks (n i : Nat) : (List.replicate n blank).getD i blank = blank := by
  have same := getD_append_blanks blank [] n i
  rwa [List.nil_append, List.getD_nil] at same

theorem getD_outside {items : List α} {i : Nat} (outside : items.length ≤ i) : items.getD i blank = blank := by
  rw [List.getD_eq_getElem?_getD, List.getElem?_eq_none outside, Option.getD_none]

theorem getD_take (items : List α) (n i : Nat) :
    (items.take n).getD i blank = if i < n then items.getD i blank else blank := by
  simp only [List.getD_eq_getElem?_getD, List.getElem?_take]
  split <;> rfl

/-- Where the data of a write lies inside the file, it replaces just that part. -/
theorem getD_splice (items data : List α) (offset i : Nat) (fits : offset + data.length ≤ items.length) :
    (items.take offset ++ data ++ items.drop (offset + data.length)).getD i blank =
      if offset ≤ i ∧ i < offset + data.length then data.getD (i - offset) blank else items.getD i blank := by
  have start : (items.take offset).length = offset := List.length_take_of_le (by omega)
  simp only [List.getD_eq_getElem?_getD, List.getElem?_append, List.length_append, start]
  by_cases before : i < offset
  · rw [if_pos (by omega), if_pos before, if_neg (by omega), List.getElem?_take_of_lt before]
  · by_cases inside : i < offset + data.length
    · rw [if_pos inside, if_neg before, if_pos ⟨by omega, inside⟩]
    · rw [if_neg inside, if_neg (by omega), List.getElem?_drop]
      congr 2
      omega

theorem eq_of_getD {first second : List α} (length : first.length = second.length)
    (same : ∀ i < first.length, first.getD i blank = second.getD i blank) : first = second := by
  apply List.ext_getElem length
  intro i inside inside'
  have here := same i inside
  rwa [List.getD_eq_getElem?_getD, List.getD_eq_getElem?_getD, List.getElem?_eq_getElem inside,
    List.getElem?_eq_getElem inside'] at here

end

inductive Edit (α : Type) where
  | write (offset : Nat) (data : List α)
  | truncate (size : Nat)

/-- From the last edit back to the first. -/
abbrev History (α : Type) := List (Edit α)

/-- The size of a file that had `start` items before its history. -/
def size (start : Nat) : History α → Nat
  | [] => start
  | .write offset data :: earlier => max (size start earlier) (offset + data.length)
  | .truncate cut :: earlier => min cut (size start earlier)

/-- The item at a position: the last write to it since it was last cut off, or
what the file had there at the start, or a blank. -/
def item (blank : α) (start : List α) (i : Nat) : History α → α
  | [] => start.getD i blank
  | .write offset data :: earlier =>
    if offset ≤ i ∧ i < offset + data.length then data.getD (i - offset) blank else item blank start i earlier
  | .truncate cut :: earlier => if i < cut then item blank start i earlier else blank

/-- An edit of a vector. A write behind its end leaves a gap of blanks. -/
def Edit.apply (blank : α) : Edit α → List α → List α
  | .write offset data, items =>
    let items := items ++ List.replicate (offset + data.length - items.length) blank
    items.take offset ++ data ++ items.drop (offset + data.length)
  | .truncate cut, items => items.take cut

def replay (blank : α) (start : List α) (history : History α) : List α :=
  history.foldr (Edit.apply blank) start

variable (blank : α)

theorem Edit.apply_length (edit : Edit α) (items : List α) :
    (edit.apply blank items).length = size items.length [edit] := by
  cases edit with
  | write offset data =>
    simp only [apply, List.length_append, List.length_take, List.length_drop, List.length_replicate, size]
    omega
  | truncate cut => simp [apply, size]

theorem Edit.apply_getD (edit : Edit α) (items : List α) (i : Nat) :
    (edit.apply blank items).getD i blank = item blank items i [edit] := by
  cases edit with
  | write offset data =>
    have fits : offset + data.length ≤
        (items ++ List.replicate (offset + data.length - items.length) blank).length := by
      rw [List.length_append, List.length_replicate]
      omega
    rw [apply, getD_splice blank _ _ _ _ fits, getD_append_blanks]
    rfl
  | truncate cut =>
    rw [apply, getD_take]
    rfl

theorem size_le {start bound : Nat} {history : History α} (begins : start ≤ bound)
    (ends : ∀ offset data, Edit.write offset data ∈ history → offset + data.length ≤ bound) :
    size start history ≤ bound := by
  induction history with
  | nil => exact begins
  | cons edit earlier ih =>
    have before := ih fun offset data member => ends offset data (by simp [member])
    cases edit with
    | write offset data => exact Nat.max_le.mpr ⟨before, ends offset data (by simp)⟩
    | truncate cut => exact (Nat.min_le_right _ _).trans before

/-- Writes only make a file longer. -/
theorem le_size {start : Nat} {history : History α} (grows : ∀ cut, Edit.truncate cut ∉ history) :
    start ≤ size start history ∧
      ∀ offset data, Edit.write offset data ∈ history → offset + data.length ≤ size start history := by
  induction history with
  | nil => exact ⟨Nat.le_refl _, fun _ _ member => nomatch member⟩
  | cons edit earlier ih =>
    obtain ⟨begins, ends⟩ := ih fun cut member => grows cut (by simp [member])
    cases edit with
    | truncate cut => exact (grows cut (by simp)).elim
    | write offset data =>
      refine ⟨begins.trans (Nat.le_max_left _ _), fun place part member => ?_⟩
      rcases List.mem_cons.mp member with here | later
      · cases here
        exact Nat.le_max_right _ _
      · exact (ends place part later).trans (Nat.le_max_left _ _)

variable (start : List α) (history : History α)

/-- A vector that replays a history has the size and the items that the history says. -/
theorem replay_length : (replay blank start history).length = size start.length history := by
  induction history with
  | nil => rfl
  | cons edit earlier ih =>
    have grown := edit.apply_length blank (replay blank start earlier)
    rw [ih] at grown
    change (edit.apply blank (replay blank start earlier)).length = _
    cases edit <;> exact grown

theorem replay_getD (i : Nat) :
    (replay blank start history).getD i blank = item blank start i history := by
  induction history with
  | nil => rfl
  | cons edit earlier ih =>
    have held := edit.apply_getD blank (replay blank start earlier) i
    change (edit.apply blank (replay blank start earlier)).getD i blank = _
    rw [held]
    cases edit with
    | write offset data => simp only [item, ih]
    | truncate cut => simp only [item, ih]

/-- Copying from `offset` on into a buffer, as far as the vector goes. -/
def copyInto (buffer : List α) (items : List α) (offset : Nat) : List α :=
  let part := (items.drop offset).take buffer.length
  part ++ buffer.drop part.length

theorem copyInto_length (buffer items : List α) (offset : Nat) :
    (copyInto buffer items offset).length = buffer.length := by
  simp only [copyInto, List.length_append, List.length_take, List.length_drop]
  omega

theorem copyInto_getD (buffer items : List α) (offset i : Nat) (small : i < buffer.length) :
    (copyInto buffer items offset).getD i blank =
      if offset + i < items.length then items.getD (offset + i) blank else buffer.getD i blank := by
  have part : ((items.drop offset).take buffer.length).length = min buffer.length (items.length - offset) := by
    rw [List.length_take, List.length_drop]
  simp only [copyInto, List.getD_eq_getElem?_getD, List.getElem?_append, part]
  by_cases inside : offset + i < items.length
  · rw [if_pos (by omega), if_pos inside, List.getElem?_take_of_lt small, List.getElem?_drop]
  · rw [if_neg (by omega), if_neg inside, List.getElem?_drop]
    congr 2
    omega

end Edits
