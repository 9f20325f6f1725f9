import Mathlib.Data.List.Basic

/-! Texts as lists of characters, and the operations on `str` the sources use. -/

namespace Pos2

abbrev Text := List Char

instance : LawfulBEq Text := inferInstance

/-- By a walk over the text, not over all characters. -/
instance (text : Text) (p : Char → Prop) [DecidablePred p] : Decidable (∀ char ∈ text, p char) :=
  List.decidableBAll p text

namespace Text

/-- `str::strip_prefix` -/
def stripPrefix (text start : Text) : Option Text := text.dropPrefix? start

/-- `str::strip_suffix` -/
def stripSuffix (text ending : Text) : Option Text := text.dropSuffix? ending

/-- `str::to_ascii_lowercase` -/
def lower (text : Text) : Text := text.map Char.toLower

@[simp] theorem stripPrefix_eq_some {text start rest : Text} :
    text.stripPrefix start = some rest ↔ text = start ++ rest := by
  simp [stripPrefix, List.dropPrefix?_eq_some_iff]

@[simp] theorem stripSuffix_eq_some {text ending rest : Text} :
    text.stripSuffix ending = some rest ↔ text = rest ++ ending := by
  simp [stripSuffix, List.dropSuffix?_eq_some_iff]

theorem stripPrefix_eq_none {text start : Text} : text.stripPrefix start = none ↔ ¬ start <+: text := by
  rw [Option.eq_none_iff_forall_ne_some]
  simp only [ne_eq, stripPrefix_eq_some]
  exact ⟨fun never ⟨rest, same⟩ => never rest same.symm, fun never rest same => never ⟨rest, same.symm⟩⟩

@[simp] theorem lower_append (first second : Text) : lower (first ++ second) = lower first ++ lower second :=
  List.map_append

end Text
end Pos2
