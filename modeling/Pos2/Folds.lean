import Mathlib.Logic.Function.Basic

/-! Folds that forget nothing: their steps can be undone, and tell any two inputs apart. -/

namespace Folds
variable {σ β : Type} {step : σ → β → σ}

theorem foldl_injective (undone : ∀ input, Function.Injective (step · input)) (inputs : List β) :
    Function.Injective (inputs.foldl step) := by
  induction inputs with
  | nil => exact fun _ _ same => same
  | cons input rest ih => exact ih.comp (undone input)

/-- Damage to a single input shows at the end, whatever follows. -/
theorem foldl_tells (undone : ∀ input, Function.Injective (step · input)) (told : ∀ state, Function.Injective (step state))
    {first second : List β} (place : Nat) (length : first.length = second.length)
    (elsewhere : ∀ index, index ≠ place → first[index]? = second[index]?) {state : σ}
    (same : first.foldl step state = second.foldl step state) : first = second := by
  induction first generalizing second place state with
  | nil => exact (List.length_eq_zero_iff.mp length.symm).symm
  | cons input rest ih =>
    cases second with
    | nil => cases length
    | cons other others =>
      simp only [List.length_cons, Nat.add_right_cancel_iff] at length
      cases place with
      | zero =>
        have rests : rest = others := by
          apply List.ext_getElem?
          intro index
          exact elsewhere (index + 1) (Nat.succ_ne_zero index)
        subst rests
        rw [told state (foldl_injective undone rest same)]
      | succ place =>
        have inputs : input = other := Option.some.inj (elsewhere 0 (Nat.succ_ne_zero place).symm)
        subst inputs
        rw [ih place length (fun index apart => elsewhere (index + 1) (by simpa using apart)) same]

end Folds
