import Mathlib.Data.Nat.Cast.Basic
import Mathlib.Data.Nat.Fib.Basic
import Mathlib.Tactic.Ring

/-! Sums in which every word is added to the last two sums. They are linear, and their
weights are Fibonacci numbers. -/

namespace Fibonacci
variable {R : Type} [CommSemiring R]

/-- The last two sums, from two to begin with. -/
def sums : List R → R → R → R × R
  | [], before, last => (before, last)
  | word :: rest, before, last => sums rest last (before + last + word)

/-- The first word weighs most. -/
def weigh : List R → R
  | [] => 0
  | word :: rest => Nat.fib (rest.length + 1) * word + weigh rest

theorem sums_snd (words : List R) (before last : R) :
    (sums words before last).2 =
      Nat.fib words.length * before + Nat.fib (words.length + 1) * last + weigh words := by
  induction words generalizing before last with
  | nil => simp [sums, weigh]
  | cons word rest ih =>
    rw [sums, ih, weigh, List.length_cons, Nat.fib_add_two, Nat.cast_add]
    ring

theorem sums_append_singleton (words : List R) (word before last : R) :
    sums (words ++ [word]) before last =
      ((sums words before last).2, (sums words before last).1 + (sums words before last).2 + word) := by
  induction words generalizing before last with
  | nil => rfl
  | cons first rest ih => exact ih last (before + last + first)

/-- From zero on, the last sum weighs all words, and the one before it all but the last. -/
theorem sums_zero (words : List R) : sums words 0 0 = (weigh words.dropLast, weigh words) := by
  have total (words : List R) : (sums words 0 0).2 = weigh words := by
    rw [sums_snd]
    ring
  rcases words.eq_nil_or_concat with rfl | ⟨front, word, rfl⟩
  · rfl
  · apply Prod.ext
    · rw [List.concat_eq_append, sums_append_singleton, List.dropLast_concat]
      exact total front
    · exact total _

end Fibonacci
