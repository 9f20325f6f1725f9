import Pos2.Folds
import Pos2.Repl.Client

/-! `compute_checksum` on words as they lie in memory. Damage to one pair of words shows
in the checksum, however long the input. -/

namespace Pos2.Repl
open Calls

/-- zerocopy's `U32`: four bytes in this order. -/
structure U32 (endian : Endian) where
  bytes : Vector UInt8 4
  deriving DecidableEq

namespace U32
variable {endian : Endian}

def get (word : U32 endian) : UInt32 := endian.word32 word.bytes[0] word.bytes[1] word.bytes[2] word.bytes[3]

def new (word : UInt32) : U32 endian := ⟨⟨(endian.bytes32 word).toArray, by simp⟩⟩

def computeChecksum (x : List (U32 endian)) : Res (U32 endian × U32 endian) :=
  (Repl.computeChecksum (x.map get)).bind fun s => .ok (new s.1, new s.2)

private theorem get_injective : Function.Injective (get : U32 endian → UInt32) := by
  intro ⟨first⟩ ⟨second⟩ same
  have bytes := congrArg endian.bytes32 same
  simp only [get, Endian.bytes32_word32, List.cons.injEq, and_true] at bytes
  rw [mk.injEq]
  apply Vector.ext
  intro index small
  match index, small with
  | 0, _ => exact bytes.1
  | 1, _ => exact bytes.2.1
  | 2, _ => exact bytes.2.2.1
  | 3, _ => exact bytes.2.2.2

private theorem new_injective : Function.Injective (new : UInt32 → U32 endian) := by
  intro first second same
  have bytes : endian.bytes32 first = endian.bytes32 second := by simpa [new] using same
  have words := endian.words_bytes32 first []
  rw [bytes, endian.words_bytes32] at words
  exact (List.cons.inj words).1.symm

end U32

/-- One round of the loop. -/
def checksumStep (s x : UInt32 × UInt32) : UInt32 × UInt32 :=
  (s.1 + x.1 + s.2, s.2 + x.2 + (s.1 + x.1 + s.2))

private theorem checksumStep_undone (x : UInt32 × UInt32) : Function.Injective (checksumStep · x) := by
  intro s t same
  obtain ⟨firsts, seconds⟩ := Prod.mk.inj same
  -- The second sum gives back what it was, and with it the first.
  rw [firsts, UInt32.add_left_inj, UInt32.add_left_inj] at seconds
  rw [seconds, UInt32.add_left_inj, UInt32.add_left_inj] at firsts
  exact Prod.ext firsts seconds

private theorem checksumStep_tells (s : UInt32 × UInt32) : Function.Injective (checksumStep s) := by
  intro x y same
  obtain ⟨firsts, seconds⟩ := Prod.mk.inj same
  rw [firsts, UInt32.add_left_inj, UInt32.add_right_inj] at seconds
  rw [UInt32.add_left_inj, UInt32.add_right_inj] at firsts
  exact Prod.ext firsts seconds

/-- Two by two; an odd one at the end is left out. -/
def pairs {α : Type} : List α → List (α × α)
  | x₀ :: x₁ :: rest => (x₀, x₁) :: pairs rest
  | [_] => []
  | [] => []

private theorem checksumLoop_foldl (x : List UInt32) (s₀ s₁ : UInt32) :
    checksumLoop x s₀ s₁ = (pairs x).foldl checksumStep (s₀, s₁) := by
  fun_induction pairs x generalizing s₀ s₁ with
  | case1 x₀ x₁ rest ih => exact ih _ _
  | case2 | case3 => rfl

section Pairs
variable {α : Type}

private theorem pairs_length (x : List α) : (pairs x).length = x.length / 2 := by
  fun_induction pairs x with
  | case1 x₀ x₁ rest ih =>
    simp only [List.length_cons, ih]
    omega
  | case2 | case3 => simp

private theorem pairs_getElem? (x : List α) (index : Nat) :
    (pairs x)[index]? = x[2 * index]?.bind fun x₀ => x[2 * index + 1]?.map fun x₁ => (x₀, x₁) := by
  fun_induction pairs x generalizing index with
  | case1 x₀ x₁ rest ih =>
    cases index with
    | zero => rfl
    | succ index => exact ih index
  | case2 x₀ => simp
  | case3 => rfl

private theorem pairs_inj {x y : List α} (length : x.length = y.length) (even : x.length % 2 = 0)
    (same : pairs x = pairs y) :
    x = y := by
  fun_induction pairs x generalizing y with
  | case1 x₀ x₁ rest ih =>
    match y with
    | y₀ :: y₁ :: others =>
      simp only [pairs, List.cons.injEq, Prod.mk.injEq] at same
      simp only [List.length_cons, Nat.add_right_cancel_iff] at length even
      obtain ⟨⟨rfl, rfl⟩, same⟩ := same
      rw [ih length (by omega) same]
  | case2 => cases even
  | case3 => exact (List.length_eq_zero_iff.mp length.symm).symm

end Pairs

/-- No words that follow make up for damage inside one aligned pair. -/
theorem computeChecksum_detects {endian : Endian} {x y : List (U32 endian)} {i : Nat} (length : x.length = y.length)
    (even : x.length % 2 = 0) (elsewhere : ∀ j, j ≠ 2 * i → j ≠ 2 * i + 1 → x[j]? = y[j]?) (damaged : x ≠ y) :
    ∃ first second, U32.computeChecksum x = .ok first ∧ U32.computeChecksum y = .ok second ∧ first ≠ second := by
  have loop (z : List (U32 endian)) (same : z.length = x.length) : U32.computeChecksum z =
      .ok (U32.new (checksumLoop (z.map U32.get) 0 0).1, U32.new (checksumLoop (z.map U32.get) 0 0).2) := by
    rw [U32.computeChecksum, Repl.computeChecksum, if_pos (by rw [List.length_map, same, even])]
    rfl
  refine ⟨_, _, loop x rfl, loop y length.symm, ?_⟩
  intro same
  apply damaged
  obtain ⟨firsts, seconds⟩ := Prod.mk.inj same
  have sums := Prod.ext (U32.new_injective firsts) (U32.new_injective seconds)
  rw [checksumLoop_foldl, checksumLoop_foldl] at sums
  apply List.map_injective_iff.mpr U32.get_injective
  apply pairs_inj (by rw [List.length_map, List.length_map, length]) (by rw [List.length_map, even])
  apply Folds.foldl_tells checksumStep_undone checksumStep_tells i ?_ ?_ sums
  · rw [pairs_length, pairs_length, List.length_map, List.length_map, length]
  · intro index apart
    simp only [pairs_getElem?, List.getElem?_map]
    rw [elsewhere (2 * index) (by omega) (by omega), elsewhere (2 * index + 1) (by omega) (by omega)]

private def sound : List (U32 .big) := [.new 1, .new 2, .new 3, .new 4]
private def flipped : List (U32 .big) := [.new 1, .new 2, .new 2, .new 5]

theorem computeChecksum_detects_flipped :
    ∃ first second, U32.computeChecksum sound = .ok first ∧ U32.computeChecksum flipped = .ok second ∧ first ≠ second := by
  refine computeChecksum_detects (i := 1) rfl rfl ?_ (by decide)
  intro j first second
  match j with
  | 0 | 1 => rfl
  | 2 => exact (first rfl).elim
  | 3 => exact (second rfl).elim
  | j + 4 => rfl

end Pos2.Repl
