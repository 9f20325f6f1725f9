import Pos2.Repl.Commit

/-! The database that a transaction describes, page by page, and when
`apply_tx` makes it. -/

namespace Pos2.Repl
open Calls

namespace Transaction

/-- The last write to the page, or else the page as it was, or zeroes. -/
def pageAfter (tx : Transaction) (dbData : Bytes) (pageNo : Nat) : Bytes :=
  (lastWrite pageNo tx.pageWrites).getD
    (if pageNo * PAGESIZE ≤ dbData.length then pageAt dbData pageNo else List.replicate PAGESIZE 0)

/-- The outcome is the database that the transaction describes. -/
structure Describes (tx : Transaction) (dbData : Bytes) (outcome : Res Unit × Bytes) : Prop where
  succeeds : outcome.1 = .ok ()
  size : outcome.2.length = PAGESIZE * tx.dbSizeAfter.toNat
  pages : ∀ pageNo, 1 ≤ pageNo → pageNo ≤ tx.dbSizeAfter.toNat →
    pageAt outcome.2 pageNo = tx.pageAfter dbData pageNo

/-- The database already has as many pages as it is to have, or a page write
makes one at least that far out. -/
def Reaches (tx : Transaction) (dbData : Bytes) : Prop :=
  PAGESIZE * tx.dbSizeAfter.toNat ≤ dbData.length ∨ ∃ page ∈ tx.pageWrites, tx.dbSizeAfter ≤ page.pageNo

instance (tx : Transaction) (dbData : Bytes) : Decidable (tx.Reaches dbData) :=
  inferInstanceAs (Decidable (_ ∨ ∃ page ∈ tx.pageWrites, _))

end Transaction

private theorem le_sizeAfter {pages : List PageWrite} {size n : Nat} :
    n ≤ sizeAfter pages size ↔ n ≤ size ∨ ∃ page ∈ pages, n ≤ page.pageNo.toNat * PAGESIZE := by
  induction pages generalizing size with
  | nil => simp [sizeAfter]
  | cons page rest ih =>
    rw [sizeAfter, ih, le_max_iff, List.exists_mem_cons_iff, or_assoc]

private theorem pageAt_length {dbData : Bytes} {pageNo : Nat} (first : 1 ≤ pageNo)
    (inside : pageNo * PAGESIZE ≤ dbData.length) : (pageAt dbData pageNo).length = PAGESIZE := by
  have last := pageNo_end first
  rw [pageAt, List.length_take, List.length_drop]
  omega

section
variable {tx : Transaction} {dbData : Bytes}

private theorem Transaction.Applies.pageAfter_length (applies : tx.Applies) {pageNo : Nat} (first : 1 ≤ pageNo) :
    (tx.pageAfter dbData pageNo).length = PAGESIZE := by
  unfold Transaction.pageAfter
  cases written : lastWrite pageNo tx.pageWrites with
  | some data =>
    obtain ⟨page, member, _, rfl⟩ := lastWrite_mem written
    exact (applies page member).2
  | none =>
    simp only [Option.getD_none]
    split
    next old => exact pageAt_length first old
    next fresh => exact List.length_replicate

/-- The pages of the description hold the bytes of the page writes. -/
theorem Transaction.pageAfter_getD (whole : PAGESIZE ∣ dbData.length) {pageNo i : Nat}
    (first : 1 ≤ pageNo) (small : i < PAGESIZE) :
    (tx.pageAfter dbData pageNo).getD i 0 =
      byteAfter tx.pageWrites dbData ((pageNo - 1) * PAGESIZE + i) := by
  obtain ⟨page, offset⟩ := pageOf_inside first small
  rw [byteAfter, page, offset, Transaction.pageAfter]
  cases lastWrite pageNo tx.pageWrites with
  | some data => rfl
  | none =>
    simp only [Option.getD_none]
    split
    next old => exact pageAt_getD dbData small
    next fresh =>
      have outside : dbData.length ≤ (pageNo - 1) * PAGESIZE := by
        have room := page_room whole (Nat.dvd_mul_left PAGESIZE pageNo) (Nat.not_le.mp fresh)
        have last := pageNo_end first
        omega
      rw [Edits.getD_blanks, Edits.getD_outside 0 (by omega)]

private theorem Transaction.reaches_iff :
    tx.Reaches dbData ↔ PAGESIZE * tx.dbSizeAfter.toNat ≤ sizeAfter tx.pageWrites dbData.length := by
  have far : ∀ page : PageWrite, tx.dbSizeAfter ≤ page.pageNo ↔
      PAGESIZE * tx.dbSizeAfter.toNat ≤ page.pageNo.toNat * PAGESIZE := by
    intro page
    rw [UInt32.le_iff_toNat_le, Nat.mul_comm PAGESIZE]
    exact (Nat.mul_le_mul_right_iff pagesize_pos).symm
  simp only [Transaction.Reaches, le_sizeAfter, far]

/-- `apply_tx` makes the database that the transaction describes if and only if
something reaches its last page: it grows the database for page writes only. -/
theorem applyTx_describes (whole : PAGESIZE ∣ dbData.length) (applies : tx.Applies) :
    tx.Describes dbData (applyTx dbData tx) ↔ tx.Reaches dbData := by
  have applied := applies.applied whole
  rw [Transaction.reaches_iff]
  constructor
  · intro described
    have size := described.size
    rw [applied.size] at size
    omega
  · intro reaches
    have size : (applyTx dbData tx).2.length = PAGESIZE * tx.dbSizeAfter.toNat := by
      rw [applied.size]
      omega
    refine ⟨(applyTx_ok_iff dbData tx).mpr applies, size, fun pageNo first inside => ?_⟩
    have end_ : pageNo * PAGESIZE ≤ (applyTx dbData tx).2.length := by
      rw [size, Nat.mul_comm]
      exact Nat.mul_le_mul_left _ inside
    have length := pageAt_length first end_
    apply Edits.eq_of_getD 0 (length.trans (applies.pageAfter_length first).symm)
    intro i small
    rw [length] at small
    have within : (pageNo - 1) * PAGESIZE + i < (applyTx dbData tx).2.length := by
      have last := pageNo_end first
      omega
    rw [pageAt_getD _ small, applied.bytes _ within, Transaction.pageAfter_getD whole first small]

end

/-- The third page of a database of one page is written, and then its second one cut off. -/
theorem applyTx_describes_shrunk :
    Transaction.Describes ⟨[⟨3, makeInitialDb⟩], 2⟩ makeInitialDb
      (applyTx makeInitialDb ⟨[⟨3, makeInitialDb⟩], 2⟩) := by
  have applies : Transaction.Applies ⟨[⟨3, makeInitialDb⟩], 2⟩ :=
    List.forall_mem_singleton.mpr ⟨by simp, makeInitialDb_length⟩
  rw [applyTx_describes makeInitialDb_pages applies]
  exact .inr ⟨_, List.mem_singleton_self _, by decide⟩

/-- A database of one page that is to have two, of which the second is free and
never written, keeps its size. -/
theorem last_page_free :
    Transaction.Applies ⟨[⟨1, makeInitialDb⟩], 2⟩ ∧
    ¬ Transaction.Describes ⟨[⟨1, makeInitialDb⟩], 2⟩ makeInitialDb
      (applyTx makeInitialDb ⟨[⟨1, makeInitialDb⟩], 2⟩) := by
  have applies : Transaction.Applies ⟨[⟨1, makeInitialDb⟩], 2⟩ :=
    List.forall_mem_singleton.mpr ⟨by simp, makeInitialDb_length⟩
  refine ⟨applies, fun described => ?_⟩
  have size := described.size
  have applied := applies.applied makeInitialDb_pages
  rw [applied.size] at size
  simp [sizeAfter, PAGESIZE] at size

end Pos2.Repl
