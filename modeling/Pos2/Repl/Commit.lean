import Pos2.Edits
import Pos2.Repl.Server

/-! What `commit_change` does to the snapshot, byte by byte: it edits the live
one page by page, and what it had written stays when a later page fails. -/

namespace Pos2.Repl
open Calls

/-- The page of byte `i`; SQLite counts pages from 1. -/
def pageOf (i : Nat) : Nat := i / PAGESIZE + 1

/-- What the last write to a page puts there. -/
def lastWrite (pageNo : Nat) : List PageWrite → Option Bytes
  | [] => none
  | page :: rest =>
    (lastWrite pageNo rest).or (if page.pageNo.toNat = pageNo then some page.pageData else none)

def byteAfter (pages : List PageWrite) (dbData : Bytes) (i : Nat) : UInt8 :=
  match lastWrite (pageOf i) pages with
  | some pageData => pageData.getD (i % PAGESIZE) 0
  | none => dbData.getD i 0

/-- The size up to the last page that a database or its page writes have. -/
def sizeAfter : List PageWrite → Nat → Nat
  | [], size => size
  | page :: rest, size => sizeAfter rest (max size (page.pageNo.toNat * PAGESIZE))

/-- The database `after` is `before` with the transaction applied. -/
structure Transaction.Applied (tx : Transaction) (before after : Bytes) : Prop where
  size : after.length = min (sizeAfter tx.pageWrites before.length) (PAGESIZE * tx.dbSizeAfter.toNat)
  bytes : ∀ i < after.length, after.getD i 0 = byteAfter tx.pageWrites before i

private theorem growTo_zeros (size : Nat) (dbData : Bytes) : ∃ n, growTo size dbData = dbData ++ List.replicate n 0 ∧
    size ≤ dbData.length + n ∧ (n = 0 ↔ size ≤ dbData.length) := by
  induction dbData using growTo.induct size with
  | case1 dbData short ih =>
    obtain ⟨n, grown, enough, _⟩ := ih
    have positive := pagesize_pos
    refine ⟨PAGESIZE + n, ?_, ?_, by omega⟩
    · rw [growTo, if_pos short, grown, List.append_assoc, List.replicate_append_replicate]
    · rw [List.length_append, List.length_replicate] at enough
      omega
  | case2 dbData enough =>
    refine ⟨0, ?_, by omega, by omega⟩
    rw [growTo, if_neg enough, List.replicate_zero, List.append_nil]

/-- A database of whole pages grows to just the size asked for. -/
theorem growTo_length {size : Nat} {dbData : Bytes} (pages : PAGESIZE ∣ dbData.length)
    (whole : PAGESIZE ∣ size) : (growTo size dbData).length = max dbData.length size := by
  induction dbData using growTo.induct size with
  | case1 dbData short ih =>
    have room := page_room pages whole short
    have grown : (dbData ++ List.replicate PAGESIZE (0 : UInt8)).length = dbData.length + PAGESIZE := by
      rw [List.length_append, List.length_replicate]
    have pages' : PAGESIZE ∣ (dbData ++ List.replicate PAGESIZE (0 : UInt8)).length := by
      rw [grown]
      exact Nat.dvd_add_self_right.mpr pages
    rw [growTo, if_pos short, ih pages', grown]
    omega
  | case2 dbData enough =>
    rw [growTo, if_neg enough]
    omega

abbrev PageWrite.Fits (page : PageWrite) : Prop := page.pageNo ≠ 0 ∧ page.pageData.length = PAGESIZE

/-- The database after one page write. -/
def overwrite (page : PageWrite) (dbData : Bytes) : Bytes :=
  let pageOffset := (page.pageNo.toNat - 1) * PAGESIZE
  let grown := growTo (pageOffset + PAGESIZE) dbData
  grown.take pageOffset ++ page.pageData ++ grown.drop (pageOffset + PAGESIZE)

private theorem writePages_fits {page : PageWrite} (fits : page.Fits) (rest : List PageWrite) (dbData : Bytes) :
    writePages (page :: rest) dbData = writePages rest (overwrite page dbData) := by
  rw [writePages, if_neg fits.1]
  dsimp only
  rw [if_neg (not_not.mpr fits.2)]
  rfl

private theorem pageNo_pos {pageNo : UInt32} (nonzero : pageNo ≠ 0) : 0 < pageNo.toNat := by
  rcases Nat.eq_zero_or_pos pageNo.toNat with zero | positive
  · exact (nonzero (UInt32.toNat_inj.mp zero)).elim
  · exact positive

theorem pageNo_end {pageNo : Nat} (first : 1 ≤ pageNo) :
    (pageNo - 1) * PAGESIZE + PAGESIZE = pageNo * PAGESIZE := by
  rw [← Nat.succ_mul, Nat.succ_eq_add_one, Nat.sub_add_cancel first]

private theorem page_end {pageNo : UInt32} (nonzero : pageNo ≠ 0) :
    (pageNo.toNat - 1) * PAGESIZE + PAGESIZE = pageNo.toNat * PAGESIZE := pageNo_end (pageNo_pos nonzero)

private theorem overwrite_eq {page : PageWrite} (fits : page.Fits) (dbData : Bytes) :
    overwrite page dbData =
      (growTo (page.pageNo.toNat * PAGESIZE) dbData).take ((page.pageNo.toNat - 1) * PAGESIZE) ++
        page.pageData ++ (growTo (page.pageNo.toNat * PAGESIZE) dbData).drop
          ((page.pageNo.toNat - 1) * PAGESIZE + page.pageData.length) := by
  rw [overwrite, fits.2, page_end fits.1]

private theorem overwrite_length {page : PageWrite} (fits : page.Fits) (dbData : Bytes) :
    (overwrite page dbData).length = (growTo (page.pageNo.toNat * PAGESIZE) dbData).length := by
  obtain ⟨n, grown, enough, _⟩ := growTo_zeros (page.pageNo.toNat * PAGESIZE) dbData
  have last := page_end fits.1
  rw [overwrite_eq fits, grown]
  simp only [List.length_append, List.length_take, List.length_drop, List.length_replicate, fits.2]
  omega

private theorem overwrite_getD {page : PageWrite} (fits : page.Fits) (dbData : Bytes) (i : Nat) :
    (overwrite page dbData).getD i 0 =
      if page.pageNo.toNat = pageOf i then page.pageData.getD (i % PAGESIZE) 0 else dbData.getD i 0 := by
  obtain ⟨n, grown, enough, _⟩ := growTo_zeros (page.pageNo.toNat * PAGESIZE) dbData
  have last := page_end fits.1
  have positive := pageNo_pos fits.1
  have within : (page.pageNo.toNat - 1) * PAGESIZE + page.pageData.length ≤
      (dbData ++ List.replicate n (0 : UInt8)).length := by
    rw [fits.2, last, List.length_append, List.length_replicate]
    exact enough
  rw [overwrite_eq fits, grown, Edits.getD_splice 0 _ _ _ _ within, Edits.getD_append_blanks, fits.2]
  by_cases inside : page.pageNo.toNat = pageOf i
  · have range : (page.pageNo.toNat - 1) * PAGESIZE ≤ i ∧
        i < (page.pageNo.toNat - 1) * PAGESIZE + PAGESIZE ∧
        i - (page.pageNo.toNat - 1) * PAGESIZE = i % PAGESIZE := by
      rw [inside, pageOf]
      simp only [PAGESIZE]
      omega
    rw [if_pos inside, if_pos ⟨range.1, range.2.1⟩, range.2.2]
  · have range : ¬ ((page.pageNo.toNat - 1) * PAGESIZE ≤ i ∧
        i < (page.pageNo.toNat - 1) * PAGESIZE + PAGESIZE) := by
      rw [pageOf] at inside
      simp only [PAGESIZE] at inside ⊢
      omega
    rw [if_neg inside, if_neg range]

/-- Page writes that all fit make the bytes they describe. -/
theorem writePages_getD {pages : List PageWrite} (fit : ∀ page ∈ pages, page.Fits) (dbData : Bytes)
    (i : Nat) : (writePages pages dbData).2.getD i 0 = byteAfter pages dbData i := by
  induction pages generalizing dbData with
  | nil => rfl
  | cons page rest ih =>
    have fits := fit page (by simp)
    rw [writePages_fits fits, ih (fun page member => fit page (by simp [member])), byteAfter, byteAfter,
      lastWrite, overwrite_getD fits]
    cases lastWrite (pageOf i) rest with
    | some pageData => rfl
    | none =>
      by_cases here : page.pageNo.toNat = pageOf i
      · simp only [if_pos here, Option.none_or]
      · simp only [if_neg here, Option.none_or]

private theorem writePages_length {pages : List PageWrite} (fit : ∀ page ∈ pages, page.Fits) {dbData : Bytes}
    (whole : PAGESIZE ∣ dbData.length) :
    (writePages pages dbData).2.length = sizeAfter pages dbData.length := by
  induction pages generalizing dbData with
  | nil => rfl
  | cons page rest ih =>
    have fits := fit page (by simp)
    have size : (overwrite page dbData).length = max dbData.length (page.pageNo.toNat * PAGESIZE) := by
      rw [overwrite_length fits, growTo_length whole (Nat.dvd_mul_left _ _)]
    have whole' : PAGESIZE ∣ (overwrite page dbData).length := by
      rw [size]
      rcases max_cases dbData.length (page.pageNo.toNat * PAGESIZE) with ⟨same, _⟩ | ⟨same, _⟩
      · rwa [same]
      · rw [same]
        exact Nat.dvd_mul_left _ _
    rw [writePages_fits fits, ih (fun page member => fit page (by simp [member])) whole', size, sizeAfter]

/-- Writing never shrinks the database, and it grows it for a page behind its end. -/
theorem writePages_grows {pages : List PageWrite} (fit : ∀ page ∈ pages, page.Fits) (dbData : Bytes) :
    dbData.length ≤ (writePages pages dbData).2.length ∧
      ((writePages pages dbData).2.length = dbData.length ↔
        ∀ page ∈ pages, page.pageNo.toNat * PAGESIZE ≤ dbData.length) := by
  induction pages generalizing dbData with
  | nil => exact ⟨Nat.le_refl _, by simp [writePages]⟩
  | cons page rest ih =>
    have fits := fit page (by simp)
    obtain ⟨longer, same⟩ := ih (fun page member => fit page (by simp [member])) (overwrite page dbData)
    obtain ⟨n, grown, _, none_⟩ := growTo_zeros (page.pageNo.toNat * PAGESIZE) dbData
    have size := overwrite_length fits dbData
    rw [grown, List.length_append, List.length_replicate] at size
    rw [writePages_fits fits, List.forall_mem_cons]
    refine ⟨by omega, ?_⟩
    constructor
    · intro equal
      have kept : (overwrite page dbData).length = dbData.length := by omega
      refine ⟨none_.mp (by omega), fun later member => ?_⟩
      rw [← kept]
      exact same.mp (by omega) later member
    · rintro ⟨within, rest⟩
      have kept : (overwrite page dbData).length = dbData.length := by
        rw [size, none_.mpr within]
        rfl
      rw [← kept] at rest
      rw [← kept]
      exact same.mpr rest

theorem Transaction.Applies.applied {tx : Transaction} (applies : tx.Applies) {dbData : Bytes}
    (whole : PAGESIZE ∣ dbData.length) : tx.Applied dbData (applyTx dbData tx).2 := by
  have ended := (writePages_ok tx.pageWrites dbData).mpr applies
  have same : (applyTx dbData tx).2 =
      (writePages tx.pageWrites dbData).2.take (PAGESIZE * tx.dbSizeAfter.toNat) := by
    unfold applyTx
    split
    next written => rw [written]
    next failed => exact (failed _ (Prod.ext ended rfl)).elim
  have size : (applyTx dbData tx).2.length =
      min (sizeAfter tx.pageWrites dbData.length) (PAGESIZE * tx.dbSizeAfter.toNat) := by
    rw [same, List.length_take, writePages_length applies whole]
    exact Nat.min_comm _ _
  refine ⟨size, fun i inside => ?_⟩
  rw [← writePages_getD applies, same, List.getD_eq_getElem?_getD, List.getD_eq_getElem?_getD, List.getElem?_take_of_lt]
  omega

theorem pageOf_inside {pageNo i : Nat} (first : 1 ≤ pageNo) (small : i < PAGESIZE) :
    pageOf ((pageNo - 1) * PAGESIZE + i) = pageNo ∧ ((pageNo - 1) * PAGESIZE + i) % PAGESIZE = i := by
  simp only [pageOf, PAGESIZE] at small ⊢
  omega

/-- A page as the database holds it. -/
def pageAt (dbData : Bytes) (pageNo : Nat) : Bytes := (dbData.drop ((pageNo - 1) * PAGESIZE)).take PAGESIZE

/-- The page writes before the first that fails put nothing new in the snapshot,
and no page up to that one lies behind the snapshot's end. -/
def Transaction.Harmless (tx : Transaction) (snapshot : Bytes) : Prop :=
  ∃ good bad rest, tx.pageWrites = good ++ bad :: rest ∧ (∀ page ∈ good, page.Fits) ∧ ¬ bad.Fits ∧
    bad.pageNo.toNat * PAGESIZE ≤ snapshot.length ∧
    ∀ page ∈ good, page.pageNo.toNat * PAGESIZE ≤ snapshot.length ∧
      lastWrite page.pageNo.toNat good = some (pageAt snapshot page.pageNo.toNat)

theorem lastWrite_mem {pages : List PageWrite} {pageNo : Nat} {data : Bytes}
    (found : lastWrite pageNo pages = some data) :
    ∃ page ∈ pages, page.pageNo.toNat = pageNo ∧ page.pageData = data := by
  induction pages with
  | nil => cases found
  | cons page rest ih =>
    rw [lastWrite, Option.or_eq_some_iff] at found
    rcases found with found | ⟨_, found⟩
    · obtain ⟨write, member, same⟩ := ih found
      exact ⟨write, List.mem_cons_of_mem _ member, same⟩
    · split at found
      · rename_i here
        exact ⟨page, List.mem_cons_self, here, Option.some.inj found⟩
      · cases found

private theorem lastWrite_none {pages : List PageWrite} {pageNo : Nat} (unwritten : lastWrite pageNo pages = none) :
    ∀ page ∈ pages, page.pageNo.toNat ≠ pageNo := by
  intro page member here
  induction pages with
  | nil => cases member
  | cons first rest ih =>
    rw [lastWrite, Option.or_eq_none_iff] at unwritten
    rcases List.mem_cons.mp member with rfl | member
    · rw [if_pos here] at unwritten
      cases unwritten.2
    · exact ih unwritten.1 member

theorem pageAt_getD (dbData : Bytes) {pageNo i : Nat} (inside : i < PAGESIZE) :
    (pageAt dbData pageNo).getD i 0 = dbData.getD ((pageNo - 1) * PAGESIZE + i) 0 := by
  rw [pageAt, List.getD_eq_getElem?_getD, List.getElem?_take_of_lt inside, List.getElem?_drop,
    ← List.getD_eq_getElem?_getD]

/-- Page writes that fit leave the database alone if and only if they write what is there. -/
theorem writePages_same {pages : List PageWrite} (fit : ∀ page ∈ pages, page.Fits) (dbData : Bytes) :
    (writePages pages dbData).2 = dbData ↔
      ∀ page ∈ pages, page.pageNo.toNat * PAGESIZE ≤ dbData.length ∧
        lastWrite page.pageNo.toNat pages = some (pageAt dbData page.pageNo.toNat) := by
  have bytes := writePages_getD fit dbData
  have size := (writePages_grows fit dbData).2
  constructor
  · intro same page member
    rw [same] at bytes size
    have within := size.mp rfl
    refine ⟨within page member, ?_⟩
    cases written : lastWrite page.pageNo.toNat pages with
    | none => exact (lastWrite_none written page member rfl).elim
    | some data =>
      obtain ⟨write, member', here, rfl⟩ := lastWrite_mem written
      have fits := fit page member
      have last := page_end fits.1
      have inside := within page member
      have full : (pageAt dbData page.pageNo.toNat).length = PAGESIZE := by
        rw [pageAt, List.length_take, List.length_drop]
        omega
      refine congrArg some (Edits.eq_of_getD 0 ((fit write member').2.trans full.symm) fun i small => ?_)
      rw [(fit write member').2] at small
      have position := pageOf_inside (pageNo_pos fits.1) small
      rw [pageAt_getD _ small, bytes, byteAfter, position.1, written, position.2]
  · intro kept
    refine Edits.eq_of_getD 0 (size.mpr fun page member => (kept page member).1) fun i _ => ?_
    rw [bytes, byteAfter]
    cases written : lastWrite (pageOf i) pages with
    | none => rfl
    | some data =>
      obtain ⟨write, member, here, _⟩ := lastWrite_mem written
      have there := (kept write member).2
      rw [here, written] at there
      have small : i % PAGESIZE < PAGESIZE := Nat.mod_lt _ pagesize_pos
      have position : (pageOf i - 1) * PAGESIZE + i % PAGESIZE = i := by
        rw [pageOf, Nat.add_sub_cancel, Nat.mul_comm]
        exact Nat.div_add_mod i PAGESIZE
      simp only [Option.some.inj there]
      rw [pageAt_getD _ small, position]

private theorem writePages_append {good : List PageWrite} (fit : ∀ page ∈ good, page.Fits)
    (rest : List PageWrite) (dbData : Bytes) :
    writePages (good ++ rest) dbData = writePages rest (writePages good dbData).2 := by
  induction good generalizing dbData with
  | nil => rfl
  | cons page good ih =>
    have fits := fit page (by simp)
    rw [List.cons_append, writePages_fits fits, writePages_fits fits]
    exact ih (fun page member => fit page (by simp [member])) _

/-- The page write that fails may still have grown the database. -/
theorem writePages_bad {bad : PageWrite} (unfit : ¬ bad.Fits) (rest : List PageWrite) (dbData : Bytes) :
    ∃ n, writePages (bad :: rest) dbData = (.panic, dbData ++ List.replicate n 0) ∧
      (n = 0 ↔ bad.pageNo.toNat * PAGESIZE ≤ dbData.length) := by
  by_cases zero : bad.pageNo = 0
  · refine ⟨0, ?_, by simp [zero]⟩
    rw [writePages, if_pos zero, List.replicate_zero, List.append_nil]
  · have short : bad.pageData.length ≠ PAGESIZE := fun full => unfit ⟨zero, full⟩
    obtain ⟨n, grown, _, none_⟩ := growTo_zeros (bad.pageNo.toNat * PAGESIZE) dbData
    refine ⟨n, ?_, none_⟩
    rw [writePages, if_neg zero]
    dsimp only
    rw [if_pos short, page_end zero, grown]

private theorem first_bad {pages : List PageWrite} (unfit : ¬ ∀ page ∈ pages, page.Fits) :
    ∃ good bad rest, pages = good ++ bad :: rest ∧ (∀ page ∈ good, page.Fits) ∧ ¬ bad.Fits := by
  induction pages with
  | nil => exact (unfit (by simp)).elim
  | cons page rest ih =>
    by_cases fits : page.Fits
    · obtain ⟨good, bad, later, rfl, fit, failed⟩ := ih fun all => unfit (List.forall_mem_cons.mpr ⟨fits, all⟩)
      exact ⟨page :: good, bad, later, rfl, List.forall_mem_cons.mpr ⟨fits, fit⟩, failed⟩
    · exact ⟨[], page, rest, rfl, by simp, fits⟩

private theorem append_zeros_same {first second : Bytes} {n : Nat} (longer : second.length ≤ first.length) :
    first ++ List.replicate n 0 = second ↔ first = second ∧ n = 0 := by
  constructor
  · intro same
    have lengths := congrArg List.length same
    rw [List.length_append, List.length_replicate] at lengths
    have none_ : n = 0 := by omega
    rw [none_, List.replicate_zero, List.append_nil] at same
    exact ⟨same, none_⟩
  · intro ⟨same, none_⟩
    rw [none_, List.replicate_zero, List.append_nil, same]

/-- A transaction that does not apply leaves the snapshot alone if and only if it is harmless. -/
theorem applyTx_same {tx : Transaction} (unfit : ¬ tx.Applies) (dbData : Bytes) :
    (applyTx dbData tx).2 = dbData ↔ tx.Harmless dbData := by
  have split_ : ∀ good bad rest, tx.pageWrites = good ++ bad :: rest → (∀ page ∈ good, page.Fits) →
      ¬ bad.Fits → ((applyTx dbData tx).2 = dbData ↔ bad.pageNo.toNat * PAGESIZE ≤ dbData.length ∧
        (writePages good dbData).2 = dbData) := by
    intro good bad rest pages fit failed
    have longer := (writePages_grows fit dbData).1
    obtain ⟨n, panics, none_⟩ := writePages_bad failed rest (writePages good dbData).2
    rw [← writePages_append fit, ← pages] at panics
    have same : (applyTx dbData tx).2 = (writePages tx.pageWrites dbData).2 := by
      rw [applyTx, panics]
    rw [same, panics, append_zeros_same longer, none_]
    constructor
    · intro ⟨kept, within⟩
      rw [kept] at within
      exact ⟨within, kept⟩
    · intro ⟨within, kept⟩
      rw [kept]
      exact ⟨rfl, within⟩
  constructor
  · intro same
    obtain ⟨good, bad, rest, pages, fit, failed⟩ := first_bad unfit
    obtain ⟨within, kept⟩ := (split_ good bad rest pages fit failed).mp same
    exact ⟨good, bad, rest, pages, fit, failed, within, (writePages_same fit dbData).mp kept⟩
  · intro ⟨good, bad, rest, pages, fit, failed, within, kept⟩
    exact (split_ good bad rest pages fit failed).mpr ⟨within, (writePages_same fit dbData).mpr kept⟩

/-- The commit is done as a whole, or it fails and nothing has changed. -/
def AllOrNothing (server : TestDbServer) (version : Nat) (tx : Transaction) :
    Res Nat × TestDbServer → Prop
  | (answer, after) =>
    (answer = .ok (version + 1) ∧ tx.Applied server.latestSnapshot after.latestSnapshot ∧
      after.latestSnapshotVersion = version + 1 ∧ after.changes = server.changes ++ [(tx, version + 1)]) ∨
    ((∀ newVersion, answer ≠ .ok newVersion) ∧ after = server)

/-- `apply_tx` panics where it does not succeed. -/
theorem applyTx_panics {tx : Transaction} (unfit : ¬ tx.Applies) (dbData : Bytes) :
    (applyTx dbData tx).1 = .panic := by
  obtain ⟨good, bad, rest, pages, fit, failed⟩ := first_bad unfit
  obtain ⟨n, panics, _⟩ := writePages_bad failed rest (writePages good dbData).2
  rw [← writePages_append fit, ← pages] at panics
  rw [applyTx, panics]

theorem commitChange_panics (via : DbServer) {server : TestDbServer} {version : Nat} {tx : Transaction}
    (takes : via.Takes version tx) (latest : server.latestSnapshotVersion = version) (unfit : ¬ tx.Applies) :
    via.commitChange server version tx =
      (.panic, { server with latestSnapshot := (applyTx server.latestSnapshot tx).2 }) := by
  have answered : server.commitChange version tx =
      (.panic, { server with latestSnapshot := (applyTx server.latestSnapshot tx).2 }) := by
    have panics := applyTx_panics unfit server.latestSnapshot
    unfold TestDbServer.commitChange
    rw [if_neg (not_not.mpr latest)]
    generalize applyTx server.latestSnapshot tx = applied at panics
    obtain ⟨answer, snapshot⟩ := applied
    subst panics
    rfl
  cases via with
  | test => exact answered
  | remote =>
    rw [DbServer.remote_commitChange_taken takes, answered]
    rfl

/-- A commit is all or nothing if and only if it never reaches `apply_tx`, or
`apply_tx` applies it, or what `apply_tx` does before it fails changes nothing. -/
theorem commit_all_or_nothing (via : DbServer) {server : TestDbServer}
    (pages : PAGESIZE ∣ server.latestSnapshot.length) (version : Nat) (tx : Transaction) :
    AllOrNothing server version tx (via.commitChange server version tx) ↔
      ¬ via.Takes version tx ∨ server.latestSnapshotVersion ≠ version ∨ tx.Applies ∨
        tx.Harmless server.latestSnapshot := by
  by_cases takes : via.Takes version tx
  · by_cases latest : server.latestSnapshotVersion = version
    · by_cases applies : tx.Applies
      · rw [DbServer.commitChange_accepts via latest applies takes]
        refine iff_of_true (.inl ⟨rfl, applies.applied pages, rfl, rfl⟩) (.inr (.inr (.inl applies)))
      · rw [commitChange_panics via takes latest applies]
        simp only [takes, latest, applies, not_true_eq_false, ne_eq, false_or, ← applyTx_same applies]
        constructor
        · rintro (⟨answered, _⟩ | ⟨_, unchanged⟩)
          · cases answered
          · exact congrArg TestDbServer.latestSnapshot unchanged
        · intro unchanged
          refine .inr ⟨by simp, ?_⟩
          rw [unchanged, ← latest]
    · have refused := DbServer.commitChange_refuses via tx latest
      exact iff_of_true (.inr refused) (.inr (.inl latest))
  · rw [DbServer.commitChange_rejects via takes]
    exact iff_of_true (.inr ⟨by simp, rfl⟩) (.inl takes)

theorem makeInitialDb_pages : PAGESIZE ∣ makeInitialDb.length := by
  refine ⟨1, ?_⟩
  rw [makeInitialDb_length, Nat.mul_one]

/-- A commit of one page to a new server. -/
theorem commit_all_or_nothing_new :
    AllOrNothing .new 0 ⟨[⟨1, makeInitialDb⟩], 1⟩
      (DbServer.test.commitChange .new 0 ⟨[⟨1, makeInitialDb⟩], 1⟩) := by
  have fits : PageWrite.Fits ⟨1, makeInitialDb⟩ := ⟨by simp, makeInitialDb_length⟩
  have applies : Transaction.Applies ⟨[⟨1, makeInitialDb⟩], 1⟩ := List.forall_mem_singleton.mpr fits
  have pages : PAGESIZE ∣ TestDbServer.new.latestSnapshot.length := makeInitialDb_pages
  rw [commit_all_or_nothing .test pages]
  exact .inr (.inr (.inl applies))

/-- A second page write with the number 0 fails, and the first one stays. -/
theorem failed_commit_writes (data : Bytes) (full : data.length = PAGESIZE) :
    TestDbServer.new.commitChange 0 ⟨[⟨1, data⟩, ⟨0, []⟩], 1⟩ = (.panic, ⟨data, 0, []⟩) := by
  have fits : PageWrite.Fits ⟨1, data⟩ := ⟨by simp, full⟩
  have whole : growTo PAGESIZE makeInitialDb = makeInitialDb := by
    rw [growTo, if_neg (by simp)]
  have written : overwrite ⟨1, data⟩ makeInitialDb = data := by
    simp [overwrite, whole, List.drop_eq_nil_of_le (Nat.le_of_eq makeInitialDb_length)]
  have failed : writePages [⟨1, data⟩, ⟨0, []⟩] makeInitialDb = (.panic, data) := by
    rw [writePages_fits fits, written, writePages, if_pos rfl]
  rw [TestDbServer.commitChange, if_neg (by simp [TestDbServer.new])]
  simp only [TestDbServer.new, applyTx, failed]

theorem half_a_commit_stays : ∃ tx : Transaction,
    TestDbServer.new.commitChange 0 tx = (.panic, ⟨List.replicate PAGESIZE 7, 0, []⟩) ∧
    ¬ AllOrNothing .new 0 tx (DbServer.test.commitChange .new 0 tx) := by
  have half := failed_commit_writes (List.replicate PAGESIZE 7) List.length_replicate
  refine ⟨_, half, ?_⟩
  have same : DbServer.test.commitChange .new 0 ⟨[⟨1, List.replicate PAGESIZE 7⟩, ⟨0, []⟩], 1⟩ = _ := half
  rw [same]
  rintro (⟨answered, _⟩ | ⟨_, unchanged⟩)
  · cases answered
  · have first := congrArg (fun server => server.latestSnapshot.head?) unchanged
    simp [TestDbServer.new, makeInitialDb, emptyWalHeader, PAGESIZE] at first

end Pos2.Repl
