import Mathlib.Algebra.GroupWithZero.Nat
import Pos2.Calls.Method
import Pos2.Repl.Structs

/-! The server of `replvfs/vol_file.rs`: transactions, the snapshot they are
applied to, and the two implementations of the `DbServer` trait. -/

namespace Pos2.Repl
open Calls

def PAGESIZE : Nat := 4096

theorem pagesize_pos : 0 < PAGESIZE := by decide

/-- Between two page boundaries there is room for a page. -/
theorem page_room {first last : Nat} (start : PAGESIZE ∣ first) (stop : PAGESIZE ∣ last) (less : first < last) :
    first + PAGESIZE ≤ last := by
  have gap : PAGESIZE ≤ last - first := Nat.le_of_dvd (Nat.sub_pos_of_lt less) (Nat.dvd_sub stop start)
  omega

/-- The errors that the functions modelled here return. -/
inductive ErrCtx where
  | bad
  | busy
  deriving DecidableEq, Repr

abbrev Res := Outcome ErrCtx

structure PageWrite where
  pageNo : UInt32
  pageData : Bytes
  deriving DecidableEq

structure Transaction where
  pageWrites : List PageWrite
  dbSizeAfter : UInt32
  deriving DecidableEq

/-- `while size > db_data.len() { db_data.append(&mut vec![0u8; PAGESIZE]) }` -/
def growTo (size : Nat) (dbData : Bytes) : Bytes :=
  if size > dbData.length then growTo size (dbData ++ List.replicate PAGESIZE 0) else dbData
termination_by size - dbData.length
decreasing_by
  have positive := pagesize_pos
  simp only [List.length_append, List.length_replicate]
  omega

/-- The loop over the page writes, with the data it had reached when it
panicked: on page 0 (`0 - 1` leaves the range of `usize`) or on a page whose
data has not the size of a page. -/
def writePages : List PageWrite → Bytes → Res Unit × Bytes
  | [], dbData => (.ok (), dbData)
  | page :: rest, dbData =>
    if page.pageNo = 0 then (.panic, dbData) else
    let pageOffset := (page.pageNo.toNat - 1) * PAGESIZE
    let dbData := growTo (pageOffset + PAGESIZE) dbData
    if page.pageData.length ≠ PAGESIZE then (.panic, dbData) else
    writePages rest (dbData.take pageOffset ++ page.pageData ++ dbData.drop (pageOffset + PAGESIZE))

def applyTx (dbData : Bytes) (tx : Transaction) : Res Unit × Bytes :=
  match writePages tx.pageWrites dbData with
  | (.ok (), dbData) => (.ok (), dbData.take (PAGESIZE * tx.dbSizeAfter.toNat))
  | failed => failed

/-- The transactions that `applyTx` applies without panicking. -/
def Transaction.Applies (tx : Transaction) : Prop :=
  ∀ page ∈ tx.pageWrites, page.pageNo ≠ 0 ∧ page.pageData.length = PAGESIZE

instance (tx : Transaction) : Decidable tx.Applies :=
  inferInstanceAs (Decidable (∀ page ∈ tx.pageWrites, _))

theorem writePages_ok (pages : List PageWrite) (dbData : Bytes) :
    (writePages pages dbData).1 = .ok () ↔
      ∀ page ∈ pages, page.pageNo ≠ 0 ∧ page.pageData.length = PAGESIZE := by
  induction pages generalizing dbData with
  | nil => simp [writePages]
  | cons page rest ih =>
    by_cases zero : page.pageNo = 0
    · simp [writePages, zero]
    · by_cases whole : page.pageData.length = PAGESIZE
      · simp [writePages, zero, whole, ih]
      · simp [writePages, zero, whole]

theorem applyTx_ok_iff (dbData : Bytes) (tx : Transaction) :
    (applyTx dbData tx).1 = .ok () ↔ tx.Applies := by
  rw [Transaction.Applies, ← writePages_ok tx.pageWrites dbData]
  unfold applyTx
  split
  next written => simp [written]
  next failed => exact Iff.rfl

theorem Transaction.Applies.apply {tx : Transaction} (applies : tx.Applies) (dbData : Bytes) :
    applyTx dbData tx = (.ok (), (applyTx dbData tx).2) :=
  Prod.ext ((applyTx_ok_iff dbData tx).mpr applies) rfl

/-- A transaction that applies leaves a database of at most its own size. -/
theorem Transaction.Applies.size {tx : Transaction} (applies : tx.Applies) (dbData : Bytes) :
    (applyTx dbData tx).2.length ≤ PAGESIZE * tx.dbSizeAfter.toNat := by
  have written := (writePages_ok tx.pageWrites dbData).mpr applies
  unfold applyTx
  split
  next => exact List.length_take_le _ _
  next failed => exact (failed _ (Prod.ext written rfl)).elim

/-- `SqliteHeader::empty_wal_header` as it lies in the page. -/
def emptyWalHeader : Bytes :=
  [83, 81, 76, 105, 116, 101, 32, 102, 111, 114, 109, 97, 116, 32, 51, 0] ++
  Endian.big.bytes16 4096 ++ [2, 2, 0, 64, 32, 32] ++
  Endian.big.bytes32 1 ++ Endian.big.bytes32 1 ++
  List.replicate 40 0 ++ List.replicate 20 0 ++
  Endian.big.bytes32 1 ++ Endian.big.bytes32 SQLITE_VERSION_NUMBER

/-- The header of the one empty leaf page. -/
def btreePageHeader : Bytes :=
  [13] ++ Endian.big.bytes16 0 ++ Endian.big.bytes16 0 ++ Endian.big.bytes16 (.ofNat PAGESIZE) ++ [0]

def makeInitialDb : Bytes :=
  emptyWalHeader ++ btreePageHeader ++
    List.replicate (PAGESIZE - SQLITE_HEADER_SIZE - BTREE_PAGE_HEADER_SIZE) 0

@[simp] theorem makeInitialDb_length : makeInitialDb.length = PAGESIZE := by
  have header : emptyWalHeader.length = SQLITE_HEADER_SIZE := by rfl
  have leaf : btreePageHeader.length = BTREE_PAGE_HEADER_SIZE := by rfl
  rw [makeInitialDb, List.length_append, List.length_append, header, leaf, List.length_replicate]
  rfl

/-- The data behind the handle of a `TestDbServer`. Versions count the entries
of `changes`, a `Vec`, so the `u64` that stores them never wraps. -/
structure TestDbServer where
  latestSnapshot : Bytes
  latestSnapshotVersion : Nat
  changes : List (Transaction × Nat)

namespace TestDbServer

def new : TestDbServer := ⟨makeInitialDb, 0, []⟩

def getLatestSnapshot (server : TestDbServer) : Res (Bytes × Nat) :=
  .ok (server.latestSnapshot, server.latestSnapshotVersion)

def getChangesAfter (server : TestDbServer) (version : Nat) : Res (List (Transaction × Nat)) :=
  .ok (server.changes.filter fun change => change.2 > version)

/-- `apply_tx` edits the live snapshot: what it had written stays when it panics. -/
def commitChange (server : TestDbServer) (version : Nat) (tx : Transaction) : Res Nat × TestDbServer :=
  if server.latestSnapshotVersion ≠ version then (.err .bad, server) else
  match applyTx server.latestSnapshot tx with
  | (.ok (), snapshot) => (.ok (version + 1), ⟨snapshot, version + 1, server.changes ++ [(tx, version + 1)]⟩)
  | (.err error, snapshot) => (.err error, { server with latestSnapshot := snapshot })
  | (.panic, snapshot) => (.panic, { server with latestSnapshot := snapshot })

end TestDbServer

/-! The web handlers take a body of at most axum's default size and unwrap the
server's answer. A handler that panics closes the connection. Over any answer
but a JSON value the client's own `expect` panics. -/

namespace Web

/-- axum reads no longer body into a `Json` without a `DefaultBodyLimit` layer. -/
def DEFAULT_LIMIT : Nat := 2097152

inductive Rejection where
  | lengthLimit
  deriving DecidableEq, Repr

def decimalSize (n : Nat) : Nat := (Nat.toDigits 10 n).length

/-- `base64::encode`, with its padding -/
def base64Size (bytes : Nat) : Nat := (bytes + 2) / 3 * 4

def pageWriteSize (page : PageWrite) : Nat :=
  "\x7b\"page_no\":,\"page_data\":\"\"\x7d".length +
    decimalSize page.pageNo.toNat + base64Size page.pageData.length

def transactionSize (tx : Transaction) : Nat :=
  "\x7b\"page_writes\":[],\"db_size_after\":\x7d".length +
    (tx.pageWrites.map pageWriteSize).sum + (tx.pageWrites.length - 1) + decimalSize tx.dbSizeAfter.toNat

/-- The size of the JSON text of `(version, tx)`. -/
def commitSize (version : Nat) (tx : Transaction) : Nat :=
  "[,]".length + decimalSize version + transactionSize tx

def getLatestSnapshot (server : TestDbServer) : Outcome Rejection (Bytes × Nat) :=
  server.getLatestSnapshot.expect

def getChangesAfter (server : TestDbServer) (version : Nat) :
    Outcome Rejection (List (Transaction × Nat)) :=
  (server.getChangesAfter version).expect

def commitChange (server : TestDbServer) (version : Nat) (tx : Transaction) :
    Outcome Rejection Nat × TestDbServer :=
  if DEFAULT_LIMIT < commitSize version tx then (.err .lengthLimit, server) else
  let (answer, after) := server.commitChange version tx
  (answer.expect, after)

end Web

namespace RemoteDbServer

def getLatestSnapshot (server : TestDbServer) : Res (Bytes × Nat) := (Web.getLatestSnapshot server).expect

def getChangesAfter (server : TestDbServer) (version : Nat) : Res (List (Transaction × Nat)) :=
  (Web.getChangesAfter server version).expect

def commitChange (server : TestDbServer) (version : Nat) (change : Transaction) : Res Nat × TestDbServer :=
  let (answer, after) := Web.commitChange server version change
  (answer.expect, after)

end RemoteDbServer

/-- The implementations of the `DbServer` trait: the server itself, or the one
that reaches it through `run_web_server`. -/
inductive DbServer where
  | test
  | remote
  deriving DecidableEq, Repr

namespace DbServer

def getLatestSnapshot : DbServer → TestDbServer → Res (Bytes × Nat)
  | .test => TestDbServer.getLatestSnapshot
  | .remote => RemoteDbServer.getLatestSnapshot

def getChangesAfter : DbServer → TestDbServer → Nat → Res (List (Transaction × Nat))
  | .test => TestDbServer.getChangesAfter
  | .remote => RemoteDbServer.getChangesAfter

def commitChange : DbServer → TestDbServer → Nat → Transaction → Res Nat × TestDbServer
  | .test => TestDbServer.commitChange
  | .remote => RemoteDbServer.commitChange

@[simp] theorem getLatestSnapshot_eq (via : DbServer) (server : TestDbServer) :
    via.getLatestSnapshot server = .ok (server.latestSnapshot, server.latestSnapshotVersion) := by
  cases via <;> rfl

@[simp] theorem getChangesAfter_eq (via : DbServer) (server : TestDbServer) (version : Nat) :
    via.getChangesAfter server version = .ok (server.changes.filter fun change => change.2 > version) := by
  cases via <;> rfl

/-- The commits that reach the server: the web server turns longer bodies away. -/
def Takes : DbServer → Nat → Transaction → Prop
  | .test, _, _ => True
  | .remote, version, tx => Web.commitSize version tx ≤ Web.DEFAULT_LIMIT

instance (via : DbServer) (version : Nat) (tx : Transaction) : Decidable (via.Takes version tx) :=
  match via with
  | .test => .isTrue trivial
  | .remote => inferInstanceAs (Decidable (_ ≤ Web.DEFAULT_LIMIT))

theorem remote_commitChange_taken {server : TestDbServer} {version : Nat} {tx : Transaction}
    (takes : remote.Takes version tx) :
    remote.commitChange server version tx =
      ((server.commitChange version tx).1.expect, (server.commitChange version tx).2) := by
  simp only [commitChange, RemoteDbServer.commitChange, Web.commitChange]
  rw [if_neg (Nat.not_lt.mpr takes)]
  cases (server.commitChange version tx).1 <;> rfl

/-- A commit that is too long for the web server never reaches the handler. -/
theorem commitChange_rejects (via : DbServer) {server : TestDbServer} {version : Nat} {tx : Transaction}
    (long : ¬ via.Takes version tx) : via.commitChange server version tx = (.panic, server) := by
  cases via with
  | test => exact (long trivial).elim
  | remote =>
    simp only [commitChange, RemoteDbServer.commitChange, Web.commitChange]
    rw [if_pos (Nat.not_le.mp long)]
    rfl

/-- A commit on the latest version is accepted and logged under the next one. -/
theorem commitChange_accepts (via : DbServer) {server : TestDbServer} {version : Nat} {tx : Transaction}
    (latest : server.latestSnapshotVersion = version) (applies : tx.Applies)
    (takes : via.Takes version tx) :
    via.commitChange server version tx =
      (.ok (version + 1),
        ⟨(applyTx server.latestSnapshot tx).2, version + 1, server.changes ++ [(tx, version + 1)]⟩) := by
  have answered : server.commitChange version tx = (.ok (version + 1),
      ⟨(applyTx server.latestSnapshot tx).2, version + 1, server.changes ++ [(tx, version + 1)]⟩) := by
    unfold TestDbServer.commitChange
    rw [if_neg (not_not.mpr latest), applies.apply]
  cases via with
  | test => exact answered
  | remote =>
    rw [remote_commitChange_taken takes, answered]
    rfl

/-- A commit on any other version is refused and leaves the server alone. -/
theorem commitChange_refuses (via : DbServer) {server : TestDbServer} {version : Nat} (tx : Transaction)
    (stale : server.latestSnapshotVersion ≠ version) :
    (∀ newVersion, (via.commitChange server version tx).1 ≠ .ok newVersion) ∧
      (via.commitChange server version tx).2 = server := by
  have answered : server.commitChange version tx = (.err .bad, server) := by
    unfold TestDbServer.commitChange
    rw [if_pos stale]
  cases via with
  | test => simp [commitChange, answered]
  | remote =>
    by_cases takes : remote.Takes version tx
    · rw [remote_commitChange_taken takes, answered]
      simp [Outcome.expect]
    · rw [commitChange_rejects _ takes]
      simp

end DbServer
end Pos2.Repl
