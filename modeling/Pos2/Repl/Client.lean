import Pos2.Repl.Server

/-! The client of `replvfs/vol_file.rs`: its copy of the database, the
write-ahead log SQLite appends to, and the locks that begin and end a session.
Every request to the server is one call; all the rest is local. -/

namespace Pos2.Repl
open Calls

/-- What the build and the machine decide: whether `+` panics on overflow, and
the byte order of native words. -/
structure Target where
  overflowChecks : Bool
  endian : Endian

/-- The numbers that `rng().random()` draws during one call. -/
structure Rng where
  salt1 : UInt32
  salt2 : UInt32

/-- `x + 1` on a `u32`; `none` is the overflow panic. -/
def Target.succ (target : Target) (x : UInt32) : Option UInt32 :=
  if target.overflowChecks ∧ x = 0xffffffff then none else some (x + 1)

/-- The first page of the wal-index: its header and the bytes behind it. -/
structure WalIndex where
  header : WalIndexHeader
  rest : Bytes

namespace WalIndex

def new : WalIndex :=
  let info : WalIndexInfo :=
    { versionNumber := 0, padding := .replicate 4 0, changeCounter := 0, isInit := 0,
      bigEndianChecksums := 0, pageSize := 0, mxFrame := 0, nPage := 0, lastFrameChecksum1 := 0,
      lastFrameChecksum2 := 0, salt1 := 0, salt2 := 0, checksum1 := 0, checksum2 := 0 }
  { header :=
      { info, infoCopy := info,
        tail := ⟨0, .replicate 5 0, .replicate 8 0, 0, .replicate 4 0⟩ }
    rest := List.replicate (32768 - 136) 0 }

def setIndex (index : WalIndex) (info : WalIndexInfo) : WalIndex :=
  { index with header := { index.header with info := info, infoCopy := info } }

def setTail (index : WalIndex) (tail : WalIndexHeaderTail) : WalIndex :=
  { index with header := { index.header with tail := tail } }

end WalIndex

def READMARK_NOT_USED : UInt32 := 0xffffffff

structure DbClient where
  serverVersion : Nat
  dbData : Bytes
  walData : Bytes
  walIndex : WalIndex
  writeLocks : Int
  readLocks : Int
  hadWrite : Bool

def checksumLoop : List UInt32 → UInt32 → UInt32 → UInt32 × UInt32
  | x₀ :: x₁ :: rest, s₀, s₁ =>
    let s₀ := s₀ + x₀ + s₁
    let s₁ := s₁ + x₁ + s₀
    checksumLoop rest s₀ s₁
  | _, s₀, s₁ => (s₀, s₁)

def computeChecksum (x : List UInt32) : Res (UInt32 × UInt32) :=
  if x.length % 2 = 0 then .ok (checksumLoop x 0 0) else .panic

/-- The header `reset_wal` writes, before its checksum. -/
def freshWalHeader (salt1 salt2 : UInt32) : WalHeader where
  magicNumber := WAL_HEADER_MAGIC_NUMBER_LITTLE_ENDIAN
  fileFormat := WAL_FILE_FORMAT_VERSION
  pageSize := .ofNat PAGESIZE
  checkpointSequenceNumber := 0
  salt1 := salt1
  salt2 := salt2
  checksum1 := 0
  checksum2 := 0

/-- The index information of an empty log, before its checksum. -/
def freshIndexInfo (walHeader : WalHeader) (dbData : Bytes) : WalIndexInfo where
  versionNumber := WAL_INDEX_FORMAT_VERSION
  padding := .replicate 4 0
  changeCounter := 0
  isInit := 1
  bigEndianChecksums := 0
  pageSize := .ofNat PAGESIZE
  mxFrame := 0
  nPage := .ofNat (dbData.length / PAGESIZE)
  lastFrameChecksum1 := 0
  lastFrameChecksum2 := 0
  salt1 := walHeader.salt1
  salt2 := walHeader.salt2
  checksum1 := 0
  checksum2 := 0

def freshTail : WalIndexHeaderTail where
  nBackfill := 0
  readmarks := #v[0, 0, READMARK_NOT_USED, READMARK_NOT_USED, READMARK_NOT_USED]
  unusedForLocks := .replicate 8 0
  nBackfillAttempted := 0
  unusedEnd := .replicate 4 0

/-- The first salt of the next log, unless the addition overflows. -/
def nextSalt (target : Target) (rng : Rng) (walHeader : WalHeader) : Option UInt32 :=
  if walHeader.salt1 = 0 then some rng.salt1 else target.succ walHeader.salt1

/-- The checksum of the log header is summed little-endian but stored big-endian. -/
def resetWal (target : Target) (rng : Rng) (client : DbClient) : Res Unit × DbClient :=
  let client := { client with walData := client.walData.take WAL_HEADER_SIZE }
  match WalHeader.fromBytes client.walData with
  | none => (.panic, client)
  | some walHeader =>
    match nextSalt target rng walHeader with
    | none => (.panic, client)
    | some salt1 =>
      let walHeader := freshWalHeader salt1 rng.salt2
      let client := { client with walData := walHeader.asBytes }
      match computeChecksum (Endian.little.words (walHeader.asBytes.take (WAL_HEADER_SIZE - 8))) with
      | .ok checksum =>
        let walHeader := { walHeader with checksum1 := checksum.1, checksum2 := checksum.2 }
        let client := { client with walData := walHeader.asBytes }
        let info := freshIndexInfo walHeader client.dbData
        match computeChecksum (target.endian.words (info.summed target.endian)) with
        | .ok checksum =>
          let info := { info with checksum1 := checksum.1, checksum2 := checksum.2 }
          (.ok (), { client with walIndex := (client.walIndex.setIndex info).setTail freshTail })
        | _ => (.panic, client)
      | _ => (.panic, client)

/-- A request with the state its client was in when it sent it. The server sees
the request only. -/
inductive Request where
  | getLatestSnapshot
  | getChangesAfter (version : Nat)
  | commitChange (version : Nat) (tx : Transaction)

structure Sent where
  sender : Option DbClient
  request : Request

def Request.Reply : Request → Type
  | .getLatestSnapshot => Res (Bytes × Nat)
  | .getChangesAfter _ => Res (List (Transaction × Nat))
  | .commitChange _ _ => Res Nat

abbrev ServerCalls : Interface := ⟨Sent, fun sent => sent.request.Reply⟩

abbrev ClientM := Method ServerCalls ErrCtx DbClient

namespace DbClient

def getChangesAfter (version : Nat) : ClientM (List (Transaction × Nat)) := fun client =>
  .call ⟨some client, .getChangesAfter version⟩ fun answer => .done (answer, client)

def commitChange (version : Nat) (tx : Transaction) : ClientM Nat := fun client =>
  .call ⟨some client, .commitChange version tx⟩ fun answer => .done (answer, client)

/-- The loop of `pull_changes`. -/
def applyChanges : List (Transaction × Nat) → DbClient → Res Unit × DbClient
  | [], client => (.ok (), client)
  | (tx, version) :: rest, client =>
    match Repl.applyTx client.dbData tx with
    | (.ok (), dbData) => applyChanges rest { client with dbData, serverVersion := version }
    | (failed, dbData) => (failed, { client with dbData })

def pullChanges (target : Target) (rng : Rng) : ClientM Unit := do
  let client ← Method.read
  let changes ← getChangesAfter client.serverVersion
  Method.local_ (applyChanges changes)
  if changes.length > 0 then
    Method.local_ (resetWal target rng)

def maybeBeginTx (target : Target) (rng : Rng) : ClientM Unit := do
  let client ← Method.read
  if client.writeLocks + client.readLocks ≠ 0 then
    pure ()
  else
    pullChanges target rng

/-- `bytes[first..last]` -/
def slice (bytes : Bytes) (first last : Nat) : Res Bytes :=
  if first ≤ last ∧ last ≤ bytes.length then .ok ((bytes.drop first).take (last - first)) else .panic

/-- `(first..last).step_by(step)` -/
def stepBy (first last step : Nat) : List Nat :=
  List.range' first ((last - first + step - 1) / step) step

def frameHeader (walData : Bytes) (idx : Nat) : Res WalFrameHeader := do
  let bytes ← slice walData idx (idx + WAL_FRAME_HEADER_SIZE)
  match WalFrameHeader.fromBytes bytes with
  | some header => .ok header
  | none => .panic

def extractFrames (walData : Bytes) : List Nat → Res (List PageWrite)
  | [] => .ok []
  | idx :: rest => do
    let header ← frameHeader walData idx
    let page ← slice walData (idx + WAL_FRAME_HEADER_SIZE) (idx + WAL_FRAME_HEADER_SIZE + PAGESIZE)
    let pageWrites ← extractFrames walData rest
    .ok (⟨header.pageNumber, page⟩ :: pageWrites)

def extractWritesFromWal (walData : Bytes) (start stop : Nat) : Res (List PageWrite) :=
  extractFrames walData (stepBy start stop (WAL_FRAME_HEADER_SIZE + PAGESIZE))

/-- The loop of `maybe_end_tx` over the positions of the frames. -/
def sendCommits : List Nat → Nat → ClientM Unit
  | [], _ => pure ()
  | idx :: rest, startIdx => do
    let client ← Method.read
    let header ← Method.ofOutcome (frameHeader client.walData idx)
    if header.databaseSizeAfterCommit ≠ 0 then
      let endIdx := idx + WAL_FRAME_HEADER_SIZE + PAGESIZE
      let pageWrites ← Method.ofOutcome (extractWritesFromWal client.walData startIdx endIdx)
      let tx : Transaction := ⟨pageWrites, header.databaseSizeAfterCommit⟩
      let _newVersion ← commitChange client.serverVersion tx
      sendCommits rest endIdx
    else
      sendCommits rest startIdx

def maybeEndTx (target : Target) (rng : Rng) : ClientM Unit := do
  let client ← Method.read
  if client.writeLocks + client.readLocks ≠ 0 then
    pure ()
  else
    if client.hadWrite then
      sendCommits (stepBy WAL_HEADER_SIZE client.walData.length (WAL_FRAME_HEADER_SIZE + PAGESIZE))
        WAL_HEADER_SIZE
      Method.local_ (resetWal target rng)
    Method.modify fun client => { client with hadWrite := false }

/-- The client that `DbClient::new` builds before it resets the log. -/
def fresh (dbData : Bytes) (serverVersion : Nat) : DbClient where
  serverVersion := serverVersion
  dbData := dbData
  walData := List.replicate WAL_HEADER_SIZE 0
  walIndex := .new
  writeLocks := 0
  readLocks := 0
  hadWrite := false

/-- A snapshot that cannot be fetched leaves no client. -/
def new (target : Target) (rng : Rng) : Program ServerCalls (Option (Res Unit × DbClient)) :=
  .call ⟨none, .getLatestSnapshot⟩ fun
    | .ok (dbData, serverVersion) =>
      let (outcome, client) := resetWal target rng (fresh dbData serverVersion)
      .done (some (outcome.expect, client))
    | _ => .done none

end DbClient

inductive ShmLockIndex where
  | write
  | checkpoint
  | recover
  | read (slot : Int)
  deriving DecidableEq

inductive ShmLockMode where
  | shared
  | exclusive
  deriving DecidableEq

inductive ShmLockOp where
  | lock
  | unlock
  deriving DecidableEq

open DbClient in
def DbFile.shmLock (target : Target) (rng : Rng) (lockIdx : ShmLockIndex) (lockType : ShmLockMode)
    (lockOp : ShmLockOp) : ClientM Unit :=
  match lockIdx with
  | .write =>
    if lockOp = .lock then
      if lockType = .shared then Method.ofOutcome (.err .busy) else do
        maybeBeginTx target rng
        Method.modify fun client => { client with writeLocks := client.writeLocks + 1, hadWrite := true }
    else
      if lockType = .shared then Method.ofOutcome (.err .bad) else do
        Method.modify fun client => { client with writeLocks := client.writeLocks - 1 }
        maybeEndTx target rng
  | .recover => Method.ofOutcome (.err .busy)
  | .read _ =>
    if lockOp = .lock then
      if lockType = .exclusive then Method.ofOutcome (.err .busy) else do
        maybeBeginTx target rng
        Method.modify fun client => { client with readLocks := client.readLocks + 1 }
    else
      if lockType = .exclusive then Method.ofOutcome (.err .bad) else do
        Method.modify fun client => { client with readLocks := client.readLocks - 1 }
        maybeEndTx target rng
  | .checkpoint => Method.ofOutcome (.err .busy)

namespace WalFile

/-- `resize` with zeros up to the end of the write, then copy over. -/
def write (offset : Nat) (data : Bytes) (client : DbClient) : DbClient :=
  let walData :=
    if offset + data.length > client.walData.length then
      client.walData ++ List.replicate (offset + data.length - client.walData.length) 0
    else client.walData
  { client with walData := walData.take offset ++ data ++ walData.drop (offset + data.length) }

def truncate (size : Nat) (client : DbClient) : DbClient :=
  { client with walData := client.walData.take size }

end WalFile
end Pos2.Repl
