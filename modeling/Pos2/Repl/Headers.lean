import Pos2.Fibonacci
import Pos2.Repl.Reset

/-! The headers `reset_wal` publishes, as the bytes SQLite reads: that of the log, and
the two copies in the first page of the wal-index. -/

namespace Pos2.Repl
open Calls

/-! ### Bytes -/

def WalIndexInfo.asBytes (endian : Endian) (info : WalIndexInfo) : Bytes :=
  info.summed endian ++ endian.bytes32 info.checksum1 ++ endian.bytes32 info.checksum2

def WalIndexHeaderTail.asBytes (endian : Endian) (tail : WalIndexHeaderTail) : Bytes :=
  endian.bytes32 tail.nBackfill ++ tail.readmarks.toList.flatMap endian.bytes32 ++ tail.unusedForLocks.toList ++
  endian.bytes32 tail.nBackfillAttempted ++ tail.unusedEnd.toList

/-- The first page of the wal-index as it lies in memory. -/
def WalIndex.firstPage (endian : Endian) (index : WalIndex) : Bytes :=
  index.header.info.asBytes endian ++ index.header.infoCopy.asBytes endian ++ index.header.tail.asBytes endian ++ index.rest

def WAL_INDEX_INFO_SIZE : Nat := 48
def WAL_INDEX_HEADER_SIZE : Nat := 136

/-- The word at an offset. -/
def wordAt (endian : Endian) (bytes : Bytes) (offset : Nat) : Option UInt32 :=
  (endian.words ((bytes.drop offset).take 4)).head?

private theorem wordAt_append (endian : Endian) {front : Bytes} {offset : Nat} (place : front.length = offset)
    (word : UInt32)
    (back : Bytes) : wordAt endian (front ++ (endian.bytes32 word ++ back)) offset = some word := by
  have alone := endian.words_bytes32 word []
  rw [List.append_nil] at alone
  rw [wordAt, ← place, List.drop_left, List.take_left' (endian.bytes32_length word), alone, List.head?_cons]

private theorem summed_length (endian : Endian) (info : WalIndexInfo) : (info.summed endian).length = 40 := by
  simp [WalIndexInfo.summed]

theorem WalIndexInfo.asBytes_length (endian : Endian) (info : WalIndexInfo) :
    (info.asBytes endian).length = WAL_INDEX_INFO_SIZE := by
  simp [asBytes, summed_length, WAL_INDEX_INFO_SIZE]

theorem WalIndexHeaderTail.asBytes_length (endian : Endian) (tail : WalIndexHeaderTail) :
    (tail.asBytes endian).length = WAL_INDEX_HEADER_SIZE - 2 * WAL_INDEX_INFO_SIZE := by
  simp [asBytes, WAL_INDEX_HEADER_SIZE, WAL_INDEX_INFO_SIZE]

/-! ### SQLite's checksum -/

/-- SQLite weighs the words with Fibonacci numbers, the largest on the first; the
second sum is of all words, the first of all but the last. -/
def sqliteChecksum (words : List UInt32) : UInt32 × UInt32 :=
  (.ofNat (Fibonacci.weigh (words.dropLast.map UInt32.toNat)), .ofNat (Fibonacci.weigh (words.map UInt32.toNat)))

private theorem add_word (first second : Nat) (word : UInt32) :
    UInt32.ofNat first + word + .ofNat second = .ofNat (first + second + word.toNat) := by
  rw [UInt32.ofNat_add, UInt32.ofNat_add, UInt32.ofNat_toNat, UInt32.add_assoc, UInt32.add_assoc,
    UInt32.add_comm word]

private theorem checksumLoop_eq (words : List UInt32) (even : words.length % 2 = 0) (s₀ s₁ : Nat) :
    checksumLoop words (.ofNat s₀) (.ofNat s₁) =
      (.ofNat (Fibonacci.sums (words.map UInt32.toNat) s₀ s₁).1, .ofNat (Fibonacci.sums (words.map UInt32.toNat) s₀ s₁).2) := by
  match words with
  | [] => rfl
  | [word] => simp at even
  | x₀ :: x₁ :: rest =>
    have shorter : rest.length % 2 = 0 := by
      simp only [List.length_cons] at even
      omega
    rw [checksumLoop, add_word, add_word, checksumLoop_eq rest shorter]
    rfl

/-- `compute_checksum` is SQLite's checksum. -/
theorem computeChecksum_eq {words : List UInt32} (even : words.length % 2 = 0) :
    computeChecksum words = .ok (sqliteChecksum words) := by
  rw [computeChecksum, if_pos even]
  change Outcome.ok (checksumLoop words (.ofNat 0) (.ofNat 0)) = _
  rw [checksumLoop_eq words even, Fibonacci.sums_zero, ← List.map_dropLast]
  rfl

/-! ### What is published -/

/-- The header of the next log. -/
def nextHeader (salt1 : UInt32) (rng : Rng) : WalHeader :=
  let header := freshWalHeader salt1 rng.salt2
  let checksum := sqliteChecksum (Endian.little.words (header.asBytes.take (WAL_HEADER_SIZE - 8)))
  { header with checksum1 := checksum.1, checksum2 := checksum.2 }

def nextInfo (endian : Endian) (header : WalHeader) (dbData : Bytes) : WalIndexInfo :=
  let info := freshIndexInfo header dbData
  let checksum := sqliteChecksum (endian.words (info.summed endian))
  { info with checksum1 := checksum.1, checksum2 := checksum.2 }

/-- All that `reset_wal` does where it does not panic. -/
theorem resetWal_publishes (target : Target) (rng : Rng) (client : DbClient) {header : WalHeader} {salt1 : UInt32}
    (read : WalHeader.fromBytes (client.walData.take WAL_HEADER_SIZE) = some header)
    (bumped : nextSalt target rng header = some salt1) :
    resetWal target rng client = (.ok (),
      { client with
        walData := (nextHeader salt1 rng).asBytes
        walIndex := (client.walIndex.setIndex (nextInfo target.endian (nextHeader salt1 rng) client.dbData)).setTail
          freshTail }) := by
  have headerEven : (Endian.little.words ((freshWalHeader salt1 rng.salt2).asBytes.take (WAL_HEADER_SIZE - 8))).length % 2 = 0 := by
    rw [Endian.words_length, List.length_take, WalHeader.asBytes_length]
    rfl
  have infoEven (info : WalIndexInfo) : (target.endian.words (info.summed target.endian)).length % 2 = 0 := by
    rw [Endian.words_length, summed_length]
  simp only [resetWal, read, bumped, computeChecksum_eq headerEven, computeChecksum_eq (infoEven _)]
  rfl

/-- What SQLite finds after `reset_wal`: a log with a valid header, and two valid
copies of an index that agrees with it and differs from what it may have cached. -/
structure Published (endian : Endian) (before after : DbClient) : Prop where
  sized : after.walData.length = WAL_HEADER_SIZE
  summed : wordAt .big after.walData 24 = some (sqliteChecksum (Endian.little.words (after.walData.take 24))).1 ∧
    wordAt .big after.walData 28 = some (sqliteChecksum (Endian.little.words (after.walData.take 24))).2
  copies : (after.walIndex.firstPage endian).take 48 = ((after.walIndex.firstPage endian).drop 48).take 48
  isInit : (after.walIndex.firstPage endian)[12]? = some 1
  mxFrame : wordAt endian (after.walIndex.firstPage endian) 16 = some 0
  nPage : ∃ nPage, wordAt endian (after.walIndex.firstPage endian) 20 = some nPage ∧
    nPage.toNat = before.dbData.length / PAGESIZE
  salts : ((after.walIndex.firstPage endian).drop 32).take 8 = (after.walData.drop 16).take 8
  indexSummed :
    wordAt endian (after.walIndex.firstPage endian) 40 =
      some (sqliteChecksum (endian.words ((after.walIndex.firstPage endian).take 40))).1 ∧
    wordAt endian (after.walIndex.firstPage endian) 44 =
      some (sqliteChecksum (endian.words ((after.walIndex.firstPage endian).take 40))).2
  rest : (after.walIndex.firstPage endian).drop 136 = (before.walIndex.firstPage endian).drop 136
  salt1 : ∀ salt, wordAt .big before.walData 16 = some salt → salt ≠ 0 → wordAt .big after.walData 16 ≠ some salt

private theorem WalHeader.summed_part (header : WalHeader) :
    header.asBytes = header.asBytes.take 24 ++ (Endian.big.bytes32 header.checksum1 ++ Endian.big.bytes32 header.checksum2) ∧
      (header.asBytes.take 24).length = 24 := by
  have length := header.asBytes_length
  refine ⟨?_, by rw [List.length_take, length]; rfl⟩
  have back : header.asBytes.drop 24 = Endian.big.bytes32 header.checksum1 ++ Endian.big.bytes32 header.checksum2 := by
    rw [asBytes, List.append_assoc]
    exact List.drop_left' (by simp)
  rw [← back, List.take_append_drop]

private theorem wordAt_salt1 (header : WalHeader) (rest : Bytes) : wordAt .big
    (header.asBytes ++ rest) 16 = some header.salt1 := by
  have place : (Endian.big.bytes32 header.magicNumber ++ Endian.big.bytes32 header.fileFormat ++
      Endian.big.bytes32 header.pageSize ++ Endian.big.bytes32 header.checkpointSequenceNumber).length = 16 := by
    simp
  rw [← wordAt_append .big place header.salt1 (Endian.big.bytes32 header.salt2 ++ (Endian.big.bytes32 header.checksum1 ++
    (Endian.big.bytes32 header.checksum2 ++ rest)))]
  simp only [WalHeader.asBytes, List.append_assoc]

/-- Where the fields of the index lie that SQLite checks. -/
theorem WalIndexInfo.layout (endian : Endian) (info : WalIndexInfo) : ∃ start middle : Bytes,
    start.length = 16 ∧ start[12]? = some info.isInit ∧ middle.length = 8 ∧
    info.summed endian = start ++ (endian.bytes32 info.mxFrame ++ (endian.bytes32 info.nPage ++ (middle ++
      (Endian.big.bytes32 info.salt1 ++ Endian.big.bytes32 info.salt2)))) := by
  refine ⟨endian.bytes32 info.versionNumber ++ info.padding.toList ++ endian.bytes32 info.changeCounter ++
    ([info.isInit, info.bigEndianChecksums] ++ endian.bytes16 info.pageSize),
    Endian.big.bytes32 info.lastFrameChecksum1 ++ Endian.big.bytes32 info.lastFrameChecksum2, ?_, ?_, ?_, ?_⟩
  · simp
  · rw [List.getElem?_append_right (by simp)]
    simp
  · simp
  · simp only [summed, List.append_assoc]

theorem WalIndexInfo.fields (endian : Endian) (info : WalIndexInfo) (back : Bytes) :
    (info.asBytes endian ++ back)[12]? = some info.isInit ∧
    wordAt endian (info.asBytes endian ++ back) 16 = some info.mxFrame ∧
    wordAt endian (info.asBytes endian ++ back) 20 = some info.nPage ∧
    ((info.asBytes endian ++ back).drop 32).take 8 = Endian.big.bytes32 info.salt1 ++ Endian.big.bytes32 info.salt2 ∧
    wordAt endian (info.asBytes endian ++ back) 40 = some info.checksum1 ∧
    wordAt endian (info.asBytes endian ++ back) 44 = some info.checksum2 ∧
    (info.asBytes endian ++ back).take 40 = info.summed endian := by
  have size := summed_length endian info
  obtain ⟨start, middle, startSize, flag, middleSize, parts⟩ := info.layout endian
  have word (word : UInt32) := endian.bytes32_length word
  refine ⟨?_, ?_, ?_, ?_, ?_, ?_, ?_⟩
  · rw [asBytes, parts]
    simp only [List.append_assoc]
    rw [List.getElem?_append_left (by omega), flag]
  · rw [asBytes, parts]
    simp only [List.append_assoc]
    exact wordAt_append endian startSize _ _
  · have place : (start ++ endian.bytes32 info.mxFrame).length = 20 := by rw [List.length_append, startSize, word]
    rw [asBytes, parts]
    simp only [List.append_assoc]
    rw [← List.append_assoc]
    exact wordAt_append endian place _ _
  · have place : (start ++ (endian.bytes32 info.mxFrame ++ (endian.bytes32 info.nPage ++ middle))).length = 32 := by
      simp only [List.length_append, startSize, word, middleSize]
    have eight : (Endian.big.bytes32 info.salt1 ++ Endian.big.bytes32 info.salt2).length = 8 := by simp
    have split : info.asBytes endian ++ back =
        (start ++ (endian.bytes32 info.mxFrame ++ (endian.bytes32 info.nPage ++ middle))) ++
          ((Endian.big.bytes32 info.salt1 ++ Endian.big.bytes32 info.salt2) ++
            (endian.bytes32 info.checksum1 ++ (endian.bytes32 info.checksum2 ++ back))) := by
      rw [asBytes, parts]
      simp only [List.append_assoc]
    rw [split, List.drop_left' place, List.take_left' eight]
  · rw [asBytes, List.append_assoc, List.append_assoc]
    exact wordAt_append endian size _ _
  · have place : (info.summed endian ++ endian.bytes32 info.checksum1).length = 44 := by
      rw [List.length_append, size, word]
    rw [asBytes, List.append_assoc]
    exact wordAt_append endian place _ _
  · rw [asBytes, List.append_assoc, List.append_assoc, List.take_left' size]

private theorem nextInfo_checksum (endian : Endian) (header : WalHeader) (dbData : Bytes) :
    sqliteChecksum (endian.words ((nextInfo endian header dbData).summed endian)) =
      ((nextInfo endian header dbData).checksum1, (nextInfo endian header dbData).checksum2) := by
  -- the checksums are no part of what is summed
  have same : (nextInfo endian header dbData).summed endian = (freshIndexInfo header dbData).summed endian := by
    simp only [WalIndexInfo.summed, nextInfo]
  rw [same]
  exact Prod.mk.eta.symm

private theorem nextHeader_checksum (salt1 : UInt32) (rng : Rng) :
    sqliteChecksum (Endian.little.words ((nextHeader salt1 rng).asBytes.take 24)) =
      ((nextHeader salt1 rng).checksum1, (nextHeader salt1 rng).checksum2) := by
  have same : (nextHeader salt1 rng).asBytes.take 24 = (freshWalHeader salt1 rng.salt2).asBytes.take 24 := by
    have front (header : WalHeader) : header.asBytes.take 24 =
        Endian.big.bytes32 header.magicNumber ++ Endian.big.bytes32 header.fileFormat ++
          Endian.big.bytes32 header.pageSize ++ Endian.big.bytes32 header.checkpointSequenceNumber ++
          Endian.big.bytes32 header.salt1 ++ Endian.big.bytes32 header.salt2 := by
      rw [WalHeader.asBytes, List.append_assoc]
      exact List.take_left' (by simp)
    rw [front, front]
    rfl
  rw [same]
  rfl

/-- The page after `reset_wal`. -/
theorem firstPage_reset (endian : Endian) (index : WalIndex) (info : WalIndexInfo) :
    ((index.setIndex info).setTail freshTail).firstPage endian =
      info.asBytes endian ++ (info.asBytes endian ++ (freshTail.asBytes endian ++ index.rest)) := by
  simp only [WalIndex.firstPage, WalIndex.setIndex, WalIndex.setTail, List.append_assoc]

private theorem firstPage_rest (endian : Endian) (index : WalIndex) :
    (index.firstPage endian).drop 136 = index.rest := by
  refine List.drop_left' ?_
  simp only [List.length_append, WalIndexInfo.asBytes_length, WalIndexHeaderTail.asBytes_length]
  rfl

private theorem published_next (endian : Endian) (rng : Rng) (client : DbClient) {header : WalHeader} (salt1 : UInt32)
    (read : wordAt .big client.walData 16 = some header.salt1) (fresh : header.salt1 ≠ 0 → salt1 ≠ header.salt1)
    (small : client.dbData.length / PAGESIZE < 2 ^ 32) :
    Published endian client
      { client with
        walData := (nextHeader salt1 rng).asBytes
        walIndex := (client.walIndex.setIndex (nextInfo endian (nextHeader salt1 rng) client.dbData)).setTail
          freshTail } := by
  obtain ⟨headerParts, headerSize⟩ := (nextHeader salt1 rng).summed_part
  obtain ⟨isInit, mxFrame, nPage, salts, checksum1, checksum2, summed⟩ :=
    (nextInfo endian (nextHeader salt1 rng) client.dbData).fields endian
      ((nextInfo endian (nextHeader salt1 rng) client.dbData).asBytes endian ++
        (freshTail.asBytes endian ++ client.walIndex.rest))
  have size : ((nextInfo endian (nextHeader salt1 rng) client.dbData).asBytes endian).length = 48 :=
    WalIndexInfo.asBytes_length endian _
  have salt : wordAt .big (nextHeader salt1 rng).asBytes 16 = some salt1 := by
    have found := wordAt_salt1 (nextHeader salt1 rng) []
    rwa [List.append_nil] at found
  refine ⟨WalHeader.asBytes_length _, ?_, ?_, ?_, ?_, ?_, ?_, ?_, ?_, ?_⟩
  · rw [nextHeader_checksum]
    have place : ((nextHeader salt1 rng).asBytes.take 24 ++ Endian.big.bytes32 (nextHeader salt1 rng).checksum1).length = 28 := by
      rw [List.length_append, headerSize, Endian.bytes32_length]
    have first := wordAt_append .big headerSize (nextHeader salt1 rng).checksum1
      (Endian.big.bytes32 (nextHeader salt1 rng).checksum2)
    have second := wordAt_append .big place (nextHeader salt1 rng).checksum2 []
    rw [List.append_nil, List.append_assoc] at second
    rw [← headerParts] at first second
    exact ⟨first, second⟩
  · simp only [firstPage_reset]
    rw [List.take_left' size, List.drop_left' size, List.take_left' size]
  · rw [firstPage_reset]
    exact isInit
  · rw [firstPage_reset]
    exact mxFrame
  · refine ⟨_, by simpa only [firstPage_reset] using nPage, ?_⟩
    exact UInt32.toNat_ofNat_of_lt' small
  · have same : ((nextHeader salt1 rng).asBytes.drop 16).take 8 =
        Endian.big.bytes32 (nextHeader salt1 rng).salt1 ++ Endian.big.bytes32 (nextHeader salt1 rng).salt2 := by
      have start : (Endian.big.bytes32 (nextHeader salt1 rng).magicNumber ++
          Endian.big.bytes32 (nextHeader salt1 rng).fileFormat ++ Endian.big.bytes32 (nextHeader salt1 rng).pageSize ++
          Endian.big.bytes32 (nextHeader salt1 rng).checkpointSequenceNumber).length = 16 := by simp
      have eight : (Endian.big.bytes32 (nextHeader salt1 rng).salt1 ++
          Endian.big.bytes32 (nextHeader salt1 rng).salt2).length = 8 := by simp
      have split : (nextHeader salt1 rng).asBytes = (Endian.big.bytes32 (nextHeader salt1 rng).magicNumber ++
          Endian.big.bytes32 (nextHeader salt1 rng).fileFormat ++ Endian.big.bytes32 (nextHeader salt1 rng).pageSize ++
          Endian.big.bytes32 (nextHeader salt1 rng).checkpointSequenceNumber) ++
          ((Endian.big.bytes32 (nextHeader salt1 rng).salt1 ++ Endian.big.bytes32 (nextHeader salt1 rng).salt2) ++
            (Endian.big.bytes32 (nextHeader salt1 rng).checksum1 ++ Endian.big.bytes32 (nextHeader salt1 rng).checksum2)) := by
        simp only [WalHeader.asBytes, List.append_assoc]
      rw [split, List.drop_left' start, List.take_left' eight]
    simp only [firstPage_reset]
    rw [same, salts]
    rfl
  · simp only [firstPage_reset]
    rw [summed, nextInfo_checksum]
    exact ⟨checksum1, checksum2⟩
  · rw [firstPage_rest, firstPage_rest]
    rfl
  · intro old found nonzero
    rw [read] at found
    cases found
    rw [salt]
    exact fun same => fresh nonzero (Option.some.inj same)

/-- `reset_wal` returns without an overflow, in builds that check for it and in builds
that do not, and publishes headers that SQLite accepts and notices. -/
def Resets (endian : Endian) (rng : Rng) (client : DbClient) : Prop :=
  ∃ after, (∀ overflowChecks, resetWal ⟨overflowChecks, endian⟩ rng client = (.ok (), after)) ∧
    Published endian client after

/-- It does so if and only if the first salt of the log can be counted up. -/
theorem resets_iff (endian : Endian) (rng : Rng) {client : DbClient} (sized : WAL_HEADER_SIZE ≤ client.walData.length)
    (small : client.dbData.length / PAGESIZE < 2 ^ 32) :
    Resets endian rng client ↔ wordAt .big client.walData 16 ≠ some 0xffffffff := by
  obtain ⟨header, whole⟩ := WalHeader.eq_asBytes (client.walData.take WAL_HEADER_SIZE) (by
    rw [List.length_take]
    omega)
  have parsed : WalHeader.fromBytes (client.walData.take WAL_HEADER_SIZE) = some header := by
    rw [whole, WalHeader.fromBytes_asBytes]
  have read : wordAt .big client.walData 16 = some header.salt1 := by
    rw [← wordAt_salt1 header (client.walData.drop WAL_HEADER_SIZE), ← whole, List.take_append_drop]
  rw [read]
  constructor
  · rintro ⟨after, returns, _⟩ last
    have full : header.salt1 = 0xffffffff := Option.some.inj last
    have stuck : nextSalt ⟨true, endian⟩ rng header = none := by
      simp [nextSalt, Target.succ, full]
    have panics := resetWal_stuck ⟨true, endian⟩ rng client (by rw [parsed, Option.bind_some, stuck])
    rw [returns] at panics
    cases panics
  · intro room
    have room : header.salt1 ≠ 0xffffffff := fun last => room (congrArg some last)
    have bumped (overflowChecks : Bool) : nextSalt ⟨overflowChecks, endian⟩ rng header =
        some (if header.salt1 = 0 then rng.salt1 else header.salt1 + 1) := by
      simp only [nextSalt, Target.succ, room, and_false, if_false]
      split <;> rfl
    have published := published_next endian rng client (if header.salt1 = 0 then rng.salt1 else header.salt1 + 1) read
      (fun nonzero => ?_) small
    · exact ⟨_, fun overflowChecks => resetWal_publishes ⟨overflowChecks, endian⟩ rng client parsed (bumped _), published⟩
    rw [if_neg nonzero]
    intro same
    simp at same

/-- A log with a frame and a salt that is counted up, over a database of two pages. -/
theorem resets_counted : Resets .little ⟨7, 8⟩ { DbClient.fresh (makeInitialDb ++ List.replicate PAGESIZE 1) 3 with
    walData := WalHeader.asBytes ⟨0x377f0682, 3007000, 4096, 0, 41, 42, 0, 0⟩ ++
      framesBytes (Commit.single 1 (by decide)).all } := by
  refine (resets_iff .little ⟨7, 8⟩ ?_ ?_).mpr ?_
  · rw [List.length_append, WalHeader.asBytes_length]
    exact Nat.le_add_right _ _
  · have two (data : Bytes) (same : data.length = PAGESIZE + PAGESIZE) : data.length / PAGESIZE < 2 ^ 32 := by
      rw [same]
      decide
    apply two
    rw [DbClient.fresh, List.length_append, makeInitialDb_length, List.length_replicate]
  · rw [wordAt_salt1]
    decide

/-- The first salt of a new client is drawn as the greatest word; the next reset
overflows. -/
theorem last_salt_overflows : ∃ client : DbClient,
    resetWal ⟨true, .little⟩ ⟨0xffffffff, 3⟩ (DbClient.fresh [] 0) = (.ok (), client) ∧
    WAL_HEADER_SIZE ≤ client.walData.length ∧ (resetWal ⟨true, .little⟩ ⟨4, 5⟩ client).1 = .panic := by
  obtain ⟨header, index, cleans, last, _⟩ := @resetWal_cleans ⟨true, .little⟩ ⟨0xffffffff, 3⟩ (DbClient.fresh [] 0)
    ⟨0, 0, 0, 0, 0, 0, 0, 0⟩ 0xffffffff (by decide) (by decide)
  have whole := header.asBytes_length
  refine ⟨_, cleans, Nat.le_of_eq whole.symm, ?_⟩
  have ok := resetWal_header_ok ⟨true, .little⟩ ⟨4, 5⟩
    { DbClient.fresh [] 0 with walData := header.asBytes, walIndex := index } (List.append_nil header.asBytes).symm
  obtain ⟨walData, walIndex, panicked | ⟨returned, _⟩⟩ := resetWal_cases ⟨true, .little⟩ ⟨4, 5⟩
    { DbClient.fresh [] 0 with walData := header.asBytes, walIndex := index }
  · rw [panicked]
  · rw [returned] at ok
    exact (ok.mp rfl ⟨rfl, last⟩).elim

end Pos2.Repl
