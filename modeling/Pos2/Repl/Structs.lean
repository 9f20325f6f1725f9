import Mathlib.Data.List.Basic
import Mathlib.Algebra.Order.Group.Nat

/-! The byte formats of `replvfs/structs.rs`: the database header, the
write-ahead log and the wal-index, as the fields and bytes SQLite reads. -/

namespace Pos2.Repl

abbrev Bytes := List UInt8

inductive Endian where
  | little
  | big
  deriving DecidableEq, Repr

namespace Endian

/-- The four bytes of a word in this order. -/
def bytes32 (endian : Endian) (word : UInt32) : Bytes :=
  let big : Bytes := [.ofNat (word.toNat / 2 ^ 24), .ofNat (word.toNat / 2 ^ 16),
    .ofNat (word.toNat / 2 ^ 8), .ofNat word.toNat]
  match endian with
  | .big => big
  | .little => big.reverse

def bytes16 (endian : Endian) (word : UInt16) : Bytes :=
  let big : Bytes := [.ofNat (word.toNat / 2 ^ 8), .ofNat word.toNat]
  match endian with
  | .big => big
  | .little => big.reverse

/-- The word that four bytes in this order spell. -/
def word32 (endian : Endian) (b₀ b₁ b₂ b₃ : UInt8) : UInt32 :=
  match endian with
  | .big => .ofNat (b₀.toNat * 2 ^ 24 + b₁.toNat * 2 ^ 16 + b₂.toNat * 2 ^ 8 + b₃.toNat)
  | .little => .ofNat (b₃.toNat * 2 ^ 24 + b₂.toNat * 2 ^ 16 + b₁.toNat * 2 ^ 8 + b₀.toNat)

/-- A byte slice viewed as a slice of words. -/
def words (endian : Endian) : Bytes → List UInt32
  | b₀ :: b₁ :: b₂ :: b₃ :: rest => endian.word32 b₀ b₁ b₂ b₃ :: words endian rest
  | _ => []

@[simp] theorem bytes32_length (endian : Endian) (word : UInt32) : (endian.bytes32 word).length = 4 := by
  cases endian <;> rfl

@[simp] theorem bytes16_length (endian : Endian) (word : UInt16) : (endian.bytes16 word).length = 2 := by
  cases endian <;> rfl

private theorem word_digits (word : UInt32) :
    UInt32.ofNat ((UInt8.ofNat (word.toNat / 2 ^ 24)).toNat * 2 ^ 24 +
      (UInt8.ofNat (word.toNat / 2 ^ 16)).toNat * 2 ^ 16 +
      (UInt8.ofNat (word.toNat / 2 ^ 8)).toNat * 2 ^ 8 + (UInt8.ofNat word.toNat).toNat) = word := by
  have bound := word.toNat_lt
  apply UInt32.toNat_inj.mp
  simp only [UInt32.toNat_ofNat', UInt8.toNat_ofNat']
  omega

@[simp] theorem words_bytes32 (endian : Endian) (word : UInt32) (rest : Bytes) :
    endian.words (endian.bytes32 word ++ rest) = word :: endian.words rest := by
  cases endian <;>
    simp only [bytes32, List.reverse_cons, List.reverse_nil, List.nil_append, List.cons_append,
      words, word32, word_digits]

@[simp] theorem bytes32_word32 (endian : Endian) (b₀ b₁ b₂ b₃ : UInt8) :
    endian.bytes32 (endian.word32 b₀ b₁ b₂ b₃) = [b₀, b₁, b₂, b₃] := by
  have bound₀ := b₀.toNat_lt
  have bound₁ := b₁.toNat_lt
  have bound₂ := b₂.toNat_lt
  have bound₃ := b₃.toNat_lt
  cases endian <;>
    simp only [bytes32, word32, UInt32.toNat_ofNat', List.reverse_cons, List.reverse_nil, List.nil_append,
      List.cons_append, List.cons.injEq, and_true, ← UInt8.toNat_inj, UInt8.toNat_ofNat'] <;>
    omega

/-- Bytes viewed as words are the bytes of these words. -/
theorem bytes_words (endian : Endian) (bytes : Bytes) (whole : 4 ∣ bytes.length) :
    (endian.words bytes).flatMap endian.bytes32 = bytes := by
  fun_induction words endian bytes with
  | case1 b₀ b₁ b₂ b₃ rest ih =>
    rw [List.flatMap_cons, bytes32_word32, ih]
    · rfl
    · simp only [List.length_cons] at whole
      omega
  | case2 bytes short =>
    rcases bytes with _ | ⟨b₀, _ | ⟨b₁, _ | ⟨b₂, _ | ⟨b₃, rest⟩⟩⟩⟩
    case nil => rfl
    case cons.cons.cons.cons => exact (short b₀ b₁ b₂ b₃ rest rfl).elim
    all_goals simp only [List.length_cons, List.length_nil] at whole; omega

theorem words_length (endian : Endian) (bytes : Bytes) : (endian.words bytes).length = bytes.length / 4 := by
  fun_induction words endian bytes with
  | case1 b₀ b₁ b₂ b₃ rest ih =>
    simp only [List.length_cons, ih]
    omega
  | case2 bytes short =>
    have few : bytes.length < 4 := by
      rcases bytes with _ | ⟨b₀, _ | ⟨b₁, _ | ⟨b₂, _ | ⟨b₃, rest⟩⟩⟩⟩
      case cons.cons.cons.cons => exact (short b₀ b₁ b₂ b₃ rest rfl).elim
      all_goals simp only [List.length_cons, List.length_nil]; omega
    rw [Nat.div_eq_of_lt few, List.length_nil]

end Endian

def WAL_HEADER_SIZE : Nat := 32
def WAL_HEADER_MAGIC_NUMBER_LITTLE_ENDIAN : UInt32 := 0x377f0682
def WAL_FILE_FORMAT_VERSION : UInt32 := 3007000
def WAL_FRAME_HEADER_SIZE : Nat := 24
def WAL_INDEX_FORMAT_VERSION : UInt32 := 3007000
def SQLITE_HEADER_SIZE : Nat := 100
def SQLITE_VERSION_NUMBER : UInt32 := 3050002
def BTREE_PAGE_HEADER_SIZE : Nat := 8

/-- All fields are stored big-endian. -/
structure WalHeader where
  magicNumber : UInt32
  fileFormat : UInt32
  pageSize : UInt32
  checkpointSequenceNumber : UInt32
  salt1 : UInt32
  salt2 : UInt32
  checksum1 : UInt32
  checksum2 : UInt32
  deriving DecidableEq

namespace WalHeader

def asBytes (header : WalHeader) : Bytes :=
  Endian.big.bytes32 header.magicNumber ++ Endian.big.bytes32 header.fileFormat ++
  Endian.big.bytes32 header.pageSize ++ Endian.big.bytes32 header.checkpointSequenceNumber ++
  Endian.big.bytes32 header.salt1 ++ Endian.big.bytes32 header.salt2 ++
  Endian.big.bytes32 header.checksum1 ++ Endian.big.bytes32 header.checksum2

/-- `WalHeader::mut_from_bytes`: the slice must have the size of the header. -/
def fromBytes (bytes : Bytes) : Option WalHeader :=
  if bytes.length = WAL_HEADER_SIZE then
    match Endian.big.words bytes with
    | [magicNumber, fileFormat, pageSize, checkpointSequenceNumber, salt1, salt2, checksum1, checksum2] =>
      some { magicNumber, fileFormat, pageSize, checkpointSequenceNumber, salt1, salt2, checksum1, checksum2 }
    | _ => none
  else none

@[simp] theorem asBytes_length (header : WalHeader) : header.asBytes.length = WAL_HEADER_SIZE := by
  simp [asBytes, WAL_HEADER_SIZE]

@[simp] theorem fromBytes_asBytes (header : WalHeader) : fromBytes header.asBytes = some header := by
  have split : Endian.big.words header.asBytes =
      [header.magicNumber, header.fileFormat, header.pageSize, header.checkpointSequenceNumber,
        header.salt1, header.salt2, header.checksum1, header.checksum2] := by
    have last := Endian.words_bytes32 .big header.checksum2 []
    simp only [List.append_nil] at last
    simp only [asBytes, List.append_assoc, Endian.words_bytes32, last, Endian.words]
  simp only [fromBytes, asBytes_length, if_true, split]

/-- Any bytes of its size are a header. -/
theorem eq_asBytes (bytes : Bytes) (sized : bytes.length = WAL_HEADER_SIZE) :
    ∃ header : WalHeader, bytes = header.asBytes := by
  have same := Endian.bytes_words .big bytes (by rw [sized]; decide)
  have count := Endian.words_length .big bytes
  rw [sized] at count
  match found : Endian.big.words bytes, count with
  | [magicNumber, fileFormat, pageSize, checkpointSequenceNumber, salt1, salt2, checksum1, checksum2], _ =>
    rw [found] at same
    refine ⟨⟨magicNumber, fileFormat, pageSize, checkpointSequenceNumber, salt1, salt2, checksum1, checksum2⟩, ?_⟩
    rw [← same]
    simp [asBytes]

end WalHeader

/-- The header of one frame, stored big-endian. -/
structure WalFrameHeader where
  pageNumber : UInt32
  databaseSizeAfterCommit : UInt32
  salt1 : UInt32
  salt2 : UInt32
  checksum1 : UInt32
  checksum2 : UInt32
  deriving DecidableEq

namespace WalFrameHeader

def asBytes (header : WalFrameHeader) : Bytes :=
  Endian.big.bytes32 header.pageNumber ++ Endian.big.bytes32 header.databaseSizeAfterCommit ++
  Endian.big.bytes32 header.salt1 ++ Endian.big.bytes32 header.salt2 ++
  Endian.big.bytes32 header.checksum1 ++ Endian.big.bytes32 header.checksum2

def fromBytes (bytes : Bytes) : Option WalFrameHeader :=
  if bytes.length = WAL_FRAME_HEADER_SIZE then
    match Endian.big.words bytes with
    | [pageNumber, databaseSizeAfterCommit, salt1, salt2, checksum1, checksum2] =>
      some { pageNumber, databaseSizeAfterCommit, salt1, salt2, checksum1, checksum2 }
    | _ => none
  else none

@[simp] theorem asBytes_length (header : WalFrameHeader) :
    header.asBytes.length = WAL_FRAME_HEADER_SIZE := by
  simp [asBytes, WAL_FRAME_HEADER_SIZE]

@[simp] theorem fromBytes_asBytes (header : WalFrameHeader) : fromBytes header.asBytes = some header := by
  have split : Endian.big.words header.asBytes =
      [header.pageNumber, header.databaseSizeAfterCommit, header.salt1, header.salt2,
        header.checksum1, header.checksum2] := by
    have last := Endian.words_bytes32 .big header.checksum2 []
    simp only [List.append_nil] at last
    simp only [asBytes, List.append_assoc, Endian.words_bytes32, last, Endian.words]
  simp only [fromBytes, asBytes_length, if_true, split]

theorem eq_asBytes (bytes : Bytes) (sized : bytes.length = WAL_FRAME_HEADER_SIZE) :
    ∃ header : WalFrameHeader, bytes = header.asBytes := by
  have same := Endian.bytes_words .big bytes (by rw [sized]; decide)
  have count := Endian.words_length .big bytes
  rw [sized] at count
  match found : Endian.big.words bytes, count with
  | [pageNumber, databaseSizeAfterCommit, salt1, salt2, checksum1, checksum2], _ =>
    rw [found] at same
    refine ⟨⟨pageNumber, databaseSizeAfterCommit, salt1, salt2, checksum1, checksum2⟩, ?_⟩
    rw [← same]
    simp [asBytes]

end WalFrameHeader

/-- One copy of the wal-index information. The salts and the last frame's
checksum keep the byte order of the log, the other fields are native. -/
structure WalIndexInfo where
  versionNumber : UInt32
  padding : Vector UInt8 4
  changeCounter : UInt32
  isInit : UInt8
  bigEndianChecksums : UInt8
  pageSize : UInt16
  mxFrame : UInt32
  nPage : UInt32
  lastFrameChecksum1 : UInt32
  lastFrameChecksum2 : UInt32
  salt1 : UInt32
  salt2 : UInt32
  checksum1 : UInt32
  checksum2 : UInt32
  deriving DecidableEq

/-- Everything but the two checksum words. -/
def WalIndexInfo.summed (endian : Endian) (info : WalIndexInfo) : Bytes :=
  endian.bytes32 info.versionNumber ++ info.padding.toList ++ endian.bytes32 info.changeCounter ++
  [info.isInit, info.bigEndianChecksums] ++ endian.bytes16 info.pageSize ++
  endian.bytes32 info.mxFrame ++ endian.bytes32 info.nPage ++
  Endian.big.bytes32 info.lastFrameChecksum1 ++ Endian.big.bytes32 info.lastFrameChecksum2 ++
  Endian.big.bytes32 info.salt1 ++ Endian.big.bytes32 info.salt2

structure WalIndexHeaderTail where
  nBackfill : UInt32
  readmarks : Vector UInt32 5
  unusedForLocks : Vector UInt8 8
  nBackfillAttempted : UInt32
  unusedEnd : Vector UInt8 4
  deriving DecidableEq

/-- The first 136 bytes of the wal-index page. -/
structure WalIndexHeader where
  info : WalIndexInfo
  infoCopy : WalIndexInfo
  tail : WalIndexHeaderTail
  deriving DecidableEq

end Pos2.Repl
