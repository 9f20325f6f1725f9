import Pos2.Repl.World

/-! What `reset_wal` establishes and what it leaves alone. -/

namespace Pos2.Repl
open Calls

/-- The log is its header alone, and both copies of the index information say
that it has no frame and how many pages the database has. -/
structure Clean (client : DbClient) : Prop where
  header : ∃ header : WalHeader, client.walData = header.asBytes
  mxFrame : client.walIndex.header.info.mxFrame = 0 ∧ client.walIndex.header.infoCopy.mxFrame = 0
  nPage : client.walIndex.header.info.nPage = .ofNat (client.dbData.length / PAGESIZE) ∧
    client.walIndex.header.infoCopy.nPage = .ofNat (client.dbData.length / PAGESIZE)

/-- Cleanliness reads the log, the index information and the size of the database only. -/
theorem Clean.congr {first second : DbClient} (clean : Clean first)
    (wal : second.walData = first.walData)
    (info : second.walIndex.header.info = first.walIndex.header.info)
    (infoCopy : second.walIndex.header.infoCopy = first.walIndex.header.infoCopy)
    (data : second.dbData = first.dbData) : Clean second := by
  refine ⟨?_, ?_, ?_⟩
  · rw [wal]
    exact clean.header
  · rw [info, infoCopy]
    exact clean.mxFrame
  · rw [info, infoCopy, data]
    exact clean.nPage

private theorem checksum_header (header : WalHeader) :
    ∃ sum, computeChecksum (Endian.little.words (header.asBytes.take (WAL_HEADER_SIZE - 8))) = .ok sum := by
  have even : (Endian.little.words (header.asBytes.take (WAL_HEADER_SIZE - 8))).length % 2 = 0 := by
    rw [Endian.words_length, List.length_take, WalHeader.asBytes_length]
    rfl
  exact ⟨_, if_pos even⟩

private theorem checksum_index (endian : Endian) (info : WalIndexInfo) :
    ∃ sum, computeChecksum (endian.words (info.summed endian)) = .ok sum := by
  have even : (endian.words (info.summed endian)).length % 2 = 0 := by
    simp [Endian.words_length, WalIndexInfo.summed]
  exact ⟨_, if_pos even⟩

section
variable (target : Target) (rng : Rng) (client : DbClient)

/-- Where the log has a header and its salt a successor, `reset_wal` cleans up,
and touches only the log and its index. -/
theorem resetWal_cleans {header : WalHeader} {salt1 : UInt32}
    (read : WalHeader.fromBytes (client.walData.take WAL_HEADER_SIZE) = some header)
    (bumped : nextSalt target rng header = some salt1) :
    ∃ (walHeader : WalHeader) (walIndex : WalIndex),
      resetWal target rng client = (.ok (), { client with walData := walHeader.asBytes, walIndex }) ∧
      walHeader.salt1 = salt1 ∧ Clean { client with walData := walHeader.asBytes, walIndex } := by
  obtain ⟨sum, summed⟩ := checksum_header (freshWalHeader salt1 rng.salt2)
  obtain ⟨indexSum, indexed⟩ := checksum_index target.endian (freshIndexInfo
    { freshWalHeader salt1 rng.salt2 with checksum1 := sum.1, checksum2 := sum.2 } client.dbData)
  simp only [resetWal, read, bumped, summed, indexed]
  exact ⟨_, _, rfl, rfl, ⟨_, rfl⟩, ⟨rfl, rfl⟩, ⟨rfl, rfl⟩⟩

theorem resetWal_stuck
    (stuck : (WalHeader.fromBytes (client.walData.take WAL_HEADER_SIZE)).bind (nextSalt target rng) = none) :
    resetWal target rng client = (.panic, { client with walData := client.walData.take WAL_HEADER_SIZE }) := by
  rcases read : WalHeader.fromBytes (client.walData.take WAL_HEADER_SIZE) with _ | header
  · simp only [resetWal, read]
  · rw [read, Option.bind_some] at stuck
    simp only [resetWal, read, stuck]

/-- `reset_wal` leaves no frame. -/
theorem resetWal_size : (resetWal target rng client).2.walData.length ≤ WAL_HEADER_SIZE := by
  rcases stuck : (WalHeader.fromBytes (client.walData.take WAL_HEADER_SIZE)).bind (nextSalt target rng)
    with _ | salt1
  · rw [resetWal_stuck target rng client stuck, List.length_take]
    exact Nat.min_le_left _ _
  · obtain ⟨header, read, bumped⟩ := Option.bind_eq_some_iff.mp stuck
    obtain ⟨walHeader, walIndex, cleans, _⟩ := resetWal_cleans target rng client read bumped
    rw [cleans, WalHeader.asBytes_length]

/-- `reset_wal` panics or cleans up. -/
theorem resetWal_cases : ∃ walData walIndex,
    (resetWal target rng client = (.panic, { client with walData, walIndex }) ∨
      resetWal target rng client = (.ok (), { client with walData, walIndex }) ∧
      Clean { client with walData, walIndex }) := by
  rcases stuck : (WalHeader.fromBytes (client.walData.take WAL_HEADER_SIZE)).bind (nextSalt target rng)
    with _ | salt1
  · exact ⟨_, _, .inl (resetWal_stuck target rng client stuck)⟩
  · obtain ⟨header, read, bumped⟩ := Option.bind_eq_some_iff.mp stuck
    obtain ⟨walHeader, walIndex, cleans, _, clean⟩ := resetWal_cleans target rng client read bumped
    exact ⟨walHeader.asBytes, walIndex, .inr ⟨cleans, clean⟩⟩

theorem ended_cases : ∃ walData walIndex,
    (ended target rng client = (.panic, { client with walData, walIndex }) ∨
      ended target rng client = (.ok (), { client with walData, walIndex, hadWrite := false }) ∧
      Clean { client with walData, walIndex }) := by
  obtain ⟨walData, walIndex, panicked | ⟨reset, clean⟩⟩ := resetWal_cases target rng client
  · exact ⟨walData, walIndex, .inl (by simp only [ended, panicked])⟩
  · exact ⟨walData, walIndex, .inr ⟨by simp only [ended, reset], clean⟩⟩

/-- A lock taken after an empty catch-up changes nothing else; after any other
catch-up it starts from a clean log, unless `reset_wal` panics. -/
theorem begun_cases (held : Held) {batch : List (Transaction × Nat)} {pulled : DbClient}
    (applied : DbClient.applyChanges batch client = (.ok (), pulled)) :
    (batch = [] ∧ begun held target rng client (.ok batch) = (.ok (), held.take pulled)) ∨
    ∃ walData walIndex, begun held target rng client (.ok batch) = (.panic, { pulled with walData, walIndex }) ∨
      begun held target rng client (.ok batch) = (.ok (), held.take { pulled with walData, walIndex }) ∧
      Clean { pulled with walData, walIndex } := by
  by_cases empty : batch = []
  · subst empty
    refine .inl ⟨rfl, ?_⟩
    simp only [begun, applied]
    rfl
  · have nonempty : batch.length > 0 := List.length_pos_iff.mpr empty
    obtain ⟨walData, walIndex, panicked | ⟨reset, clean⟩⟩ := resetWal_cases target rng pulled
    · exact .inr ⟨walData, walIndex, .inl (by simp only [begun, applied, nonempty, if_true, panicked])⟩
    · exact .inr ⟨walData, walIndex, .inr ⟨by simp only [begun, applied, nonempty, if_true, reset], clean⟩⟩

/-- On a log that begins with a header only an overflowing salt stops `reset_wal`. -/
theorem resetWal_header_ok {header : WalHeader} {rest : Bytes} (wal : client.walData = header.asBytes ++ rest) :
    (resetWal target rng client).1 = .ok () ↔ ¬ (target.overflowChecks = true ∧ header.salt1 = 0xffffffff) := by
  have read : WalHeader.fromBytes (client.walData.take WAL_HEADER_SIZE) = some header := by
    rw [wal, List.take_append_of_le_length (by simp), List.take_of_length_le (by simp),
      WalHeader.fromBytes_asBytes]
  by_cases overflow : target.overflowChecks = true ∧ header.salt1 = 0xffffffff
  · have stuck : nextSalt target rng header = none := by
      simp [nextSalt, Target.succ, overflow]
    simp [resetWal_stuck target rng client (by rw [read, Option.bind_some, stuck]), overflow]
  · have bumped : ∃ salt1, nextSalt target rng header = some salt1 := by
      unfold nextSalt Target.succ
      rw [if_neg overflow]
      split <;> exact ⟨_, rfl⟩
    obtain ⟨salt1, bumped⟩ := bumped
    obtain ⟨walHeader, walIndex, cleans, _⟩ := resetWal_cleans target rng client read bumped
    simp [cleans, overflow]

/-- Where additions wrap, a lock begins well on any log with a header. -/
theorem begun_ok (held : Held) (wraps : target.overflowChecks = false) {batch : List (Transaction × Nat)}
    {pulled : DbClient} (applied : DbClient.applyChanges batch client = (.ok (), pulled)) {header : WalHeader}
    {rest : Bytes} (wal : pulled.walData = header.asBytes ++ rest) :
    ∃ walData walIndex, begun held target rng client (.ok batch) =
      (.ok (), held.take { pulled with walData, walIndex }) := by
  have sound := (resetWal_header_ok target rng pulled wal).mpr (by simp [wraps])
  by_cases empty : batch.length > 0
  · obtain ⟨walData, walIndex, panicked | ⟨reset, _⟩⟩ := resetWal_cases target rng pulled
    · rw [panicked] at sound
      cases sound
    · exact ⟨walData, walIndex, by simp only [begun, applied, if_pos empty, reset]⟩
  · exact ⟨pulled.walData, pulled.walIndex, by simp only [begun, applied, if_neg empty]⟩

end
end Pos2.Repl
