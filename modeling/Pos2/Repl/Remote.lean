import Pos2.Repl.Commit

/-! The two implementations of the `DbServer` trait side by side. -/

namespace Pos2.Repl
open Calls

theorem Transaction.Harmless.fails {tx : Transaction} {snapshot : Bytes} (harmless : tx.Harmless snapshot) :
    ¬ tx.Applies := by
  obtain ⟨good, bad, rest, pages, _, failed, _⟩ := harmless
  intro applies
  exact failed (applies bad (by simp [pages]))

/-- A stale commit gets no `Err` through the web server. -/
theorem remote_stale {server : TestDbServer} {version : Nat} (tx : Transaction)
    (stale : server.latestSnapshotVersion ≠ version) :
    DbServer.remote.commitChange server version tx = (.panic, server) := by
  by_cases takes : DbServer.remote.Takes version tx
  · rw [DbServer.remote_commitChange_taken takes, TestDbServer.commitChange, if_pos stale]
    rfl
  · exact DbServer.commitChange_rejects .remote takes

/-- The remote server reads as the local one does, and it commits as the local
one does if and only if the commit is on the latest version and not too long for
the web server, or too long but one that fails on the local one without a trace. -/
theorem remote_as_local (server : TestDbServer) :
    DbServer.remote.getLatestSnapshot server = DbServer.test.getLatestSnapshot server ∧
    (∀ version, DbServer.remote.getChangesAfter server version = DbServer.test.getChangesAfter server version) ∧
    ∀ version tx, DbServer.remote.commitChange server version tx = DbServer.test.commitChange server version tx ↔
      server.latestSnapshotVersion = version ∧
        (DbServer.remote.Takes version tx ∨ tx.Harmless server.latestSnapshot) := by
  refine ⟨by simp, by simp, fun version tx => ?_⟩
  by_cases latest : server.latestSnapshotVersion = version
  · by_cases applies : tx.Applies
    · have harm : ¬ tx.Harmless server.latestSnapshot := fun harmless => harmless.fails applies
      have accepts := DbServer.commitChange_accepts .test latest applies trivial
      by_cases takes : DbServer.remote.Takes version tx
      · rw [accepts, DbServer.commitChange_accepts .remote latest applies takes]
        exact iff_of_true rfl ⟨latest, .inl takes⟩
      · rw [accepts, DbServer.commitChange_rejects .remote takes]
        simp [takes, harm]
    · have panics := commitChange_panics .test trivial latest applies
      by_cases takes : DbServer.remote.Takes version tx
      · rw [panics, commitChange_panics .remote takes latest applies]
        exact iff_of_true rfl ⟨latest, .inl takes⟩
      · rw [panics, DbServer.commitChange_rejects .remote takes, ← applyTx_same applies]
        simp only [takes, false_or]
        constructor
        · intro same
          exact ⟨latest, (congrArg TestDbServer.latestSnapshot (Prod.mk.inj same).2).symm⟩
        · intro ⟨_, same⟩
          rw [same]
  · have refused : DbServer.test.commitChange server version tx = (.err .bad, server) := by
      rw [DbServer.commitChange, TestDbServer.commitChange, if_pos latest]
    rw [remote_stale tx latest, refused]
    simp [latest]

/-- A commit from version 1 to a new server. -/
theorem stale_commit_panics : ∃ (server : TestDbServer) (version : Nat) (tx : Transaction),
    DbServer.test.commitChange server version tx = (.err .bad, server) ∧
    DbServer.remote.commitChange server version tx = (.panic, server) := by
  have stale : TestDbServer.new.latestSnapshotVersion ≠ 1 := by simp [TestDbServer.new]
  refine ⟨.new, 1, ⟨[], 1⟩, ?_, remote_stale _ stale⟩
  rw [DbServer.commitChange, TestDbServer.commitChange, if_pos stale]

end Pos2.Repl
