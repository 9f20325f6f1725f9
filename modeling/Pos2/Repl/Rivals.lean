import Pos2.Repl.Replication
import Pos2.Repl.Solo

/-! Two clients that commit from one version. The server accepts the first and
refuses the second, which begins again with the first one's commit. -/

namespace Pos2.Repl
open Calls

/-- An unlocked client whose log has a header, and maybe frames. -/
structure Rests (client : DbClient) : Prop where
  readLocks : client.readLocks = 0
  writeLocks : client.writeLocks = 0
  log : ∃ (header : WalHeader) (rest : Bytes), client.walData = header.asBytes ++ rest

theorem Rests.unlocked {client : DbClient} (rests : Rests client) : client.locks = 0 := by
  rw [DbClient.locks, rests.readLocks, rests.writeLocks]
  rfl

theorem Opened.rests {rng : Rng} {client : DbClient} (opened : Opened rng client) : Rests client := by
  obtain ⟨header, log, _⟩ := opened.log
  exact ⟨opened.readLocks, opened.writeLocks, header, [], by rw [log, List.append_nil]⟩

/-- A reader with one commit in its log. -/
structure Committing (commit : Commit) (client : DbClient) : Prop where
  reading : client.readLocks = 1
  unwritten : client.writeLocks = 0
  wrote : client.hadWrite = true
  log : ∃ header : WalHeader, client.walData = header.asBytes ++ framesBytes commit.all

section
variable {endian : Endian} {rng : Rng} {commit : Commit} {client : DbClient}

theorem Committing.locked (committing : Committing commit client) : client.locks = 1 := by
  rw [DbClient.locks, committing.reading, committing.unwritten]
  rfl

theorem Committing.rests (committing : Committing commit client) : Rests (Held.read.release client) := by
  obtain ⟨header, log⟩ := committing.log
  refine ⟨?_, committing.unwritten, header, _, log⟩
  simp only [Held.release, committing.reading]
  rfl

/-- The release of its lock sends the commit. A client whose commit is accepted
resets its log, one whose commit is refused keeps it. -/
theorem Committing.sends (committing : Committing commit client) : ∃ next,
    (Action.shmLock rng (Held.read.index 0) Held.read.mode .unlock).program ⟨false, endian⟩ client =
      .call ⟨some (Held.read.release client), .commitChange client.serverVersion commit.transaction⟩ next ∧
    (∀ version, ∃ after, next (.ok version) = .done (some (.ok (), after)) ∧ Rests after) ∧
    next (.err .bad) = .done (some (.err .bad, Held.read.release client)) := by
  have rests := committing.rests
  obtain ⟨header, log⟩ := committing.log
  have uncommitted : ∀ frame ∈ ([] : List Frame), ¬ frame.commits := by simp
  have alone : client.walData = header.asBytes ++ framesBytes ([commit].flatMap Commit.all ++ []) := by
    simpa using log
  have sends : Held.read.unlocking ⟨false, endian⟩ rng client = _ :=
    unlocking_commits rests.unlocked committing.wrote uncommitted alone
  refine ⟨_, by rw [Action.program, Held.unlocks, sends]; rfl, ?_, rfl⟩
  intro version
  have well : (ended ⟨false, endian⟩ rng (Held.read.release client)).1 = .ok () := by
    rw [ended_ok (show (Held.read.release client).walData = _ from log)]
    simp
  obtain ⟨walData, walIndex, panicked | ⟨done, clean⟩⟩ := ended_cases ⟨false, endian⟩ rng (Held.read.release client)
  · rw [panicked] at well
    cases well
  · obtain ⟨header, log⟩ := clean.header
    refine ⟨_, congrArg (fun result => Program.done (some result)) done, ?_⟩
    exact ⟨rests.readLocks, rests.writeLocks, header, [], by rw [List.append_nil]; exact log⟩

end

section
variable {ι : Type} [DecidableEq ι] {endian : Endian} {world : World ι} {i : ι} {client : DbClient}

theorem answers_changes_after (server : TestDbServer) (sender : Option DbClient) (version : Nat) :
    answers .test ⟨sender, .getChangesAfter version⟩ server
      (.ok (server.changes.filter fun change => change.2 > version)) server :=
  ⟨trivial, by rw [serve, DbServer.getChangesAfter_eq]⟩

/-- An unlocked client that asks for a read lock catches up and gets it. -/
theorem World.Reachable.reads {outcome : Res Unit} (alive : outcome ≠ .panic) (rng : Rng) (rests : Rests client)
    (reachable : Reachable ⟨false, endian⟩ .test sqlite (world.starting i (.done (some (outcome, client))))) :
    ∃ reader, Reachable ⟨false, endian⟩ .test sqlite
        (world.starting i (.call ⟨some client, .getChangesAfter client.serverVersion⟩ fun answer =>
          .done (some (begun .read ⟨false, endian⟩ rng client answer)))) ∧
      begun .read ⟨false, endian⟩ rng client
        (.ok (world.shared.changes.filter fun change => change.2 > client.serverVersion)) = (.ok (), reader) ∧
      Reachable ⟨false, endian⟩ .test sqlite (world.starting i (.done (some (.ok (), reader)))) ∧
      reader.readLocks = 1 ∧ reader.writeLocks = 0 ∧
      reader.serverVersion = world.shared.latestSnapshotVersion ∧
      ∃ header : WalHeader, reader.walData = header.asBytes := by
  have holds := reachable.follows True fun _ _ _ allowed => allowed
  have historic : Historic world.shared := holds.valid
  have replica : Replica client world.shared :=
    replica_of_holds holds (show World.client _ i = some client by simp [World.client, World.starting, clientOf])
  obtain ⟨header, rest, log⟩ := rests.log
  obtain ⟨walData, walIndex, granted⟩ :=
    begun_ok ⟨false, endian⟩ rng client .read rfl (historic.catchUp replica) log
  have asks : Reachable ⟨false, endian⟩ .test sqlite
      (world.starting i (.call ⟨some client, .getChangesAfter client.serverVersion⟩ fun answer =>
        .done (some (begun .read ⟨false, endian⟩ rng client answer)))) := by
    have started := reachable.step (World.step_start (.acts
      (.shmLock rng (Held.read.index 0) Held.read.mode .lock) alive (by intro held _ impossible; cases impossible)))
    rw [Action.program, Held.locks, locking_outside .read ⟨false, endian⟩ rng rests.unlocked] at started
    exact started
  have answered := answers_changes_after world.shared (some client) client.serverVersion
  have begins : Reachable ⟨false, endian⟩ .test sqlite
      (world.starting i (.done (some (begun .read ⟨false, endian⟩ rng client _)))) :=
    asks.step (World.step_call answered)
  have caught : Caught world.shared (.done (some (begun .read ⟨false, endian⟩ rng client _))) :=
    (asks.follows True fun _ _ _ allowed => allowed).served following_stable
      (Function.update_self ..) answered trivial client.serverVersion rfl
  rw [granted] at caught begins
  obtain ⟨clean, _, version⟩ := caught _ rfl
  refine ⟨_, asks, granted, begins, ?_, rests.writeLocks, version, clean.header⟩
  simp only [Held.take, rests.readLocks]
  rfl

/-- From there it writes a commit. -/
theorem World.Reachable.writes {outcome : Res Unit} (alive : outcome ≠ .panic) (rests : Rests client)
    (reachable : Reachable ⟨false, endian⟩ .test sqlite (world.starting i (.done (some (outcome, client)))))
    (commit : Commit) :
    ∃ writer, Reachable ⟨false, endian⟩ .test sqlite (world.starting i (.done (some (.ok (), writer)))) ∧
      Committing commit writer ∧ writer.serverVersion = world.shared.latestSnapshotVersion := by
  obtain ⟨reader, _, _, reads, reading, unwritten, version, header, log⟩ := reachable.reads alive ⟨1, 2⟩ rests
  obtain ⟨hadWrite, steps, wrote⟩ := inside_fills ⟨false, endian⟩ [commit] reading unwritten
  refine ⟨_, reads.inside steps, ⟨reading, unwritten, wrote (.inr (by simp)), header, ?_⟩, version⟩
  simp [log]

/-- And releases its lock. -/
theorem World.Reachable.sends {commit : Commit} (committing : Committing commit client)
    (reachable : Reachable ⟨false, endian⟩ .test sqlite (world.starting i (.done (some (.ok (), client))))) :
    ∃ next, Reachable ⟨false, endian⟩ .test sqlite (world.starting i
        (.call ⟨some (Held.read.release client), .commitChange client.serverVersion commit.transaction⟩ next)) ∧
      (∀ version, ∃ after, next (.ok version) = .done (some (.ok (), after)) ∧ Rests after) ∧
      next (.err .bad) = .done (some (.err .bad, Held.read.release client)) := by
  obtain ⟨next, sends, accepted, refused⟩ := @Committing.sends endian ⟨1, 2⟩ commit client committing
  have started := reachable.step (World.step_start (.acts
    (.shmLock ⟨1, 2⟩ (Held.read.index 0) Held.read.mode .unlock) (by simp) (by
      intro held granted _
      cases granted
      simp only [Held.count, committing.reading]
      decide)))
  rw [sends] at started
  exact ⟨next, started, accepted, refused⟩

end

/-- A world with two threads. -/
def World.pair (server : TestDbServer) (first second : Thread) : World Bool :=
  ⟨server, fun i => bif i then second else first⟩

namespace World

@[simp] theorem pair_first (server : TestDbServer) (first second program : Thread) :
    (pair server first second).starting false program = pair server program second :=
  congrArg (Pool.mk server) (funext fun i => by cases i <;> rfl)

@[simp] theorem pair_second (server : TestDbServer) (first second program : Thread) :
    (pair server first second).starting true program = pair server first program :=
  congrArg (Pool.mk server) (funext fun i => by cases i <;> rfl)

private theorem pair_answered (server after : TestDbServer) (first second : Thread) :
    (⟨after, (pair server first second).threads⟩ : World Bool) = pair after first second := rfl

end World

/-! The first client opens, then the second; both write a commit, each from
version 0. -/

/-- The first commit is on its way, the second is written. -/
theorem rivals_sending (endian : Endian) (first second : Commit) : ∃ a b next,
    World.Reachable ⟨false, endian⟩ .test sqlite
      (.pair .new (.call ⟨some a, .commitChange 0 first.transaction⟩ next) (.done (some (.ok (), b)))) ∧
    (∀ version, ∃ after, next (.ok version) = .done (some (.ok (), after)) ∧ Rests after) ∧
    Committing second b ∧ b.serverVersion = 0 := by
  have initial : World.Reachable ⟨false, endian⟩ .test sqlite (.pair .new (.done none) (.done none)) := by
    rw [show World.pair .new (.done none) (.done none) = World.initial from
      congrArg (Pool.mk _) (funext fun i => by cases i <;> rfl)]
    exact .refl
  rw [← World.pair_first _ (.done none)] at initial
  obtain ⟨a, opened, reachable⟩ := initial.opens rfl ⟨1, 2⟩
  obtain ⟨a, reachable, committing, based⟩ := reachable.writes (by simp) opened.rests first
  rw [World.pair_first, ← World.pair_second _ _ (.done none)] at reachable
  obtain ⟨b, opened, reachable⟩ := reachable.opens rfl ⟨1, 2⟩
  obtain ⟨b, reachable, committing', based'⟩ := reachable.writes (by simp) opened.rests second
  rw [World.pair_second, ← World.pair_first _ (.done none)] at reachable
  obtain ⟨next, reachable, accepted, _⟩ := reachable.sends committing
  rw [World.pair_first, show a.serverVersion = 0 from based] at reachable
  exact ⟨_, b, next, reachable, accepted, committing', based'⟩

/-- The first commit is accepted, and the second client is behind. -/
theorem rivals_behind (endian : Endian) (first second : Commit) : ∃ a b,
    World.Reachable ⟨false, endian⟩ .test sqlite
      (.pair (TestDbServer.accept .new first.transaction) (.done (some (.ok (), a))) (.done (some (.ok (), b)))) ∧
    Rests a ∧ Committing second b ∧ b.serverVersion = 0 := by
  obtain ⟨a, b, next, reachable, accepted, committing, based⟩ := rivals_sending endian first second
  rw [← World.pair_first _ (.done none)] at reachable
  obtain ⟨after, done, rests⟩ := accepted 1
  have answered : answers .test ⟨some a, .commitChange 0 first.transaction⟩ .new (.ok 1)
      (TestDbServer.accept .new first.transaction) :=
    ⟨fun _ => first.applies, serve_accepts .test rfl first.applies trivial⟩
  have reachable := reachable.step (World.step_call answered)
  rw [done, World.pair_answered, World.pair_first] at reachable
  exact ⟨after, b, reachable, rests, committing, based⟩

/-- The second commit is on its way, from a version that is no longer the latest. -/
theorem rivals_refused (endian : Endian) (first second : Commit) : ∃ a b next,
    World.Reachable ⟨false, endian⟩ .test sqlite
      (.pair (TestDbServer.accept .new first.transaction) (.done (some (.ok (), a)))
        (.call ⟨some b, .commitChange 0 second.transaction⟩ next)) ∧
    next (.err .bad) = .done (some (.err .bad, b)) ∧ Rests a ∧ Rests b ∧ b.serverVersion = 0 ∧
    ∃ header : WalHeader, b.walData = header.asBytes ++ framesBytes second.all := by
  obtain ⟨a, b, reachable, rests, committing, based⟩ := rivals_behind endian first second
  rw [← World.pair_second _ _ (.done none)] at reachable
  obtain ⟨next, reachable, _, refused⟩ := reachable.sends committing
  rw [World.pair_second, based] at reachable
  exact ⟨a, _, next, reachable, refused, rests, committing.rests, based, committing.log⟩

theorem answers_refused {server : TestDbServer} {sender : Option DbClient} {version : Nat} {tx : Transaction}
    (stale : server.latestSnapshotVersion ≠ version) :
    answers .test ⟨sender, .commitChange version tx⟩ server (.err .bad) server := by
  refine ⟨fun latest => (stale latest).elim, ?_⟩
  simp only [serve, DbServer.commitChange, TestDbServer.commitChange, if_pos stale]
  rfl

/-- The second client begins again, with the refused commit in its log. -/
theorem rivals_again (endian : Endian) (first second : Commit) : ∃ a b reader next,
    World.Reachable ⟨false, endian⟩ .test sqlite
      (.pair (TestDbServer.accept .new first.transaction) (.done (some (.ok (), a)))
        (.call ⟨some b, .getChangesAfter 0⟩ next)) ∧
    next (.ok [(first.transaction, 1)]) = .done (some (.ok (), reader)) ∧
    World.Reachable ⟨false, endian⟩ .test sqlite
      (.pair (TestDbServer.accept .new first.transaction) (.done (some (.ok (), a)))
        (.done (some (.ok (), reader)))) ∧
    Rests a ∧ reader.readLocks = 1 ∧ reader.writeLocks = 0 ∧ reader.serverVersion = 1 ∧
    ∃ header : WalHeader, b.walData = header.asBytes ++ framesBytes second.all := by
  obtain ⟨a, b, next, reachable, refused, rests, rests', based, log⟩ := rivals_refused endian first second
  rw [← World.pair_second _ _ (.done none)] at reachable
  have reachable := reachable.step (World.step_call (answers_refused (Nat.succ_ne_self 0)))
  rw [refused, World.pair_answered] at reachable
  obtain ⟨reader, asks, granted, reads, reading, unwritten, version, _⟩ := reachable.reads (by simp) ⟨3, 4⟩ rests'
  rw [based] at asks granted
  rw [World.pair_second] at asks reads
  exact ⟨a, b, reader, _, asks, congrArg (fun result => Program.done (some result)) granted, reads,
    rests, reading, unwritten, version, log⟩

/-- The first client commits once more, while the second reads. -/
theorem rivals_behind_again (endian : Endian) (first second third : Commit) : ∃ a reader,
    World.Reachable ⟨false, endian⟩ .test sqlite
      (.pair (TestDbServer.accept (TestDbServer.accept .new first.transaction) third.transaction)
        (.done (some (.ok (), a))) (.done (some (.ok (), reader)))) ∧
    reader.readLocks = 1 ∧ reader.writeLocks = 0 ∧ reader.serverVersion = 1 := by
  obtain ⟨a, b, reader, _, _, _, reachable, rests, reading, unwritten, version, _⟩ := rivals_again endian first second
  rw [← World.pair_first _ (.done none)] at reachable
  obtain ⟨writer, reachable, committing, based⟩ := reachable.writes (by simp) rests third
  obtain ⟨next, reachable, accepted, _⟩ := reachable.sends committing
  obtain ⟨after, done, _⟩ := accepted 2
  have answered : answers .test ⟨some (Held.read.release writer), .commitChange writer.serverVersion third.transaction⟩
      (TestDbServer.accept .new first.transaction) (.ok 2)
      (TestDbServer.accept (TestDbServer.accept .new first.transaction) third.transaction) := by
    refine ⟨fun _ => third.applies, ?_⟩
    rw [based]
    exact serve_accepts .test rfl third.applies trivial
  have reachable := reachable.step (World.step_call answered)
  rw [done, World.pair_answered, World.pair_first] at reachable
  exact ⟨after, reader, reachable, reading, unwritten, version⟩

end Pos2.Repl
