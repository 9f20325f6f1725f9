import Pos2.Repl.Rivals

/-! What holds of any number of clients over one server, after any run: one
linear history, no lost update, replicas frozen while a lock is held, and a
clean log at the start of every session. -/

namespace Pos2.Repl
open Calls

section
variable {ι : Type} [DecidableEq ι] {target : Target} {via : DbServer}

/-- For every run of any number of clients, in any order of their steps: the
accepted transactions are numbered from 1 without a gap, the log is only ever
appended to, and a commit that reaches the server is accepted exactly when its
sender holds the replay of all transactions accepted so far; any other commit
leaves the server alone. -/
theorem linear_history {world : World ι} (reachable : World.Reachable target via anything world) :
    world.shared.changes.map Prod.snd = List.range' 1 world.shared.changes.length ∧
    world.shared.latestSnapshotVersion = world.shared.changes.length ∧
    (∀ later, Pool.Runs (answers via) (Starts target anything) world later →
      world.shared.changes <+: later.shared.changes) ∧
    ∀ i sender version tx next reply after,
      world.threads i = .call ⟨sender, .commitChange version tx⟩ next →
      answers via ⟨sender, .commitChange version tx⟩ world.shared reply after →
      ∃ client, sender = some client ∧ version = client.serverVersion ∧
        (version = world.shared.latestSnapshotVersion ∧ client.dbData = replay world.shared.accepted ∧
          reply = .ok (version + 1) ∧ after = world.shared.accept tx ∨
        (version ≠ world.shared.latestSnapshotVersion ∨ ¬ via.Takes version tx) ∧
          (∀ newVersion, reply ≠ .ok newVersion) ∧ after = world.shared) := by
  have holds := reachable.follows False False.elim
  have historic : Historic world.shared := holds.valid
  refine ⟨historic.versions, historic.latest.trans (List.length_map _), ?_, ?_⟩
  · intro later run
    exact holds.run_grows following_stable (following_starts False.elim) run
  · intro i sender version tx next reply after waiting answered
    have attached : Attached _ world.shared := holds.waits waiting
    obtain ⟨client, rfl, based⟩ := Option.map_eq_some_iff.mp attached.based.symm
    have replica := (attached.replica client rfl).2
    refine ⟨client, rfl, based.symm, ?_⟩
    rcases answers_commit answered with ⟨latest, _, _, accepted, same⟩ | ⟨stale, refused, same⟩ | ⟨long, rfl, same⟩
    · have data := historic.replica_latest replica (based.trans latest.symm)
      exact .inl ⟨latest.symm, data.trans historic.snapshot, accepted, same⟩
    · exact .inr ⟨.inl stale.symm, refused, same⟩
    · refine .inr ⟨.inr long, ?_, same⟩
      intro newVersion impossible
      cases impossible

end

/-- Two clients send a commit from version 0: the first is accepted, the second,
sent when the log already holds it, is refused. -/
theorem linear_history_rivals :
    (∃ (world : World Bool) (a : DbClient) (next : Res Nat → Thread),
      world.threads false = .call ⟨some a, .commitChange 0 (Commit.single 1 (by decide)).transaction⟩ next ∧
      ∃ reply after,
        answers .test ⟨some a, .commitChange 0 (Commit.single 1 (by decide)).transaction⟩ world.shared reply after ∧
        reply = .ok 1 ∧ after = world.shared.accept (Commit.single 1 (by decide)).transaction) ∧
    ∃ (world : World Bool) (b : DbClient) (next : Res Nat → Thread),
      world.shared.changes = [((Commit.single 1 (by decide)).transaction, 1)] ∧
      world.threads true = .call ⟨some b, .commitChange 0 (Commit.single 2 (by decide)).transaction⟩ next ∧
      ∃ reply after,
        answers .test ⟨some b, .commitChange 0 (Commit.single 2 (by decide)).transaction⟩ world.shared reply after ∧
        (∀ newVersion, reply ≠ .ok newVersion) ∧ after = world.shared ∧
        ∀ later, Pool.Runs (answers .test) (Starts ⟨false, .little⟩ anything) world later →
          [((Commit.single 1 (by decide)).transaction, 1)] <+: later.shared.changes := by
  generalize Commit.single 1 _ = first, Commit.single 2 _ = second
  refine ⟨?_, ?_⟩
  · obtain ⟨a, b, next, reachable, _⟩ := rivals_sending .little first second
    have answered : answers .test ⟨some a, .commitChange 0 first.transaction⟩ .new (.ok 1)
        (TestDbServer.accept .new first.transaction) :=
      ⟨fun _ => first.applies, serve_accepts .test rfl first.applies trivial⟩
    obtain ⟨_, _, _, ⟨_, _, accepted, same⟩ | ⟨stale | long, _⟩⟩ :=
      (linear_history reachable.relaxed).2.2.2 false _ _ _ _ _ _ rfl answered
    · exact ⟨_, a, next, rfl, _, _, answered, accepted, same⟩
    · exact (stale rfl).elim
    · exact (long trivial).elim
  · obtain ⟨a, b, next, reachable, _⟩ := rivals_refused .little first second
    have history := linear_history reachable.relaxed
    have answered : answers .test ⟨some b, .commitChange 0 second.transaction⟩
        (TestDbServer.accept .new first.transaction) (.err .bad) _ :=
      answers_refused (Nat.succ_ne_self 0)
    obtain ⟨_, _, _, ⟨latest, _⟩ | ⟨_, refused, same⟩⟩ := history.2.2.2 true _ _ _ _ _ _ rfl answered
    · cases latest
    · exact ⟨_, b, next, rfl, rfl, _, _, answered, refused, same, history.2.2.1⟩

section
variable {ι : Type} [DecidableEq ι] {target : Target} {via : DbServer}

/-- An action on a locked client keeps its database and its version. -/
theorem Action.Does.frozen {client : DbClient} {action : Action} {program : Thread}
    (does : action.Does target client program) (locked : 0 < client.locks) :
    ∃ kept, clientOf program = some kept ∧ kept.dbData = client.dbData ∧
      kept.serverVersion = client.serverVersion := by
  cases does with
  | refuses error => exact ⟨_, rfl, rfl, rfl⟩
  | takes held _ => exact ⟨_, rfl, by cases held <;> exact ⟨rfl, rfl⟩⟩
  | begins held unlocked => omega
  | releases held _ _ => exact ⟨_, rfl, by cases held <;> exact ⟨rfl, rfl⟩⟩
  | rests held _ _ _ => exact ⟨_, rfl, by cases held <;> exact ⟨rfl, rfl⟩⟩
  | writes offset data => exact ⟨_, rfl, rfl, rfl⟩
  | truncates size => exact ⟨_, rfl, rfl, rfl⟩
  | indexes index => exact ⟨_, rfl, rfl, rfl⟩
  | @ends rng _ _ held _ _ _ =>
    have same : (held.release client).dbData = client.dbData ∧
        (held.release client).serverVersion = client.serverVersion := by
      cases held <;> exact ⟨rfl, rfl⟩
    cases (walPlan (held.release client).walData).1 with
    | cons tx rest => exact ⟨_, rfl, same⟩
    | nil =>
      refine ⟨_, rfl, ?_⟩
      rcases walPlan_ends (held.release client).walData with finished | panicked
      · obtain ⟨walData, walIndex, panicked | ⟨done, _⟩⟩ := ended_cases target rng (held.release client)
        · simpa only [finished, afterOk, panicked] using same
        · simpa only [finished, afterOk, done] using same
      · simpa only [panicked, afterOk] using same

/-- For every run of any number of clients: each client holds the replay of as
many transactions as its version says, which is at most the latest version; and
no step of any thread changes its database or version while it holds a lock. -/
theorem replica_frozen {world : World ι} (reachable : World.Reachable target via anything world) :
    (∀ i client, world.client i = some client →
      client.serverVersion ≤ world.shared.latestSnapshotVersion ∧
        client.dbData = replay (world.shared.accepted.take client.serverVersion)) ∧
    ∀ i j client (after : World ι), world.client i = some client → 0 < client.locks →
      World.Step target via anything j world after →
      ∃ kept, after.client i = some kept ∧ kept.dbData = client.dbData ∧
        kept.serverVersion = client.serverVersion := by
  have holds := reachable.follows False False.elim
  have historic : Historic world.shared := holds.valid
  refine ⟨?_, ?_⟩
  · intro i client present
    have replica := replica_of_holds holds present
    rw [historic.latest]
    exact ⟨replica.behind, replica.data⟩
  · intro i j client after present locked step
    by_cases same : i = j
    · subst j
      cases step with
      | call reply after waiting served =>
        rw [World.client, waiting] at present
        have unlocked := ((holds.waits waiting).replica client present).1
        omega
      | start program idle started =>
        rw [World.client, idle] at present
        obtain ⟨⟨outcome, finished⟩, rfl, rfl⟩ := Option.map_eq_some_iff.mp present
        cases started with
        | acts action alive allowed =>
          simpa only [World.client, Function.update_self] using (action.does target finished).frozen locked
    · refine ⟨client, ?_, rfl, rfl⟩
      rw [World.client, step.others same]
      exact present

end

/-- A reader with the first of two transactions takes the write lock: it keeps the
database and the version it has. -/
theorem replica_frozen_behind : ∃ (world after : World Bool) (client kept : DbClient),
    world.shared.accepted = [(Commit.single 1 (by decide)).transaction, (Commit.single 3 (by decide)).transaction] ∧
    world.client true = some client ∧ client.serverVersion = 1 ∧
    client.dbData = replay [(Commit.single 1 (by decide)).transaction] ∧ client.locks = 1 ∧
    World.Step ⟨false, .little⟩ .test anything true world after ∧
    after.client true = some kept ∧ kept.locks = 2 ∧ kept.serverVersion = 1 ∧
    kept.dbData = replay [(Commit.single 1 (by decide)).transaction] := by
  generalize Commit.single 1 _ = first, Commit.single 3 _ = third
  obtain ⟨a, reader, reachable, reading, unwritten, version⟩ :=
    rivals_behind_again .little first (.single 2 (by decide)) third
  have locked : reader.locks = 1 := by
    rw [DbClient.locks, reading, unwritten]
    rfl
  have frozen := replica_frozen reachable.relaxed
  have data := (frozen.1 true reader rfl).2
  rw [version] at data
  have started : Starts ⟨false, .little⟩ anything true (some (.ok (), reader))
      ((Action.shmLock ⟨1, 2⟩ (Held.write.index 0) Held.write.mode .lock).program ⟨false, .little⟩ reader) :=
    .acts _ (by simp) trivial
  rw [locked_locks ⟨false, .little⟩ ⟨1, 2⟩ .write 0 (by omega)] at started
  obtain ⟨kept, found, same, based⟩ := frozen.2 true true reader _ rfl (by omega) (.start _ rfl started)
  refine ⟨_, _, reader, kept, rfl, rfl, version, data, locked, .start _ rfl started, found, ?_,
    based.trans version, same.trans data⟩
  cases found
  simp only [DbClient.locks, Held.take] at locked ⊢
  omega

section
variable {ι : Type} [DecidableEq ι] {target : Target} {via : DbServer}

private theorem walPlan_header (header : WalHeader) : walPlan header.asBytes = ([], .ok ()) := by
  have plan := walPlan_frames header.asBytes_length []
  simpa [groupCommits] using plan

private theorem page_count {server : TestDbServer} (historic : Historic server) :
    (UInt32.ofNat (server.latestSnapshot.length / PAGESIZE)).toNat = server.latestSnapshot.length / PAGESIZE := by
  have bound := replay_pages historic.applies
  rw [← historic.snapshot] at bound
  rw [UInt32.toNat_ofNat', Nat.mod_eq_of_lt bound]

/-- For every run of clients under SQLite's discipline, whatever was refused
before: a lock asked for on an unlocked client is refused at once or waits for
the changes; if it is granted, the log is its header, the index information
counts no frame and the pages of the latest snapshot, and nothing is left to
send to the server. -/
theorem session_starts_clean {world : World ι} (reachable : World.Reachable target via sqlite world) (i : ι) :
    (∀ outcome client rng lockIdx lockType, world.threads i = .done (some (outcome, client)) → client.locks = 0 →
      (∃ error, (Action.shmLock rng lockIdx lockType .lock).program target client =
        .done (some (.err error, client))) ∨
      ∃ next, (Action.shmLock rng lockIdx lockType .lock).program target client =
        .call ⟨some client, .getChangesAfter client.serverVersion⟩ next) ∧
    ∀ sender version next reply after client,
      world.threads i = .call ⟨sender, .getChangesAfter version⟩ next →
      answers via ⟨sender, .getChangesAfter version⟩ world.shared reply after →
      next reply = .done (some (.ok (), client)) →
      (∃ header : WalHeader, client.walData = header.asBytes) ∧
      client.walIndex.header.info.mxFrame = 0 ∧ client.walIndex.header.infoCopy.mxFrame = 0 ∧
      client.walIndex.header.info.nPage.toNat = client.dbData.length / PAGESIZE ∧
      client.walIndex.header.infoCopy.nPage.toNat = client.dbData.length / PAGESIZE ∧
      client.serverVersion = world.shared.latestSnapshotVersion ∧
      client.dbData = world.shared.latestSnapshot ∧
      walPlan client.walData = ([], .ok ()) := by
  refine ⟨?_, ?_⟩
  · intro outcome client rng lockIdx lockType _ unlocked
    have does := (Action.shmLock rng lockIdx lockType .lock).does target client
    generalize (Action.shmLock rng lockIdx lockType .lock).program target client = program at does
    cases does with
    | refuses error => exact .inl ⟨error, rfl⟩
    | takes held locked => exact (locked unlocked).elim
    | begins held _ => exact .inr ⟨_, rfl⟩
  · intro sender version next reply after client waiting answered granted
    have holds := reachable.follows True fun _ _ _ allowed => allowed
    have historic : Historic world.shared := holds.valid
    have caught : Caught world.shared (next reply) :=
      holds.served following_stable waiting answered trivial version rfl
    obtain ⟨clean, data, latest⟩ := caught client granted
    obtain ⟨header, log⟩ := clean.header
    have pages := page_count historic
    refine ⟨⟨header, log⟩, clean.mxFrame.1, clean.mxFrame.2, ?_, ?_, latest, data, ?_⟩
    · rw [clean.nPage.1, data, pages]
    · rw [clean.nPage.2, data, pages]
    · rw [log, walPlan_header]

end

/-- The lock of a client whose commit was refused: its log still held the frames
when it asked, and is clean when it is granted. -/
theorem session_starts_clean_again : ∃ (refused locked : DbClient) (header : WalHeader),
    refused.walData = header.asBytes ++ framesBytes (Commit.single 2 (by decide)).all ∧
    locked.locks = 1 ∧ locked.serverVersion = 1 ∧ (∃ header : WalHeader, locked.walData = header.asBytes) ∧
    locked.walIndex.header.info.mxFrame = 0 ∧ walPlan locked.walData = ([], .ok ()) ∧
    locked.dbData = (applyTx makeInitialDb (Commit.single 1 (by decide)).transaction).2 := by
  generalize Commit.single 1 _ = first, Commit.single 2 _ = second
  obtain ⟨a, b, reader, next, reachable, granted, _, _, reading, unwritten, version, header, log⟩ :=
    rivals_again .little first second
  have answered := answers_changes_after (TestDbServer.accept .new first.transaction) (some b) 0
  obtain ⟨clean, mxFrame, _, _, _, _, data, plan⟩ :=
    (session_starts_clean reachable true).2 _ _ _ _ _ _ rfl answered granted
  refine ⟨b, reader, header, log, ?_, version, clean, mxFrame, plan, data⟩
  rw [DbClient.locks, reading, unwritten]
  rfl

end Pos2.Repl
