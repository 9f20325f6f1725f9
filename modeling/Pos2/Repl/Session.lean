import Pos2.Repl.Linear

/-! A session of one client: from the first lock it takes to the release of its
last one, while no other client commits. -/

namespace Pos2.Repl
open Calls

section
variable {ι : Type} [DecidableEq ι]

/-- The worlds inside a session of thread `i`: its first lock was granted, it has
held one since, and no other thread has changed the server. -/
inductive Session (target : Target) (via : DbServer) (i : ι) : World ι → Prop where
  | begins {before after : World ι} {sender version next client}
      (reachable : World.Reachable target via sqlite before)
      (waiting : before.threads i = .call ⟨sender, .getChangesAfter version⟩ next)
      (step : World.Step target via sqlite i before after)
      (granted : after.threads i = .done (some (.ok (), client))) (locked : 0 < client.locks) :
      Session target via i after
  | goes {before after : World ι} {j outcome client} (session : Session target via i before)
      (step : World.Step target via sqlite j before after)
      (alone : i ≠ j → after.shared = before.shared)
      (idle : after.threads i = .done (some (outcome, client))) (locked : 0 < client.locks) :
      Session target via i after

variable {target : Target} {via : DbServer} {i : ι}

theorem Session.reachable {world : World ι} (session : Session target via i world) :
    World.Reachable target via sqlite world := by
  induction session with
  | begins reachable waiting step granted locked => exact reachable.step step
  | goes session step alone idle locked ih => exact ih.step step

/-- In a session the client is idle, locked, and at the latest version. -/
theorem Session.latest {world : World ι} (session : Session target via i world) :
    ∃ outcome client, world.threads i = .done (some (outcome, client)) ∧ 0 < client.locks ∧
      client.serverVersion = world.shared.latestSnapshotVersion := by
  induction session with
  | @begins before after sender version next client reachable waiting step granted locked =>
    refine ⟨_, client, granted, locked, ?_⟩
    cases step with
    | start program idle started =>
      rw [waiting] at idle
      cases idle
    | call reply after waiting' answered =>
      rw [waiting] at waiting'
      cases waiting'
      have same := (answers_changes answered).2
      simp only [Function.update_self] at granted
      have holds := reachable.follows True fun _ _ _ allowed => allowed
      have caught : Caught before.shared (next reply) :=
        holds.served following_stable waiting answered trivial version rfl
      rw [(caught client granted).2.2, same]
  | @goes before after j outcome client session step alone idle locked ih =>
    refine ⟨outcome, client, idle, locked, ?_⟩
    obtain ⟨outcome', client', idle', locked', latest⟩ := ih
    by_cases same : i = j
    · subst j
      cases step with
      | call reply after waiting answered =>
        rw [idle'] at waiting
        cases waiting
      | start program idle'' started =>
        rw [idle'] at idle''
        cases idle''
        cases started with
        | acts action alive allowed =>
          obtain ⟨kept, found, _, version⟩ := (action.does target client').frozen locked'
          simp only [Function.update_self] at idle
          rw [idle] at found
          cases found
          rw [version, latest]
    · have unmoved := step.others same
      rw [idle, idle'] at unmoved
      cases unmoved
      rw [latest, alone same]

/-- SQLite's discipline in a session: what was not written is clean. -/
theorem Session.tidy {world : World ι} (session : Session target via i world) {outcome client}
    (idle : world.threads i = .done (some (outcome, client))) (alive : outcome ≠ .panic) :
    Tidy client world.shared :=
  ((session.reachable.follows True fun _ _ _ allowed => allowed).post idle outcome client rfl).2 trivial alive

/-- Sending stops at a commit that is stale or too long for the web server. -/
theorem sending_refused {work : DbClient → Res Unit × DbClient} {client : DbClient} {server : TestDbServer}
    {tx : Transaction} (rest : List Transaction)
    (refused : server.latestSnapshotVersion ≠ client.serverVersion ∨ ¬ via.Takes client.serverVersion tx) :
    ((sending work (tx :: rest) client).run (serve via) server).1.1 ≠ .ok () ∧
      ((sending work (tx :: rest) client).run (serve via) server).2 = server := by
  obtain ⟨failed, left⟩ : (∀ newVersion, (via.commitChange server client.serverVersion tx).1 ≠ .ok newVersion) ∧
      (via.commitChange server client.serverVersion tx).2 = server := by
    rcases refused with stale | long
    · exact DbServer.commitChange_refuses via tx stale
    · rw [DbServer.commitChange_rejects via long]
      simp
  have answered : serve via ⟨some client, .commitChange client.serverVersion tx⟩ server =
      via.commitChange server client.serverVersion tx := rfl
  generalize via.commitChange server client.serverVersion tx = answer at failed left answered
  obtain ⟨reply, after⟩ := answer
  subst left
  rw [sending, Program.run_call, answered]
  cases reply with
  | ok newVersion => exact (failed newVersion rfl).elim
  | err error => exact ⟨by simp, rfl⟩
  | panic => exact ⟨by simp, rfl⟩

private theorem sending_accepted {work : DbClient → Res Unit × DbClient} {client : DbClient} {server : TestDbServer}
    (latest : server.latestSnapshotVersion = client.serverVersion) {tx : Transaction}
    (rest : List Transaction) (applies : tx.Applies) (takes : via.Takes client.serverVersion tx) :
    (sending work (tx :: rest) client).run (serve via) server =
      (sending work rest client).run (serve via) (server.accept tx) := by
  rw [sending, Program.run_call, serve_accepts via latest applies takes]

private theorem accept_moves {server : TestDbServer} {client : DbClient} (tx : Transaction)
    (latest : server.latestSnapshotVersion = client.serverVersion) :
    (server.accept tx).latestSnapshotVersion ≠ client.serverVersion := by
  rw [← latest]
  exact Nat.succ_ne_self _

/-- What becomes of the transactions of one session: the first is accepted, and
the second, sent from the same version, is refused. -/
theorem sending_run {work : DbClient → Res Unit × DbClient} {client : DbClient} {server : TestDbServer}
    (latest : server.latestSnapshotVersion = client.serverVersion) {txs : List Transaction}
    (applies : ∀ tx ∈ txs, tx.Applies) :
    (txs = [] ∧ (sending work txs client).run (serve via) server = (work client, server)) ∨
    (∃ tx, txs = [tx] ∧ via.Takes client.serverVersion tx ∧
      (sending work txs client).run (serve via) server = (work client, server.accept tx)) ∨
    ((1 < txs.length ∨ ∃ tx ∈ txs, ¬ via.Takes client.serverVersion tx) ∧
      ((sending work txs client).run (serve via) server).1.1 ≠ .ok ()) := by
  match txs, applies with
  | [], _ => exact .inl ⟨rfl, rfl⟩
  | tx :: rest, applies =>
    by_cases takes : via.Takes client.serverVersion tx
    · rw [sending_accepted latest rest (applies tx (by simp)) takes]
      match rest with
      | [] => exact .inr (.inl ⟨tx, rfl, takes, rfl⟩)
      | second :: rest =>
        refine .inr (.inr ⟨.inl (by simp), ?_⟩)
        exact (sending_refused rest (.inl (accept_moves tx latest))).1
    · exact .inr (.inr ⟨.inr ⟨tx, by simp, takes⟩, (sending_refused rest (.inr takes)).1⟩)

/-- Thread `i` finishes while no other thread changes the server. -/
abbrev Closing (target : Target) (via : DbServer) (i : ι) : World ι → World ι → Prop :=
  Relation.ReflTransGen (Pool.Undisturbed (answers via) (Starts target sqlite) i)

theorem Closing.run {before after : World ι} (closing : Closing target via i before after) {program value}
    (started : before.threads i = program) (finished : after.threads i = .done value) :
    program.run (serve via) before.shared = (value, after.shared) := by
  have same := Pool.Undisturbed.run (fun _ _ _ _ answered => answered.2) closing
  rw [started, finished] at same
  exact same

/-- Sending transactions that apply comes to an end. -/
theorem sending_finishes {work : DbClient → Res Unit × DbClient} {client : DbClient} {txs : List Transaction}
    (applies : ∀ tx ∈ txs, tx.Applies) (world : World ι)
    (waiting : world.threads i = asThread (sending work txs client)) :
    ∃ closed value, Closing target via i world closed ∧ closed.threads i = .done (some value) := by
  induction txs generalizing world with
  | nil => exact ⟨world, _, .refl, waiting⟩
  | cons tx rest ih =>
    generalize answered : serve via ⟨some client, .commitChange client.serverVersion tx⟩ world.shared = answer
    obtain ⟨reply, after⟩ := answer
    have served : answers via ⟨some client, .commitChange client.serverVersion tx⟩ world.shared reply after :=
      ⟨fun _ => applies tx (by simp), answered⟩
    have moved : Closing target via i world _ := .single (.own reply after waiting served)
    cases reply with
    | ok newVersion =>
      obtain ⟨closed, value, closing, finished⟩ :=
        ih (fun tx member => applies tx (by simp [member]))
          ⟨after, Function.update world.threads i (asThread (sending work rest client))⟩
          (Function.update_self i _ _)
      exact ⟨closed, value, moved.trans closing, finished⟩
    | err error => exact ⟨_, _, moved, Function.update_self i _ _⟩
    | panic => exact ⟨_, _, moved, Function.update_self i _ _⟩

private theorem asThread_run (program : Program ServerCalls (Res Unit × DbClient)) (server : TestDbServer) :
    (asThread program).run (serve via) server =
      (some (program.run (serve via) server).1, (program.run (serve via) server).2) := by
  rw [asThread, Program.run_bind, Program.run_done]

private theorem header_alone {first header : WalHeader} {commits : List Commit} {tail : List Frame}
    (wal : first.asBytes = header.asBytes ++ framesBytes (commits.flatMap Commit.all ++ tail)) : commits = [] := by
  have lengths := congrArg List.length wal
  rw [List.length_append, framesBytes_length, first.asBytes_length, header.asBytes_length] at lengths
  have positive := frame_size_pos
  have empty : (commits.flatMap Commit.all ++ tail).length = 0 := by
    rcases Nat.eq_zero_or_pos (commits.flatMap Commit.all ++ tail).length with empty | some_
    · exact empty
    · have filled := Nat.mul_pos positive some_
      omega
  cases commits with
  | nil => rfl
  | cons commit rest => simp [Commit.all] at empty

/-- The world in which thread `i` begins to release a lock. -/
def World.unlocking (world : World ι) (target : Target) (i : ι) (client : DbClient) (rng : Rng) (held : Held)
    (slot : Int) : World ι :=
  world.starting i ((Action.shmLock rng (held.index slot) held.mode .unlock).program target client)

section
variable {world : World ι} {client : DbClient} {rng : Rng} {held : Held} {slot : Int}

private theorem World.unlocking_thread :
    (world.unlocking target i client rng held slot).threads i = asThread (held.unlocking target rng client) := by
  simp only [World.unlocking, World.starting, Action.program, held.unlocks, Function.update_self]

theorem Closing.unlocking {closed : World ι} {result after}
    (closing : Closing target via i (world.unlocking target i client rng held slot) closed)
    (finished : closed.threads i = .done (some (result, after))) :
    (held.unlocking target rng client).run (serve via) world.shared = ((result, after), closed.shared) := by
  have run := closing.run World.unlocking_thread finished
  rw [asThread_run] at run
  obtain ⟨value, shared⟩ := Prod.mk.inj run
  exact Prod.ext (Option.some.inj value) shared

end

end

/-- A session goes on with what SQLite does inside it. -/
theorem Session.inside {target : Target} {via : DbServer} {server : TestDbServer} {client after : DbClient}
    (session : Session target via () (World.solo server (.done (some (.ok (), client)))))
    (steps : Relation.ReflTransGen (Inside target) client after) :
    Session target via () (World.solo server (.done (some (.ok (), after)))) := by
  induction steps with
  | refl => exact session
  | @tail before after _ step ih =>
    obtain ⟨action, allowed, does, locked⟩ := step
    have moved : World.Step target via sqlite () (World.solo server (.done (some (.ok (), before)))) _ :=
      World.solo_start (.acts action (by simp) allowed)
    rw [does] at moved
    exact .goes ih moved (fun different => (different rfl).elim) rfl locked

section
variable {target : Target} {via : DbServer}

/-- The log of a session of the first client of a new server. -/
theorem session_filled (target : Target) (via : DbServer) (rng : Rng) (commits : List Commit) :
    ∃ (client : DbClient) (header : WalHeader),
      Session target via () (World.solo .new (.done (some (.ok (), client)))) ∧
      client.walData = header.asBytes ++ framesBytes (commits.flatMap Commit.all) ∧
      header.salt1 = rng.salt1 ∧ (Held.read.release client).locks = 0 ∧
      (commits ≠ [] → client.hadWrite = true) := by
  obtain ⟨client, opened, reachable⟩ := solo_opened target via sqlite rng
  have allowed : sqlite client (.shmLock rng (Held.read.index 0) Held.read.mode .lock) := by
    intro held _ impossible
    cases impossible
  obtain ⟨asks, locks⟩ := solo_locked target via opened .read 0 allowed
  have reading : (Held.read.take client).readLocks = 1 := by
    simp only [Held.take, opened.readLocks]
    rfl
  have session : Session target via () (World.solo .new (.done (some (.ok (), Held.read.take client)))) := by
    refine .begins (reachable.step asks) rfl locks rfl ?_
    rw [DbClient.locks, reading]
    simp only [Held.take, opened.writeLocks]
    decide
  obtain ⟨hadWrite, steps, wrote⟩ := inside_fills target commits reading opened.writeLocks
  obtain ⟨header, log, salt⟩ := opened.log
  refine ⟨_, header, session.inside steps, congrArg (· ++ _) log, salt, ?_, fun some_ => wrote (.inr some_)⟩
  simp only [DbClient.locks, Held.release, Held.take, opened.writeLocks, opened.readLocks]
  rfl

end

section
variable {ι : Type} [DecidableEq ι] {target : Target} {via : DbServer} {i : ι}

/-- The release of the last lock of a session ends, and it ends well with exactly
the transactions of the session in the server's log if and only if there is at
most one, the web server takes it and the salt of the next log does not overflow. -/
theorem session_commits {world : World ι} (session : Session target via i world) {outcome client}
    (idle : world.threads i = .done (some (outcome, client))) (alive : outcome ≠ .panic)
    (rng : Rng) (held : Held) (slot : Int) (last : (held.release client).locks = 0)
    {header : WalHeader} {commits : List Commit} {tail : List Frame}
    (uncommitted : ∀ frame ∈ tail, ¬ frame.commits)
    (wal : client.walData = header.asBytes ++ framesBytes (commits.flatMap Commit.all ++ tail)) :
    (∃ closed value, Closing target via i (world.unlocking target i client rng held slot) closed ∧
      closed.threads i = .done (some value)) ∧
    ∀ closed result after, Closing target via i (world.unlocking target i client rng held slot) closed →
      closed.threads i = .done (some (result, after)) →
      (result = .ok () ∧ closed.shared.changes = world.shared.changes ++
        (commits.map Commit.transaction).zipIdx (world.shared.latestSnapshotVersion + 1) ↔
      commits.length ≤ 1 ∧ (∀ commit ∈ commits, via.Takes client.serverVersion commit.transaction) ∧
        ¬ (target.overflowChecks = true ∧ client.hadWrite = true ∧ header.salt1 = 0xffffffff)) := by
  obtain ⟨sameWal, sameWrite, sameVersion⟩ := release_keeps held client
  cases wrote : client.hadWrite with
  | false =>
    have tidy := session.tidy idle alive
    obtain ⟨first, log⟩ := (tidy.quiet wrote).header
    have none_ := header_alone (log.symm.trans wal)
    subst none_
    have done := unlocking_clean held target rng last (sameWrite.trans wrote)
    refine ⟨⟨_, _, .refl, by rw [World.unlocking_thread, done]; rfl⟩, ?_⟩
    intro closed result after closing finished
    have run := closing.unlocking finished
    rw [done, Program.run_done] at run
    obtain ⟨value, shared⟩ := Prod.mk.inj run
    obtain ⟨rfl, rfl⟩ := Prod.mk.inj value
    rw [← shared]
    simp
  | true =>
    obtain ⟨outcome', client', idle', _, latest⟩ := session.latest
    rw [idle] at idle'
    cases idle'
    have sends : held.unlocking target rng client = _ := unlocking_commits last wrote uncommitted wal
    refine ⟨sending_finishes (commits_apply commits) _ (by rw [World.unlocking_thread, sends]), ?_⟩
    intro closed result after closing finished
    have run := closing.unlocking finished
    rw [sends] at run
    have well : (ended target rng (held.release client)).1 = .ok () ↔ _ := ended_ok (sameWal.trans wal)
    simp only [true_and]
    rcases sending_run (latest.symm.trans sameVersion.symm) (commits_apply commits) with
      ⟨empty, same⟩ | ⟨tx, single, takes, same⟩ | ⟨unsent, refused⟩
    · rw [same] at run
      obtain ⟨value, shared⟩ := Prod.mk.inj run
      rw [← shared, empty]
      rw [List.map_eq_nil_iff] at empty
      rw [value] at well
      simp [well, empty]
    · rw [same] at run
      obtain ⟨value, shared⟩ := Prod.mk.inj run
      rw [value] at well
      obtain ⟨commit, rfl, rfl⟩ := List.map_eq_singleton_iff.mp single
      rw [sameVersion] at takes
      rw [← shared]
      simp [well, takes, TestDbServer.accept]
    · rw [run] at refused
      refine ⟨fun fine => (refused fine.1).elim, ?_⟩
      rintro ⟨few, takes, _⟩
      rw [List.length_map] at unsent
      rcases unsent with many | ⟨_, member, long⟩
      · omega
      · obtain ⟨commit, inside, rfl⟩ := List.mem_map.mp member
        rw [sameVersion] at long
        exact (long (takes commit inside)).elim

end

/-- A session with one commit ends well, and the commit is in the log. -/
theorem session_commits_one : ∃ (closed : World Unit) (result : Res Unit) (after : DbClient),
    closed.threads () = .done (some (result, after)) ∧ result = .ok () ∧
    closed.shared.changes = [((Commit.single 1 (by decide)).transaction, 1)] := by
  obtain ⟨client, header, session, wal, salt, last, wrote⟩ :=
    session_filled ⟨false, .little⟩ .test ⟨1, 2⟩ [.single 1 (by decide)]
  rw [← List.append_nil ([Commit.single 1 (by decide)].flatMap Commit.all)] at wal
  have uncommitted : ∀ frame ∈ ([] : List Frame), ¬ frame.commits := by simp
  obtain ⟨⟨closed, ⟨result, after⟩, closing, finished⟩, sends⟩ :=
    session_commits session rfl (by simp) ⟨1, 2⟩ .read 0 last uncommitted wal
  obtain ⟨ok, log⟩ := (sends closed result after closing finished).mpr
    ⟨by simp, fun _ _ => trivial, by simp⟩
  exact ⟨closed, result, after, finished, ok, log⟩

/-- A session with two commits fails, and only the first is in the log. -/
theorem session_of_two_commits_fails : ∃ (client : DbClient) (header : WalHeader) (closed : World Unit)
    (result : Res Unit) (after : DbClient),
    Session ⟨false, .little⟩ .test () (World.solo .new (.done (some (.ok (), client)))) ∧
    client.walData = header.asBytes ++
      framesBytes ([Commit.single 1 (by decide), Commit.single 2 (by decide)].flatMap Commit.all) ∧
    (Held.read.release client).locks = 0 ∧
    Closing ⟨false, .little⟩ .test ()
      ((World.solo .new (.done (some (.ok (), client)))).unlocking ⟨false, .little⟩ () client ⟨1, 2⟩ .read 0)
      closed ∧
    closed.threads () = .done (some (result, after)) ∧ result ≠ .ok () ∧
    closed.shared.changes = [((Commit.single 1 (by decide)).transaction, 1)] := by
  obtain ⟨client, header, session, wal, salt, last, wrote⟩ :=
    session_filled ⟨false, .little⟩ .test ⟨1, 2⟩ [.single 1 (by decide), .single 2 (by decide)]
  obtain ⟨outcome, _, idle, _, latest⟩ := session.latest
  cases idle
  have uncommitted : ∀ frame ∈ ([] : List Frame), ¬ frame.commits := by simp
  have padded := wal
  rw [← List.append_nil ([Commit.single 1 _, Commit.single 2 _].flatMap Commit.all)] at padded
  have sends : Held.read.unlocking ⟨false, .little⟩ ⟨1, 2⟩ client = _ :=
    unlocking_commits last (wrote (by simp)) uncommitted padded
  obtain ⟨closed, ⟨result, after⟩, closing, finished⟩ : ∃ closed value, Closing _ .test () _ closed ∧ _ :=
    sending_finishes (commits_apply _)
      ((World.solo .new (.done (some (.ok (), client)))).unlocking ⟨false, .little⟩ () client ⟨1, 2⟩ .read 0)
      (by rw [World.unlocking_thread, sends])
  have run := closing.unlocking finished
  rw [sends] at run
  refine ⟨client, header, closed, result, after, session, wal, last, closing, finished, ?_⟩
  have applies := commits_apply [Commit.single 1 (by decide), Commit.single 2 (by decide)]
  have based := latest.symm
  change _ = (Held.read.release client).serverVersion at based
  have takes : DbServer.test.Takes (Held.read.release client).serverVersion
    (Commit.single 1 (by decide)).transaction := trivial
  rw [List.map_cons, List.map_singleton, sending_accepted based _ (applies _ (by simp)) takes] at run
  have second : _ ∧ ((sending (ended ⟨false, .little⟩ ⟨1, 2⟩) [(Commit.single 2 (by decide)).transaction]
      (Held.read.release client)).run (serve .test) _).2 = _ :=
    sending_refused [] (.inl (accept_moves (Commit.single 1 (by decide)).transaction based))
  rw [run] at second
  refine ⟨second.1, ?_⟩
  rw [show closed.shared = _ from second.2]
  rfl

end Pos2.Repl
