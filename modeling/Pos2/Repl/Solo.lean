import Pos2.Repl.Reset

/-! How one thread moves in a world: a client is opened, takes a lock, fills its
log and sends what it committed. -/

namespace Pos2.Repl
open Calls

section
variable {ι : Type} [DecidableEq ι]

/-- The world once thread `i` has started a program. -/
def World.starting (world : World ι) (i : ι) (program : Thread) : World ι :=
  ⟨world.shared, Function.update world.threads i program⟩

@[simp] theorem World.starting_starting (world : World ι) (i : ι) (first second : Thread) :
    (world.starting i first).starting i second = world.starting i second := by
  simp only [starting, Function.update_idem]

variable {target : Target} {via : DbServer} {rules : Rules} {i : ι}

theorem World.step_start {world : World ι} {value : Option (Res Unit × DbClient)} {program : Thread}
    (started : Starts target rules i value program) :
    World.Step target via rules i (world.starting i (.done value)) (world.starting i program) := by
  have step : World.Step target via rules i (world.starting i (.done value)) _ :=
    .start program (Function.update_self ..) started
  simpa only [starting, Function.update_idem] using step

theorem World.step_call {world : World ι} {after : TestDbServer} {sent : Sent}
    {next : ServerCalls.Reply sent → Thread} {reply : ServerCalls.Reply sent}
    (answered : answers via sent world.shared reply after) :
    World.Step target via rules i (world.starting i (.call sent next))
      (World.starting ⟨after, world.threads⟩ i (next reply)) := by
  have step : World.Step target via rules i (world.starting i (.call sent next)) _ :=
    .call reply after (Function.update_self ..) answered
  simpa only [starting, Function.update_idem] using step

/-- A run under SQLite's discipline is a run. -/
theorem World.Reachable.relaxed {world : World ι} (reachable : Reachable target via sqlite world) :
    Reachable target via anything world := by
  induction reachable with
  | refl => exact .refl
  | tail _ step ih =>
    obtain ⟨i, step⟩ := step
    refine ih.tail ⟨i, ?_⟩
    cases step with
    | call reply after waiting served => exact .call reply after waiting served
    | start program idle started =>
      refine .start program idle ?_
      cases started with
      | opens rng => exact .opens rng
      | acts action alive _ => exact .acts action alive trivial

theorem World.Reachable.step {before after : World ι} (reachable : Reachable target via rules before)
    (step : World.Step target via rules i before after) : Reachable target via rules after :=
  .tail reachable ⟨i, step⟩

end

/-- A client as it is right after it was opened on a new server. -/
structure Opened (rng : Rng) (client : DbClient) : Prop where
  log : ∃ header : WalHeader, client.walData = header.asBytes ∧ header.salt1 = rng.salt1
  version : client.serverVersion = 0
  writeLocks : client.writeLocks = 0
  readLocks : client.readLocks = 0

theorem Opened.locks {rng : Rng} {client : DbClient} (opened : Opened rng client) : client.locks = 0 := by
  rw [DbClient.locks, opened.writeLocks, opened.readLocks]
  rfl

/-- A client is opened while the server is new. -/
theorem World.Reachable.opens {ι : Type} [DecidableEq ι] {target : Target} {via : DbServer} {rules : Rules}
    {world : World ι} {i : ι} (reachable : Reachable target via rules (world.starting i (.done none)))
    (new : world.shared = .new) (rng : Rng) :
    ∃ client, Opened rng client ∧ Reachable target via rules (world.starting i (.done (some (.ok (), client)))) := by
  have read : WalHeader.fromBytes ((DbClient.fresh makeInitialDb 0).walData.take WAL_HEADER_SIZE) =
      some ⟨0, 0, 0, 0, 0, 0, 0, 0⟩ := by decide
  have bumped : nextSalt target rng ⟨0, 0, 0, 0, 0, 0, 0, 0⟩ = some rng.salt1 := rfl
  obtain ⟨walHeader, walIndex, reset, salt, _⟩ :=
    resetWal_cleans target rng (.fresh makeInitialDb 0) read bumped
  refine ⟨{ DbClient.fresh makeInitialDb 0 with walData := walHeader.asBytes, walIndex },
    ⟨⟨walHeader, rfl, salt⟩, rfl, rfl, rfl⟩, ?_⟩
  have asked := reachable.step (World.step_start (.opens rng))
  have answered : answers via ⟨none, .getLatestSnapshot⟩ world.shared (.ok (makeInitialDb, 0)) .new :=
    ⟨trivial, by rw [new, serve, DbServer.getLatestSnapshot_eq]; rfl⟩
  have opened := asked.step (World.step_call answered)
  simp only [reset] at opened
  rwa [show (⟨.new, world.threads⟩ : World ι) = world from new ▸ rfl] at opened

/-- A world with one thread. -/
def World.solo (server : TestDbServer) (thread : Thread) : World Unit := ⟨server, fun _ => thread⟩

private theorem World.solo_starting (server : TestDbServer) (thread program : Thread) :
    (solo server thread).starting () program = solo server program :=
  congrArg (Pool.mk server) (funext fun _ => Function.update_self ..)

section
variable {target : Target} {via : DbServer} {rules : Rules}

theorem World.solo_start {server : TestDbServer} {value : Option (Res Unit × DbClient)} {program : Thread}
    (started : Starts target rules () value program) :
    World.Step target via rules () (solo server (.done value)) (solo server program) := by
  have step : World.Step target via rules () ((solo server program).starting () (.done value)) _ :=
    World.step_start started
  rwa [solo_starting, solo_starting] at step

private theorem World.solo_call {server after : TestDbServer} {sent : Sent} {next : ServerCalls.Reply sent → Thread}
    {reply : ServerCalls.Reply sent} (answered : answers via sent server reply after) :
    World.Step target via rules () (solo server (.call sent next)) (solo after (next reply)) := by
  have step : World.Step target via rules () ((solo server (next reply)).starting () (.call sent next)) _ :=
    World.step_call answered
  rw [solo_starting] at step
  exact solo_starting after (next reply) (next reply) ▸ step

end

section
variable (target : Target) (via : DbServer) (rules : Rules) (rng : Rng)

theorem solo_opened : ∃ client, Opened rng client ∧
    World.Reachable target via rules (World.solo .new (.done (some (.ok (), client)))) := by
  have initial : World.Reachable target via rules (World.solo .new (.done none)) := Relation.ReflTransGen.refl
  rw [← World.solo_starting .new (.done none)] at initial
  obtain ⟨client, opened, reachable⟩ := initial.opens rfl rng
  rw [World.solo_starting] at reachable
  exact ⟨client, opened, reachable⟩

variable {rules rng}

/-- An opened client asks for the changes when it takes a lock, and there are none. -/
theorem solo_locked {client : DbClient} (opened : Opened rng client) (held : Held) (slot : Int)
    (allowed : rules client (.shmLock rng (held.index slot) held.mode .lock)) :
    World.Step target via rules () (World.solo .new (.done (some (.ok (), client))))
        (World.solo .new (.call ⟨some client, .getChangesAfter client.serverVersion⟩ fun answer =>
          .done (some (begun held target rng client answer)))) ∧
      World.Step target via rules ()
        (World.solo .new (.call ⟨some client, .getChangesAfter client.serverVersion⟩ fun answer =>
          .done (some (begun held target rng client answer))))
        (World.solo .new (.done (some (.ok (), held.take client)))) := by
  refine ⟨?_, ?_⟩
  · have step : World.Step target via rules () (World.solo .new (.done (some (.ok (), client)))) _ :=
      World.solo_start (.acts _ (by simp) allowed)
    rw [Action.program, held.locks, locking_outside held target rng opened.locks] at step
    exact step
  · have answered : answers via ⟨some client, .getChangesAfter client.serverVersion⟩ .new (.ok []) .new :=
      ⟨trivial, by rw [serve, DbServer.getChangesAfter_eq]; rfl⟩
    exact World.solo_call answered

end

/-! What SQLite does with a client that keeps a lock: it takes and releases the
write lock around each commit, so every list of commits can come to be in the log. -/

/-- A step that leaves the client locked. -/
inductive Inside (target : Target) (client after : DbClient) : Prop where
  | acts (action : Action) (allowed : sqlite client action)
      (does : action.program target client = .done (some (.ok (), after))) (locked : 0 < after.locks)

theorem World.Reachable.inside {ι : Type} [DecidableEq ι] {target : Target} {via : DbServer} {world : World ι} {i : ι}
    {client after : DbClient}
    (reachable : Reachable target via sqlite (world.starting i (.done (some (.ok (), client)))))
    (steps : Relation.ReflTransGen (Inside target) client after) :
    Reachable target via sqlite (world.starting i (.done (some (.ok (), after)))) := by
  induction steps with
  | refl => exact reachable
  | tail _ step ih =>
    obtain ⟨action, allowed, does, locked⟩ := step
    have moved := ih.step (World.step_start (.acts action (by simp) allowed))
    rwa [does] at moved

private theorem WalFile.write_end (client : DbClient) (data : Bytes) :
    WalFile.write client.walData.length data client = { client with walData := client.walData ++ data } := by
  unfold WalFile.write
  by_cases empty : data = []
  · simp [empty]
  · have grows : client.walData.length + data.length > client.walData.length := by
      have positive := List.length_pos_iff.mpr empty
      omega
    simp [grows]

section
variable (target : Target) (rng : Rng) {client : DbClient}

theorem locked_locks (held : Held) (slot : Int) (locked : client.locks ≠ 0) :
    (Action.shmLock rng (held.index slot) held.mode .lock).program target client =
      .done (some (.ok (), held.take client)) := by
  rw [Action.program, held.locks, locking_inside held target rng locked]
  rfl

private theorem locked_unlocks (held : Held) (slot : Int) (locked : (held.release client).locks ≠ 0) :
    (Action.shmLock rng (held.index slot) held.mode .unlock).program target client =
      .done (some (.ok (), held.release client)) := by
  rw [Action.program, held.unlocks, unlocking_inside held target rng locked]
  rfl

/-- One write transaction of a reader. -/
theorem inside_writes (data : Bytes) (reading : client.readLocks = 1) (unwritten : client.writeLocks = 0) :
    Relation.ReflTransGen (Inside target) client
      { client with walData := client.walData ++ data, hadWrite := true } := by
  have locked : client.locks ≠ 0 := by
    rw [DbClient.locks, reading, unwritten]
    decide
  have writing : 0 < client.writeLocks + 1 := by omega
  have takes : Inside target client (Held.write.take client) := by
    refine .acts (.shmLock ⟨0, 0⟩ .write .exclusive .lock) ?_ (locked_locks target _ .write 0 locked) ?_
    · intro held _ impossible
      cases impossible
    · simp only [DbClient.locks, Held.take]
      omega
  have writes : Inside target (Held.write.take client)
      { Held.write.take client with walData := client.walData ++ data } := by
    refine .acts (.walWrite client.walData.length data) writing ?_ ?_
    · rw [Action.program, show WalFile.write client.walData.length data (Held.write.take client) = _ from
        WalFile.write_end (Held.write.take client) data]
      rfl
    · simp only [DbClient.locks, Held.take]
      omega
  have releases : Inside target { Held.write.take client with walData := client.walData ++ data }
      (Held.write.release { Held.write.take client with walData := client.walData ++ data }) := by
    refine .acts (.shmLock ⟨0, 0⟩ .write .exclusive .unlock) ?_ (locked_unlocks target _ .write 0 ?_) ?_
    · intro held granted _
      cases granted
      exact writing
    · simp only [DbClient.locks, Held.take, Held.release]
      omega
    · simp only [DbClient.locks, Held.take, Held.release]
      omega
  have released := ((Relation.ReflTransGen.single takes).tail writes).tail releases
  simpa only [Held.take, Held.release, Int.add_sub_cancel] using released

/-- Any commits, one after the other. -/
theorem inside_fills (commits : List Commit) (reading : client.readLocks = 1) (unwritten : client.writeLocks = 0) :
    ∃ hadWrite, Relation.ReflTransGen (Inside target) client
        { client with walData := client.walData ++ framesBytes (commits.flatMap Commit.all), hadWrite } ∧
      (client.hadWrite = true ∨ commits ≠ [] → hadWrite = true) := by
  induction commits generalizing client with
  | nil => exact ⟨client.hadWrite, by simp [Relation.ReflTransGen.refl], by simp⟩
  | cons commit rest ih =>
    have first := inside_writes target (framesBytes commit.all) reading unwritten
    obtain ⟨hadWrite, later, wrote⟩ :=
      @ih { client with walData := client.walData ++ framesBytes commit.all, hadWrite := true } reading unwritten
    refine ⟨hadWrite, ?_, fun _ => wrote (.inl rfl)⟩
    simpa only [List.flatMap_cons, framesBytes_append, List.append_assoc] using first.trans later

end

theorem serve_accepts (via : DbServer) {server : TestDbServer} {sender : Option DbClient} {version : Nat}
    {tx : Transaction} (latest : server.latestSnapshotVersion = version) (applies : tx.Applies)
    (takes : via.Takes version tx) :
    serve via ⟨sender, .commitChange version tx⟩ server = (.ok (version + 1), server.accept tx) := by
  rw [serve, DbServer.commitChange_accepts via latest applies takes, TestDbServer.accept, latest]
  rfl

section
variable {target : Target} {rng : Rng} {client : DbClient} {held : Held}

theorem ended_ok {header : WalHeader} {rest : Bytes} (wal : client.walData = header.asBytes ++ rest) :
    (ended target rng client).1 = .ok () ↔ ¬ (target.overflowChecks = true ∧ header.salt1 = 0xffffffff) := by
  rw [← resetWal_header_ok target rng client wal, ended]
  rcases resetWal target rng client with ⟨_ | error | _, after⟩
  · exact Iff.rfl
  · exact Iff.rfl
  · exact Iff.rfl

theorem release_keeps (held : Held) (client : DbClient) :
    (held.release client).walData = client.walData ∧ (held.release client).hadWrite = client.hadWrite ∧
      (held.release client).serverVersion = client.serverVersion := by
  cases held <;> exact ⟨rfl, rfl, rfl⟩

/-- The release of the last lock sends the committed transactions of the log. -/
theorem unlocking_commits (last : (held.release client).locks = 0) (wrote : client.hadWrite = true)
    {header : WalHeader} {commits : List Commit} {tail : List Frame}
    (uncommitted : ∀ frame ∈ tail, ¬ frame.commits)
    (wal : client.walData = header.asBytes ++ framesBytes (commits.flatMap Commit.all ++ tail)) :
    held.unlocking target rng client =
      sending (ended target rng) (commits.map Commit.transaction) (held.release client) := by
  obtain ⟨sameWal, sameWrite, _⟩ := release_keeps held client
  have plan : walPlan (held.release client).walData = (commits.map Commit.transaction, .ok ()) := by
    rw [sameWal, wal, walPlan_frames header.asBytes_length, groupCommits_commits commits uncommitted]
  have sends := unlocking_sends held target rng last (sameWrite.trans wrote)
  rw [plan] at sends
  exact sends

theorem commits_apply (commits : List Commit) : ∀ tx ∈ commits.map Commit.transaction, tx.Applies := by
  intro tx member
  obtain ⟨commit, _, rfl⟩ := List.mem_map.mp member
  exact commit.applies

end
end Pos2.Repl
