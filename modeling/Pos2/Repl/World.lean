import Pos2.Calls.Safety
import Pos2.Repl.Wal

/-! Any number of clients over one server. A client is opened, then SQLite takes
and releases its locks, writes its log and its wal-index; each call to the server
is one step, so the clients interleave between any two of them. -/

namespace Pos2.Repl
open Calls

/-- The number of locks SQLite holds on a client. -/
def DbClient.locks (client : DbClient) : Int := client.writeLocks + client.readLocks

/-- The locks that `shm_lock` grants. -/
inductive Held where
  | write
  | read

namespace Held

def take : Held → DbClient → DbClient
  | .write, client => { client with writeLocks := client.writeLocks + 1, hadWrite := true }
  | .read, client => { client with readLocks := client.readLocks + 1 }

def release : Held → DbClient → DbClient
  | .write, client => { client with writeLocks := client.writeLocks - 1 }
  | .read, client => { client with readLocks := client.readLocks - 1 }

def count : Held → DbClient → Int
  | .write, client => client.writeLocks
  | .read, client => client.readLocks

def locking (held : Held) (target : Target) (rng : Rng) : ClientM Unit := do
  DbClient.maybeBeginTx target rng
  Method.modify held.take

def unlocking (held : Held) (target : Target) (rng : Rng) : ClientM Unit := do
  Method.modify held.release
  DbClient.maybeEndTx target rng

/-- The index and the mode under which `shm_lock` grants a lock. -/
def index (slot : Int) : Held → ShmLockIndex
  | .write => .write
  | .read => .read slot

def mode : Held → ShmLockMode
  | .write => .exclusive
  | .read => .shared

theorem locks (held : Held) (slot : Int) (target : Target) (rng : Rng) :
    DbFile.shmLock target rng (held.index slot) held.mode .lock = held.locking target rng := by
  cases held <;> rfl

theorem unlocks (held : Held) (slot : Int) (target : Target) (rng : Rng) :
    DbFile.shmLock target rng (held.index slot) held.mode .unlock = held.unlocking target rng := by
  cases held <;> rfl

/-- The lock an index of the shared memory stands for, if it is granted at all. -/
def ofIndex : ShmLockIndex → Option Held
  | .write => some .write
  | .read _ => some .read
  | .checkpoint => none
  | .recover => none

end Held

/-- Every `shm_lock` is refused outright, or takes a lock, or releases one. -/
theorem shmLock_cases (target : Target) (rng : Rng) (lockIdx : ShmLockIndex) (lockType : ShmLockMode)
    (lockOp : ShmLockOp) :
    (∃ error, DbFile.shmLock target rng lockIdx lockType lockOp = Method.ofOutcome (.err error)) ∨
    (∃ held, Held.ofIndex lockIdx = some held ∧ lockOp = .lock ∧
      DbFile.shmLock target rng lockIdx lockType lockOp = held.locking target rng) ∨
    (∃ held, Held.ofIndex lockIdx = some held ∧ lockOp = .unlock ∧
      DbFile.shmLock target rng lockIdx lockType lockOp = held.unlocking target rng) := by
  cases lockIdx with
  | checkpoint => exact .inl ⟨_, rfl⟩
  | recover => exact .inl ⟨_, rfl⟩
  | write =>
    cases lockOp with
    | lock =>
      cases lockType with
      | shared => exact .inl ⟨_, rfl⟩
      | exclusive => exact .inr (.inl ⟨.write, rfl, rfl, rfl⟩)
    | unlock =>
      cases lockType with
      | shared => exact .inl ⟨_, rfl⟩
      | exclusive => exact .inr (.inr ⟨.write, rfl, rfl, rfl⟩)
  | read slot =>
    cases lockOp with
    | lock =>
      cases lockType with
      | shared => exact .inr (.inl ⟨.read, rfl, rfl, rfl⟩)
      | exclusive => exact .inl ⟨_, rfl⟩
    | unlock =>
      cases lockType with
      | shared => exact .inr (.inr ⟨.read, rfl, rfl, rfl⟩)
      | exclusive => exact .inl ⟨_, rfl⟩

/-- What a lock taken on an unlocked client does with the server's answer. -/
def begun (held : Held) (target : Target) (rng : Rng) (client : DbClient) :
    Res (List (Transaction × Nat)) → Res Unit × DbClient
  | .ok changes =>
    match DbClient.applyChanges changes client with
    | (.ok (), pulled) =>
      match if changes.length > 0 then resetWal target rng pulled else (.ok (), pulled) with
      | (.ok (), after) => (.ok (), held.take after)
      | failed => failed
    | failed => failed
  | .err error => (.err error, client)
  | .panic => (.panic, client)

theorem locking_inside (held : Held) (target : Target) (rng : Rng) {client : DbClient}
    (locked : client.locks ≠ 0) :
    held.locking target rng client = .done (.ok (), held.take client) := by
  have inside : client.writeLocks + client.readLocks ≠ 0 := locked
  simp [Held.locking, DbClient.maybeBeginTx, inside]

theorem locking_outside (held : Held) (target : Target) (rng : Rng) {client : DbClient}
    (unlocked : client.locks = 0) :
    held.locking target rng client =
      .call ⟨some client, .getChangesAfter client.serverVersion⟩ fun answer =>
        .done (begun held target rng client answer) := by
  have outside : client.writeLocks + client.readLocks = 0 := unlocked
  simp only [Held.locking, DbClient.maybeBeginTx, Method.bind_apply, Method.read_apply, Program.done_bind,
    outside, ne_eq, not_true_eq_false, if_false, DbClient.pullChanges, DbClient.getChangesAfter,
    Program.call_bind]
  congr 1
  funext answer
  cases answer with
  | err error => rfl
  | panic => rfl
  | ok changes =>
    simp only [Program.done_bind, Method.local_apply, begun]
    rcases DbClient.applyChanges changes client with ⟨_ | error | _, pulled⟩
    · by_cases some_ : changes.length > 0
      · simp only [some_, if_true, Program.done_bind, Method.local_apply]
        rcases resetWal target rng pulled with ⟨_ | error | _, after⟩ <;> rfl
      · simp only [some_, if_false]
        rfl
    · rfl
    · rfl

/-- The local end of `maybe_end_tx` once every transaction was accepted. -/
def ended (target : Target) (rng : Rng) (client : DbClient) : Res Unit × DbClient :=
  match resetWal target rng client with
  | (.ok (), after) => (.ok (), { after with hadWrite := false })
  | failed => failed

theorem unlocking_inside (held : Held) (target : Target) (rng : Rng) {client : DbClient}
    (locked : (held.release client).locks ≠ 0) :
    held.unlocking target rng client = .done (.ok (), held.release client) := by
  have inside : (held.release client).writeLocks + (held.release client).readLocks ≠ 0 := locked
  simp [Held.unlocking, DbClient.maybeEndTx, inside]

theorem unlocking_clean (held : Held) (target : Target) (rng : Rng) {client : DbClient}
    (unlocked : (held.release client).locks = 0) (quiet : (held.release client).hadWrite = false) :
    held.unlocking target rng client =
      .done (.ok (), { held.release client with hadWrite := false }) := by
  have outside : (held.release client).writeLocks + (held.release client).readLocks = 0 := unlocked
  simp [Held.unlocking, DbClient.maybeEndTx, outside, quiet]

/-- A session that wrote ends with what the log spells. -/
theorem maybeEndTx_sends (target : Target) (rng : Rng) {client : DbClient} (unlocked : client.locks = 0)
    (wrote : client.hadWrite = true) :
    DbClient.maybeEndTx target rng client =
      sending (afterOk (walPlan client.walData).2 (ended target rng)) (walPlan client.walData).1 client := by
  have outside : client.writeLocks + client.readLocks = 0 := unlocked
  rw [walPlan, FRAME_SIZE, ← sendCommits_eq]
  simp only [DbClient.maybeEndTx, Method.bind_apply, Method.modify_apply, Method.read_apply, Program.done_bind,
    outside, ne_eq, not_true_eq_false, if_false, wrote, if_true, Method.local_apply]
  congr 1
  funext sent
  rcases sent with ⟨_ | error | _, after⟩
  · simp only [ended]
    rcases resetWal target rng after with ⟨_ | error | _, last⟩ <;> rfl
  · rfl
  · rfl

theorem unlocking_sends (held : Held) (target : Target) (rng : Rng) {client : DbClient}
    (unlocked : (held.release client).locks = 0) (wrote : (held.release client).hadWrite = true) :
    held.unlocking target rng client =
      sending (afterOk (walPlan (held.release client).walData).2 (ended target rng))
        (walPlan (held.release client).walData).1 (held.release client) := by
  rw [← maybeEndTx_sends target rng unlocked wrote]
  simp only [Held.unlocking, Method.bind_apply, Method.modify_apply, Program.done_bind]

abbrev Thread := Program ServerCalls (Option (Res Unit × DbClient))

def asThread (program : Program ServerCalls (Res Unit × DbClient)) : Thread :=
  program.bind fun ended => .done (some ended)

/-- What SQLite does with an open client. -/
inductive Action where
  | shmLock (rng : Rng) (lockIdx : ShmLockIndex) (lockType : ShmLockMode) (lockOp : ShmLockOp)
  | walWrite (offset : Nat) (data : Bytes)
  | walTruncate (size : Nat)
  | indexWrite (index : WalIndex)

def Action.program (target : Target) : Action → DbClient → Thread
  | .shmLock rng lockIdx lockType lockOp, client =>
    asThread (DbFile.shmLock target rng lockIdx lockType lockOp client)
  | .walWrite offset data, client => .done (some (.ok (), WalFile.write offset data client))
  | .walTruncate size, client => .done (some (.ok (), WalFile.truncate size client))
  | .indexWrite index, client => .done (some (.ok (), { client with walIndex := index }))

/-- All that an action can do: one local change, or one session begun or ended
with the server. -/
inductive Action.Does (target : Target) (client : DbClient) : Action → Thread → Prop where
  | refuses {rng lockIdx lockType lockOp} (error : ErrCtx) :
      Does target client (.shmLock rng lockIdx lockType lockOp) (.done (some (.err error, client)))
  | takes {rng lockIdx lockType} (held : Held) (locked : client.locks ≠ 0) :
      Does target client (.shmLock rng lockIdx lockType .lock) (.done (some (.ok (), held.take client)))
  | begins {rng lockIdx lockType} (held : Held) (unlocked : client.locks = 0) :
      Does target client (.shmLock rng lockIdx lockType .lock)
        (.call ⟨some client, .getChangesAfter client.serverVersion⟩ fun answer =>
          .done (some (begun held target rng client answer)))
  | releases {rng lockIdx lockType} (held : Held) (granted : Held.ofIndex lockIdx = some held)
      (locked : (held.release client).locks ≠ 0) :
      Does target client (.shmLock rng lockIdx lockType .unlock) (.done (some (.ok (), held.release client)))
  | rests {rng lockIdx lockType} (held : Held) (granted : Held.ofIndex lockIdx = some held)
      (unlocked : (held.release client).locks = 0) (quiet : (held.release client).hadWrite = false) :
      Does target client (.shmLock rng lockIdx lockType .unlock)
        (.done (some (.ok (), { held.release client with hadWrite := false })))
  | ends {rng lockIdx lockType} (held : Held) (granted : Held.ofIndex lockIdx = some held)
      (unlocked : (held.release client).locks = 0) (wrote : (held.release client).hadWrite = true) :
      Does target client (.shmLock rng lockIdx lockType .unlock)
        (asThread (sending (afterOk (walPlan (held.release client).walData).2 (ended target rng))
          (walPlan (held.release client).walData).1 (held.release client)))
  | writes (offset : Nat) (data : Bytes) :
      Does target client (.walWrite offset data) (.done (some (.ok (), WalFile.write offset data client)))
  | truncates (size : Nat) :
      Does target client (.walTruncate size) (.done (some (.ok (), WalFile.truncate size client)))
  | indexes (index : WalIndex) :
      Does target client (.indexWrite index) (.done (some (.ok (), { client with walIndex := index })))

theorem Action.does (target : Target) (client : DbClient) (action : Action) :
    action.Does target client (action.program target client) := by
  cases action with
  | walWrite offset data => exact .writes offset data
  | walTruncate size => exact .truncates size
  | indexWrite index => exact .indexes index
  | shmLock rng lockIdx lockType lockOp =>
    rw [Action.program]
    rcases shmLock_cases target rng lockIdx lockType lockOp with
      ⟨error, same⟩ | ⟨held, granted, rfl, same⟩ | ⟨held, granted, rfl, same⟩
    · rw [same]
      exact .refuses error
    · rw [same]
      by_cases unlocked : client.locks = 0
      · rw [locking_outside held target rng unlocked]
        exact .begins held unlocked
      · rw [locking_inside held target rng unlocked]
        exact .takes held unlocked
    · rw [same]
      by_cases unlocked : (held.release client).locks = 0
      · cases wrote : (held.release client).hadWrite with
        | false =>
          rw [unlocking_clean held target rng unlocked wrote]
          exact .rests held granted unlocked wrote
        | true =>
          rw [unlocking_sends held target rng unlocked wrote]
          exact .ends held granted unlocked wrote
      · rw [unlocking_inside held target rng unlocked]
        exact .releases held granted unlocked

abbrev Rules := DbClient → Action → Prop

/-- No discipline at all. -/
def anything : Rules := fun _ _ => True

/-- SQLite's discipline: it releases only locks it holds, and it writes the log
and the index information only while it holds the write lock. -/
def sqlite : Rules
  | client, .shmLock _ lockIdx _ lockOp =>
    ∀ held, Held.ofIndex lockIdx = some held → lockOp = .unlock → 0 < held.count client
  | client, .walWrite _ _ => 0 < client.writeLocks
  | client, .walTruncate _ => 0 < client.writeLocks
  | client, .indexWrite index =>
    0 < client.writeLocks ∨
      (index.header.info = client.walIndex.header.info ∧
        index.header.infoCopy = client.walIndex.header.infoCopy)

/-- What a client may do next. A panic leaves `x_shm_lock`, an `extern "C"`
function, and aborts the process: nothing follows it. -/
inductive Starts (target : Target) (rules : Rules) {ι : Type} :
    ι → Option (Res Unit × DbClient) → Thread → Prop where
  | opens {i : ι} (rng : Rng) : Starts target rules i none (DbClient.new target rng)
  | acts {i : ι} {outcome : Res Unit} {client : DbClient} (action : Action)
      (alive : outcome ≠ .panic) (allowed : rules client action) :
      Starts target rules i (some (outcome, client)) (action.program target client)

def serve (via : DbServer) : (sent : Sent) → TestDbServer → ServerCalls.Reply sent × TestDbServer
  | ⟨_, .getLatestSnapshot⟩, server => (via.getLatestSnapshot server, server)
  | ⟨_, .getChangesAfter version⟩, server => (via.getChangesAfter server version, server)
  | ⟨_, .commitChange version tx⟩, server => via.commitChange server version tx

/-- Every transaction the server accepts is one that `apply_tx` applies. -/
def Request.Considered : Request → TestDbServer → Prop
  | .commitChange version tx, server => server.latestSnapshotVersion = version → tx.Applies
  | _, _ => True

def answers (via : DbServer) : Handler ServerCalls TestDbServer := fun sent before reply after =>
  sent.request.Considered before ∧ serve via sent before = (reply, after)

theorem answers_changes {via : DbServer} {sender : Option DbClient} {version : Nat}
    {before after : TestDbServer} {reply}
    (answered : answers via ⟨sender, .getChangesAfter version⟩ before reply after) :
    reply = .ok (before.changes.filter fun change => change.2 > version) ∧ after = before := by
  have served := answered.2
  simp only [serve, DbServer.getChangesAfter_eq] at served
  obtain ⟨rfl, rfl⟩ := Prod.mk.inj served
  exact ⟨rfl, rfl⟩

theorem answers_snapshot {via : DbServer} {sender : Option DbClient} {before after : TestDbServer} {reply}
    (answered : answers via ⟨sender, .getLatestSnapshot⟩ before reply after) :
    reply = .ok (before.latestSnapshot, before.latestSnapshotVersion) ∧ after = before := by
  have served := answered.2
  simp only [serve, DbServer.getLatestSnapshot_eq] at served
  obtain ⟨rfl, rfl⟩ := Prod.mk.inj served
  exact ⟨rfl, rfl⟩

/-- The server after it accepted a transaction. -/
def TestDbServer.accept (server : TestDbServer) (tx : Transaction) : TestDbServer :=
  ⟨(applyTx server.latestSnapshot tx).2, server.latestSnapshotVersion + 1,
    server.changes ++ [(tx, server.latestSnapshotVersion + 1)]⟩

/-- A commit is accepted on the latest version, unless it is too long for the web
server, and refused on any other. -/
theorem answers_commit {via : DbServer} {sender : Option DbClient} {version : Nat} {tx : Transaction}
    {before after : TestDbServer} {reply : Res Nat}
    (answered : answers via ⟨sender, .commitChange version tx⟩ before reply after) :
    (before.latestSnapshotVersion = version ∧ via.Takes version tx ∧ tx.Applies ∧
      reply = .ok (version + 1) ∧ after = before.accept tx) ∨
    (before.latestSnapshotVersion ≠ version ∧ (∀ newVersion, reply ≠ .ok newVersion) ∧ after = before) ∨
    (¬ via.Takes version tx ∧ reply = .panic ∧ after = before) := by
  obtain ⟨considered, served⟩ := answered
  simp only [serve] at served
  by_cases takes : via.Takes version tx
  · by_cases latest : before.latestSnapshotVersion = version
    · have applies := considered latest
      rw [DbServer.commitChange_accepts via latest applies takes] at served
      obtain ⟨rfl, rfl⟩ := Prod.mk.inj served
      refine .inl ⟨latest, takes, applies, rfl, ?_⟩
      rw [TestDbServer.accept, latest]
    · obtain ⟨refused, same⟩ := DbServer.commitChange_refuses via tx latest
      rw [served] at refused same
      exact .inr (.inl ⟨latest, refused, same⟩)
  · rw [DbServer.commitChange_rejects via takes] at served
    obtain ⟨rfl, rfl⟩ := Prod.mk.inj served
    exact .inr (.inr ⟨takes, rfl, rfl⟩)

abbrev World (ι : Type) := Pool ServerCalls TestDbServer ι (Option (Res Unit × DbClient))

def World.initial {ι : Type} : World ι := ⟨.new, fun _ => .done none⟩

abbrev World.Step {ι : Type} [DecidableEq ι] (target : Target) (via : DbServer) (rules : Rules) :=
  Pool.Step (ι := ι) (answers via) (Starts target rules)

def World.Reachable {ι : Type} [DecidableEq ι] (target : Target) (via : DbServer) (rules : Rules)
    (world : World ι) : Prop :=
  Pool.Runs (answers via) (Starts target rules) World.initial world

/-- The client of a thread: as it is between two calls of SQLite, or as it was
when it sent the request it waits on. -/
def clientOf : Thread → Option DbClient
  | .done ended => ended.map Prod.snd
  | .call sent _ => sent.sender

def World.client {ι : Type} (world : World ι) (i : ι) : Option DbClient := clientOf (world.threads i)

end Pos2.Repl
