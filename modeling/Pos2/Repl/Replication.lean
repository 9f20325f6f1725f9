import Pos2.Repl.History

/-! The contract of a client. Whatever the clients do, in any order of their
steps, the server's log is a linear history and every client holds one of its
prefixes. Under SQLite's discipline the log of a client is clean whenever no
lock is held, unless the next catch-up is bound to clean it. -/

namespace Pos2.Repl
open Calls

/-- The version a request is based on. -/
def Request.base : Request → Option Nat
  | .getLatestSnapshot => none
  | .getChangesAfter version => some version
  | .commitChange version _ => some version

/-- A request goes out from an unlocked replica, with its version, or from a
client that is still to be opened. -/
structure Attached (sent : Sent) (server : TestDbServer) : Prop where
  based : sent.request.base = sent.sender.map DbClient.serverVersion
  replica : ∀ client, sent.sender = some client → client.locks = 0 ∧ Replica client server

/-- What SQLite's discipline keeps true of a client. A refused commit leaves the
log as it was, but only on a client that is behind the latest version. -/
structure Tidy (client : DbClient) (server : TestDbServer) : Prop where
  counted : 0 ≤ client.writeLocks ∧ 0 ≤ client.readLocks
  marked : 0 < client.writeLocks → client.hadWrite = true
  quiet : client.hadWrite = false → Clean client
  rested : client.locks = 0 → Clean client ∨ client.serverVersion < server.accepted.length

namespace Tidy
variable {client : DbClient} {server : TestDbServer}

theorem take (held : Held) (counted : 0 ≤ client.writeLocks ∧ 0 ≤ client.readLocks)
    (marked : 0 < client.writeLocks → client.hadWrite = true)
    (quiet : client.hadWrite = false → Clean client) : Tidy (held.take client) server := by
  cases held with
  | write =>
    refine ⟨⟨?_, counted.2⟩, fun _ => rfl, ?_, ?_⟩
    · simp only [Held.take]
      omega
    · intro impossible
      cases impossible
    · intro unlocked
      simp only [DbClient.locks, Held.take] at unlocked
      omega
  | read =>
    refine ⟨⟨counted.1, ?_⟩, marked, fun quiet' => (quiet quiet').congr rfl rfl rfl rfl, ?_⟩
    · simp only [Held.take]
      omega
    · intro unlocked
      simp only [DbClient.locks, Held.take] at unlocked
      omega

theorem released (tidy : Tidy client server) {held : Held} (holding : 0 < held.count client) :
    (0 ≤ (held.release client).writeLocks ∧ 0 ≤ (held.release client).readLocks) ∧
      (0 < (held.release client).writeLocks → (held.release client).hadWrite = true) := by
  have counted := tidy.counted
  have marked := tidy.marked
  cases held with
  | write =>
    simp only [Held.count, Held.release] at holding ⊢
    refine ⟨⟨by omega, counted.2⟩, ?_⟩
    intro _
    exact marked holding
  | read =>
    simp only [Held.count, Held.release] at holding ⊢
    exact ⟨⟨counted.1, by omega⟩, marked⟩

private theorem release_clean (tidy : Tidy client server) {held : Held}
    (quiet : (held.release client).hadWrite = false) :
    Clean (held.release client) := by
  cases held with
  | write => exact (tidy.quiet quiet).congr rfl rfl rfl rfl
  | read => exact (tidy.quiet quiet).congr rfl rfl rfl rfl

theorem grows {later : TestDbServer} (tidy : Tidy client server) (growth : server.Grows later) :
    Tidy client later := by
  refine ⟨tidy.counted, tidy.marked, tidy.quiet, ?_⟩
  intro unlocked
  rcases tidy.rested unlocked with clean | behind
  · exact .inl clean
  · exact .inr (Nat.lt_of_lt_of_le behind growth.accepted.length_le)

/-- Only the holder of the write lock edits the log and the index information. -/
theorem edit {edited : DbClient} (tidy : Tidy client server) (writing : 0 < client.writeLocks)
    (writeLocks : edited.writeLocks = client.writeLocks) (readLocks : edited.readLocks = client.readLocks)
    (hadWrite : edited.hadWrite = client.hadWrite) : Tidy edited server := by
  have counted := tidy.counted
  have marked := tidy.marked writing
  refine ⟨?_, ?_, ?_, ?_⟩
  · rw [writeLocks, readLocks]
    exact counted
  · intro _
    rw [hadWrite, marked]
  · intro quiet
    rw [hadWrite, marked] at quiet
    cases quiet
  · intro unlocked
    rw [DbClient.locks, writeLocks, readLocks] at unlocked
    omega

end Tidy

/-- The catch-up of a new session succeeded: the client is at the latest version
and its log is clean. -/
def Caught (before : TestDbServer) (next : Thread) : Prop :=
  ∀ client, next = .done (some (.ok (), client)) →
    Clean client ∧ client.dbData = before.latestSnapshot ∧ client.serverVersion = before.latestSnapshotVersion

/-- The server stays historic and its log grows, a client stays a replica, and
a client under SQLite's discipline stays tidy until it panics. -/
def following (disciplined : Prop) : Contract ServerCalls TestDbServer (Option (Res Unit × DbClient)) where
  valid := Historic
  grows := TestDbServer.Grows
  waits := Attached
  served := fun sent before _ next _ => disciplined →
    ∀ version, sent.request = .getChangesAfter version → Caught before next
  post := fun value server => ∀ outcome client, value = some (outcome, client) →
    Replica client server ∧ (disciplined → outcome ≠ .panic → Tidy client server)

variable {disciplined : Prop}

theorem following_stable : (following disciplined).Stable where
  refl := fun server => List.prefix_refl server.changes
  trans := fun first second => List.IsPrefix.trans first second
  waits := by
    intro sent before after _ growth attached
    refine ⟨attached.based, ?_⟩
    intro client sender
    obtain ⟨unlocked, replica⟩ := attached.replica client sender
    exact ⟨unlocked, replica.grows growth⟩
  post := by
    intro value before after _ growth finished outcome client same
    obtain ⟨replica, tidy⟩ := finished outcome client same
    exact ⟨replica.grows growth, fun sqlite alive => (tidy sqlite alive).grows growth⟩

private theorem TestDbServer.grows_accept (server : TestDbServer) (tx : Transaction) : server.Grows
    (server.accept tx) :=
  List.prefix_append _ _

private theorem Attached.of_replica {client : DbClient} {request : Request} {server : TestDbServer}
    (based : request.base = some client.serverVersion) (unlocked : client.locks = 0)
    (replica : Replica client server) : Attached ⟨some client, request⟩ server := by
  refine ⟨based, ?_⟩
  intro sender same
  cases same
  exact ⟨unlocked, replica⟩

/-- Sending keeps the contract: after a refusal the client is behind the latest version. -/
theorem sending_safe {via : DbServer} {work : DbClient → Res Unit × DbClient} {txs : List Transaction}
    {client : DbClient} {server : TestDbServer}
    (unlocked : client.locks = 0) (replica : Replica client server)
    (behind : ∀ later, client.serverVersion < later.accepted.length → disciplined → Tidy client later)
    (finish : ∀ later, Replica client later → (following disciplined).post (some (work client)) later) :
    (following disciplined).Safe (answers via) (asThread (sending work txs client)) server := by
  induction txs generalizing server with
  | nil => exact finish server replica
  | cons tx rest ih =>
    refine ⟨.of_replica rfl unlocked replica, ?_⟩
    intro before reply after valid growth answered
    have current := replica.grows growth
    rcases answers_commit answered with ⟨latest, _, applies, rfl, rfl⟩ | ⟨stale, refused, rfl⟩ | ⟨_, rfl, rfl⟩
    · have growth' := before.grows_accept tx
      refine ⟨valid.accept applies, growth', ?_, ih (current.grows growth')⟩
      intro _ version impossible
      cases impossible
    · have ahead : client.serverVersion < after.accepted.length := by
        rw [valid.latest] at stale
        exact Nat.lt_of_le_of_ne current.behind (Ne.symm stale)
      have kept (failed : Res Unit) : (following disciplined).post (some (failed, client)) after := by
        intro outcome sender same
        cases same
        exact ⟨current, fun sqlite _ => behind after ahead sqlite⟩
      refine ⟨valid, List.prefix_refl _, ?_, ?_⟩
      · intro _ version impossible
        cases impossible
      · cases reply with
        | ok newVersion => exact (refused newVersion rfl).elim
        | err error => exact kept (.err error)
        | panic => exact kept .panic
    · refine ⟨valid, List.prefix_refl _, ?_, ?_⟩
      · intro _ version impossible
        cases impossible
      · intro outcome sender same
        cases same
        exact ⟨current, fun _ alive => (alive rfl).elim⟩

/-- A client is opened on the latest snapshot with a clean log. -/
theorem new_safe {via : DbServer} {target : Target} {rng : Rng} {server : TestDbServer} :
    (following disciplined).Safe (answers via) (DbClient.new target rng) server := by
  refine ⟨⟨rfl, ?_⟩, ?_⟩
  · intro client same
    cases same
  · intro before reply after valid growth answered
    obtain ⟨rfl, rfl⟩ := answers_snapshot answered
    refine ⟨valid, List.prefix_refl _, ?_, ?_⟩
    · intro _ version impossible
      cases impossible
    · obtain ⟨walData, walIndex, reset⟩ := resetWal_cases target rng
        (.fresh after.latestSnapshot after.latestSnapshotVersion)
      rcases reset with panicked | ⟨cleaned, clean⟩
      · simp only [panicked]
        intro outcome client same
        cases same
        exact ⟨valid.replica rfl rfl, fun _ alive => (alive rfl).elim⟩
      · simp only [cleaned]
        intro outcome client same
        cases same
        refine ⟨valid.replica rfl rfl, fun _ _ => ⟨⟨Int.le_refl _, Int.le_refl _⟩, ?_, fun _ => clean, fun _ => .inl clean⟩⟩
        intro impossible
        cases impossible

/-- A lock taken on an unlocked client brings it to the latest version. -/
theorem begin_safe {via : DbServer} {target : Target} {rng : Rng} {client : DbClient} {server : TestDbServer}
    (held : Held) (unlocked : client.locks = 0) (replica : Replica client server)
    (tidy : disciplined → Tidy client server) :
    (following disciplined).Safe (answers via)
      (.call ⟨some client, .getChangesAfter client.serverVersion⟩ fun answer =>
        .done (some (begun held target rng client answer))) server := by
  refine ⟨.of_replica rfl unlocked replica, ?_⟩
  intro before reply after valid growth answered
  obtain ⟨rfl, rfl⟩ := answers_changes answered
  have current := replica.grows growth
  have applied := valid.catchUp current
  have empty_iff := valid.catchUp_empty current
  have taken {pulled : DbClient} (version : pulled.serverVersion = after.latestSnapshotVersion)
      (data : pulled.dbData = after.latestSnapshot) (writeLocks : pulled.writeLocks = client.writeLocks)
      (readLocks : pulled.readLocks = client.readLocks) (hadWrite : pulled.hadWrite = client.hadWrite)
      (clean : disciplined → Clean pulled) :
      (disciplined → Caught after (.done (some (.ok (), held.take pulled)))) ∧
      (following disciplined).post (some (.ok (), held.take pulled)) after := by
    have replica' := valid.replica version data
    refine ⟨?_, ?_⟩
    · intro sqlite result same
      cases same
      cases held with
      | write => exact ⟨(clean sqlite).congr rfl rfl rfl rfl, data, version⟩
      | read => exact ⟨(clean sqlite).congr rfl rfl rfl rfl, data, version⟩
    · intro outcome result same
      cases same
      refine ⟨?_, ?_⟩
      · cases held with
        | write => exact replica'.congr rfl rfl
        | read => exact replica'.congr rfl rfl
      · intro sqlite _
        apply Tidy.take held
        · rw [writeLocks, readLocks]
          exact (tidy sqlite).counted
        · rw [writeLocks, hadWrite]
          exact (tidy sqlite).marked
        · intro _
          exact clean sqlite
  generalize after.changes.filter (fun change => decide (change.2 > client.serverVersion)) = batch
    at applied empty_iff ⊢
  have result : (disciplined → Caught after (.done (some (begun held target rng client (.ok batch))))) ∧
      (following disciplined).post (some (begun held target rng client (.ok batch))) after := by
    rcases begun_cases target rng client held applied with
      ⟨empty, same⟩ | ⟨walData, walIndex, panicked | ⟨same, clean⟩⟩
    · rw [same]
      refine taken ?_ ?_ ?_ ?_ ?_ ?_
      iterate 5 exact rfl
      intro sqlite
      have latest := empty_iff.mp empty
      have data := valid.replica_latest current latest
      rw [valid.latest] at latest
      rcases ((tidy sqlite).grows growth).rested unlocked with clean | behind
      · exact clean.congr rfl rfl rfl data.symm
      · omega
    · rw [panicked]
      refine ⟨?_, ?_⟩
      · intro _ result impossible
        cases impossible
      · intro outcome result same
        cases same
        exact ⟨valid.replica rfl rfl, fun _ alive => (alive rfl).elim⟩
    · rw [same]
      refine taken ?_ ?_ ?_ ?_ ?_ (fun _ => clean)
      iterate 5 exact rfl
  exact ⟨valid, List.prefix_refl _, fun sqlite _ _ => result.1 sqlite, result.2⟩

/-- A session that ends keeps the contract. -/
theorem end_safe {via : DbServer} {target : Target} {rng : Rng} {client : DbClient} {server : TestDbServer}
    {held : Held} (unlocked : (held.release client).locks = 0) (wrote : (held.release client).hadWrite = true)
    (replica : Replica (held.release client) server)
    (counted : disciplined →
      0 ≤ (held.release client).writeLocks ∧ 0 ≤ (held.release client).readLocks) :
    (following disciplined).Safe (answers via)
      (asThread (sending (afterOk (walPlan (held.release client).walData).2 (ended target rng))
        (walPlan (held.release client).walData).1 (held.release client))) server := by
  generalize held.release client = released at *
  have unwritten : disciplined → ¬ 0 < released.writeLocks := by
    intro sqlite
    have counted := counted sqlite
    simp only [DbClient.locks] at unlocked
    omega
  apply sending_safe unlocked replica
  · intro later behind sqlite
    refine ⟨counted sqlite, fun writing => (unwritten sqlite writing).elim, ?_, fun _ => .inr behind⟩
    intro quiet
    rw [wrote] at quiet
    cases quiet
  · intro later replica
    rcases walPlan_ends released.walData with finished | panicked
    · rw [finished]
      obtain ⟨walData, walIndex, panicked | ⟨same, clean⟩⟩ := ended_cases target rng released
      · simp only [afterOk, panicked]
        intro outcome result same
        cases same
        exact ⟨replica.congr rfl rfl, fun _ alive => (alive rfl).elim⟩
      · simp only [afterOk, same]
        intro outcome result same
        cases same
        refine ⟨replica.congr rfl rfl, fun sqlite _ => ⟨counted sqlite, ?_, ?_, ?_⟩⟩
        · intro writing
          exact (unwritten sqlite writing).elim
        · intro _
          exact clean.congr rfl rfl rfl rfl
        · intro _
          exact .inl (clean.congr rfl rfl rfl rfl)
    · rw [panicked]
      intro outcome result same
      cases same
      exact ⟨replica, fun _ alive => (alive rfl).elim⟩

/-- The rules of a world ask for SQLite's discipline. -/
def Rules.Disciplined (rules : Rules) : Prop := ∀ client action, rules client action → sqlite client action

theorem following_starts {ι : Type} {via : DbServer} {target : Target} {rules : Rules}
    (follows : disciplined → rules.Disciplined) :
    (following disciplined).Starts (answers via) (Starts target rules (ι := ι)) := by
  intro i value program server historic finished started
  cases started with
  | opens rng => exact new_safe
  | @acts outcome client action alive allowed =>
    obtain ⟨replica, tidy⟩ := finished outcome client rfl
    have tidy := fun sqlite => tidy sqlite alive
    have does := action.does target client
    generalize action.program target client = program at does
    cases does with
    | refuses error =>
      intro outcome result same
      cases same
      exact ⟨replica, fun sqlite _ => tidy sqlite⟩
    | takes held locked =>
      intro outcome result same
      cases same
      refine ⟨by cases held <;> exact replica.congr rfl rfl, ?_⟩
      intro sqlite _
      exact .take held (tidy sqlite).counted (tidy sqlite).marked (tidy sqlite).quiet
    | begins held unlocked => exact begin_safe held unlocked replica tidy
    | releases held granted locked =>
      intro outcome result same
      cases same
      refine ⟨by cases held <;> exact replica.congr rfl rfl, ?_⟩
      intro sqlite _
      obtain ⟨counted, marked⟩ := (tidy sqlite).released (follows sqlite _ _ allowed held granted rfl)
      exact ⟨counted, marked, (tidy sqlite).release_clean, fun unlocked => (locked unlocked).elim⟩
    | rests held granted unlocked quiet =>
      intro outcome result same
      cases same
      refine ⟨by cases held <;> exact replica.congr rfl rfl, ?_⟩
      intro sqlite _
      have clean : Clean (held.release client) := (tidy sqlite).release_clean quiet
      obtain ⟨counted, marked⟩ := (tidy sqlite).released (follows sqlite _ _ allowed held granted rfl)
      refine ⟨counted, ?_, fun _ => clean.congr rfl rfl rfl rfl, fun _ => .inl (clean.congr rfl rfl rfl rfl)⟩
      intro writing
      rw [quiet] at marked
      cases marked writing
    | ends held granted unlocked wrote =>
      apply end_safe unlocked wrote
      · cases held <;> exact replica.congr rfl rfl
      · intro sqlite
        exact ((tidy sqlite).released (follows sqlite _ _ allowed held granted rfl)).1
    | writes offset data =>
      intro outcome result same
      cases same
      refine ⟨replica.congr rfl rfl, ?_⟩
      intro sqlite _
      exact (tidy sqlite).edit (follows sqlite _ _ allowed) rfl rfl rfl
    | truncates size =>
      intro outcome result same
      cases same
      refine ⟨replica.congr rfl rfl, ?_⟩
      intro sqlite _
      exact (tidy sqlite).edit (follows sqlite _ _ allowed) rfl rfl rfl
    | indexes index =>
      intro outcome result same
      cases same
      refine ⟨replica.congr rfl rfl, ?_⟩
      intro sqlite _
      have tidy := tidy sqlite
      rcases follows sqlite _ _ allowed with writing | ⟨info, infoCopy⟩
      · exact tidy.edit writing rfl rfl rfl
      · refine ⟨tidy.counted, tidy.marked, fun quiet => (tidy.quiet quiet).congr rfl info infoCopy rfl, ?_⟩
        intro unlocked
        rcases tidy.rested unlocked with clean | behind
        · exact .inl (clean.congr rfl info infoCopy rfl)
        · exact .inr behind

section
variable {ι : Type} {target : Target} {via : DbServer} {rules : Rules}

private theorem following_initial (disciplined : Prop) :
    (following disciplined).Holds (answers via) (World.initial (ι := ι)) := by
  refine ⟨.new, ?_⟩
  intro i outcome client impossible
  cases impossible

theorem replica_of_holds {disciplined : Prop} {world : World ι}
    (holds : (following disciplined).Holds (answers via) world) {i : ι} {client : DbClient}
    (present : world.client i = some client) : Replica client world.shared := by
  cases program : world.threads i with
  | done value =>
    rw [World.client, program] at present
    obtain ⟨⟨outcome, finished⟩, rfl, rfl⟩ := Option.map_eq_some_iff.mp present
    exact (holds.post program outcome finished rfl).1
  | call sent next =>
    rw [World.client, program] at present
    exact ((holds.waits program).replica client present).2

variable [DecidableEq ι]

theorem World.Reachable.follows {world : World ι} (reachable : World.Reachable target via rules world)
    (disciplined : Prop) (follows : disciplined → rules.Disciplined) :
    (following disciplined).Holds (answers via) world :=
  (following_initial disciplined).run following_stable (following_starts follows) reachable

end

end Pos2.Repl
