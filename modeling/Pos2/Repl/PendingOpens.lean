import Pos2.Calls.Rely
import Pos2.Repl.Server
import Pos2.Text

/-! How `replvfs/mod.rs` finds the client of a log that SQLite opens: the shared lock
on a database leaves it under the thread that took the lock, in a table of the VFS and
in the client itself, each behind a mutex of its own. -/

namespace Pos2.Repl
open Calls

inductive LockLevel where
  | unlocked
  | shared
  | reserved
  | pending
  | exclusive
  deriving DecidableEq

inductive OpenKind where
  | mainDb
  | wal
  | other
  deriving DecidableEq

/-- A `FileHandle`; those of databases and logs share their client. -/
inductive VfsHandle (κ : Type) where
  | memFile
  | dbFile (client : κ)
  | walFile (client : κ)

/-- The two tables, and who holds the mutex of which. -/
structure PendingOpens (τ κ : Type) where
  pendingOpens : τ → Option κ
  pendingOpen : κ → Option τ
  mapGuard : Option τ
  dbGuard : κ → Option τ

inductive VfsRequest (τ κ : Type) where
  | lockMap (id : τ)
  | unlockMap
  | lockData (id : τ) (client : κ)
  | unlockData (client : κ)
  | pendingOpen (client : κ)
  | setPendingOpen (client : κ) (pending : Option τ)
  | containsKey (id : τ)
  | insert (id : τ) (client : κ)
  | remove (id : τ)
  | connect

abbrev VfsRequest.Reply {τ κ : Type} : VfsRequest τ κ → Type
  | .pendingOpen _ => Option τ
  | .containsKey _ => Bool
  | .remove _ => Option κ
  | .connect => Res κ
  | _ => Unit

abbrev VfsCalls (τ κ : Type) : Interface := ⟨VfsRequest τ κ, VfsRequest.Reply⟩

section
variable {τ κ : Type}

def vfs (request : VfsRequest τ κ) : Program (VfsCalls τ κ) request.Reply := @Program.request (VfsCalls τ κ) request

/-- Databases reject exclusive locks; the other locks keep nothing. -/
def VfsHandle.lock : VfsHandle κ → LockLevel → Res Unit
  | .dbFile _, .exclusive => .err .busy
  | _, _ => .ok ()

namespace ReplVfs

/-- A panic gives the guards back on its way out. -/
def lock (id : τ) (handle : VfsHandle κ) (level : LockLevel) : Program (VfsCalls τ κ) (Res Unit) :=
  match level, handle with
  | .shared, .dbFile client => do
    vfs (.lockMap id)
    vfs (.lockData id client)
    if (← vfs (.pendingOpen client)).isSome then
      vfs (.unlockData client)
      vfs .unlockMap
      return .panic
    if ← vfs (.containsKey id) then
      vfs (.unlockData client)
      vfs .unlockMap
      return .panic
    vfs (.setPendingOpen client (some id))
    vfs (.insert id client)
    vfs (.unlockData client)
    vfs .unlockMap
    return handle.lock level
  | _, _ => return handle.lock level

def openWal (id : τ) (path : Text) : Program (VfsCalls τ κ) (Res (VfsHandle κ)) :=
  match path.stripSuffix "-wal".toList with
  | none => return .err .bad
  | some _ => do
    vfs (.lockMap id)
    match ← vfs (.remove id) with
    | none =>
      vfs .unlockMap
      return .panic
    | some client =>
      vfs (.lockData id client)
      vfs (.setPendingOpen client none)
      vfs (.unlockData client)
      vfs .unlockMap
      return .ok (.walFile client)

/-- Opening a database makes a client of its own. -/
def open_ (id : τ) (path : Option Text) (kind : OpenKind) : Program (VfsCalls τ κ) (Res (VfsHandle κ)) :=
  match kind, path with
  | .mainDb, some _ => do
    match ← vfs .connect with
    | .ok client => return .ok (.dbFile client)
    | .err error => return .err error
    | .panic => return .panic
  | .wal, some path => openWal id path
  | _, _ => return .ok .memFile

def close (id : τ) (handle : VfsHandle κ) : Program (VfsCalls τ κ) (Res Unit) :=
  match handle with
  | .memFile | .walFile _ => return .ok ()
  | .dbFile client => do
    vfs (.lockData id client)
    if (← vfs (.pendingOpen client)).isSome then
      vfs (.unlockData client)
      return .panic
    vfs (.unlockData client)
    return .ok ()

end ReplVfs

/-- A call that has ended, with what it returned. -/
inductive VfsEnded (τ κ : Type) where
  | idle
  | lock (handle : VfsHandle κ) (level : LockLevel) (result : Res Unit)
  | opened (path : Option Text) (kind : OpenKind) (result : Res (VfsHandle κ))
  | close (handle : VfsHandle κ) (result : Res Unit)

/-- A call that a thread may make next. -/
inductive VfsCall (id : τ) : Program (VfsCalls τ κ) (VfsEnded τ κ) → Prop where
  | lock (handle : VfsHandle κ) (level : LockLevel) :
      VfsCall id ((ReplVfs.lock id handle level).bind fun result => .done (.lock handle level result))
  | open_ (path : Option Text) (kind : OpenKind) :
      VfsCall id ((ReplVfs.open_ id path kind).bind fun result => .done (.opened path kind result))
  | close (handle : VfsHandle κ) :
      VfsCall id ((ReplVfs.close id handle).bind fun result => .done (.close handle result))

variable [DecidableEq τ] [DecidableEq κ]

def answersVfs : Handler (VfsCalls τ κ) (PendingOpens τ κ)
  | .lockMap id, before, _, after => before.mapGuard = none ∧ after = { before with mapGuard := some id }
  | .unlockMap, before, _, after => after = { before with mapGuard := none }
  | .lockData id client, before, _, after =>
    before.dbGuard client = none ∧ after = { before with dbGuard := Function.update before.dbGuard client (some id) }
  | .unlockData client, before, _, after =>
    after = { before with dbGuard := Function.update before.dbGuard client none }
  | .pendingOpen client, before, pending, after => pending = before.pendingOpen client ∧ after = before
  | .setPendingOpen client pending, before, _, after =>
    after = { before with pendingOpen := Function.update before.pendingOpen client pending }
  | .containsKey id, before, found, after => found = (before.pendingOpens id).isSome ∧ after = before
  | .insert id client, before, _, after =>
    after = { before with pendingOpens := Function.update before.pendingOpens id (some client) }
  | .remove id, before, removed, after =>
    removed = before.pendingOpens id ∧ after = { before with pendingOpens := Function.update before.pendingOpens id none }
  | .connect, before, _, after => after = before

abbrev VfsWorld (τ κ : Type) := Pool (VfsCalls τ κ) (PendingOpens τ κ) τ (VfsEnded τ κ)

def VfsWorld.initial : VfsWorld τ κ := ⟨⟨fun _ => none, fun _ => none, none, fun _ => none⟩, fun _ => .done .idle⟩

/-- Threads call the VFS in any order. The calls that have ended so far, the last one first. -/
inductive VfsRuns : VfsWorld τ κ → List (τ × VfsEnded τ κ) → Prop where
  | start : VfsRuns .initial []
  | goes {before after log id request next} (earlier : VfsRuns before log)
      (step : Pool.Step answersVfs (fun id _ => VfsCall id) id before after)
      (unfinished : after.threads id = .call request next) : VfsRuns after log
  | ends {before after log id ended} (earlier : VfsRuns before log)
      (step : Pool.Step answersVfs (fun id _ => VfsCall id) id before after)
      (finished : after.threads id = .done ended) : VfsRuns after ((id, ended) :: log)

/-! ### What a thread finds left by the others -/

/-- A thread in the table is pending in its client; and the other way round, but for the
thread that has the table to itself. -/
structure Consistent (state : PendingOpens τ κ) : Prop where
  filed : ∀ id client, state.pendingOpens id = some client → state.pendingOpen client = some id
  known : ∀ id client, state.mapGuard ≠ some id → state.pendingOpen client = some id →
    state.pendingOpens id = some client

/-- What the others leave to a thread. -/
structure Relied (id : τ) (before after : PendingOpens τ κ) : Prop where
  consistent : Consistent after
  table : after.pendingOpens id = before.pendingOpens id
  pending : ∀ client, after.pendingOpen client = some id ↔ before.pendingOpen client = some id
  map : before.mapGuard = some id → after.mapGuard = some id
  data : ∀ client, before.dbGuard client = some id →
    after.dbGuard client = some id ∧ after.pendingOpen client = before.pendingOpen client

/-- The thread holds the table; it is under `filed` there, and pending in `pending`. -/
structure Holding (id : τ) (filed pending : Option κ) (state : PendingOpens τ κ) : Prop where
  consistent : Consistent state
  map : state.mapGuard = some id
  table : state.pendingOpens id = filed
  pending : ∀ client, state.pendingOpen client = some id ↔ pending = some client

/-- The thread holds a client. -/
structure Guarding (id : τ) (client : κ) (pending : Option τ) (state : PendingOpens τ κ) : Prop where
  guard : state.dbGuard client = some id
  pending : state.pendingOpen client = pending

/-- The thread is in no call. -/
structure Filed (id : τ) (filed : Option κ) (state : PendingOpens τ κ) : Prop where
  consistent : Consistent state
  table : state.pendingOpens id = filed

/-- What a thread leaves to the others. -/
structure Spares (id : τ) (before after : PendingOpens τ κ) : Prop where
  consistent : Consistent after
  others : ∀ other, other ≠ id → Relied other before after

omit [DecidableEq τ] [DecidableEq κ] in
theorem Relied.refl {id : τ} {state : PendingOpens τ κ} (consistent : Consistent state) : Relied id state state :=
  ⟨consistent, rfl, fun _ => Iff.rfl, fun held => held, fun _ held => ⟨held, rfl⟩⟩

omit [DecidableEq τ] [DecidableEq κ] in
theorem Spares.refl {id : τ} {state : PendingOpens τ κ} (consistent : Consistent state) : Spares id state state :=
  ⟨consistent, fun _ _ => .refl consistent⟩

omit [DecidableEq τ] [DecidableEq κ] in
theorem Relied.trans {id : τ} {first middle last : PendingOpens τ κ} (one : Relied id first middle)
    (two : Relied id middle last) : Relied id first last where
  consistent := two.consistent
  table := two.table.trans one.table
  pending := fun client => (two.pending client).trans (one.pending client)
  map := fun held => two.map (one.map held)
  data := fun client held => by
    obtain ⟨held, same⟩ := one.data client held
    obtain ⟨held, later⟩ := two.data client held
    exact ⟨held, later.trans same⟩

section
variable {id : τ} {filed pending : Option κ} {before after : PendingOpens τ κ}

omit [DecidableEq τ] [DecidableEq κ] in
private theorem Holding.relied (holding : Holding id filed pending before) (relied : Relied id before after) :
    Holding id filed pending after :=
  ⟨relied.consistent, relied.map holding.map, relied.table.trans holding.table,
    fun client => (relied.pending client).trans (holding.pending client)⟩

omit [DecidableEq τ] [DecidableEq κ] in
private theorem Guarding.relied {client : κ} {pending : Option τ} (guarding : Guarding id client pending before)
    (relied : Relied id before after) : Guarding id client pending after := by
  obtain ⟨held, same⟩ := relied.data client guarding.guard
  exact ⟨held, same.trans guarding.pending⟩

omit [DecidableEq τ] [DecidableEq κ] in
private theorem Filed.relied (at_ : Filed id filed before) (relied : Relied id before after) : Filed id filed after :=
  ⟨relied.consistent, relied.table.trans at_.table⟩

/-! ### What each request does, to its thread and to the others -/

theorem lockMap_does (at_ : Filed id filed before) (served : answersVfs (.lockMap id) before () after) :
    Spares id before after ∧ Holding id filed filed after := by
  obtain ⟨free, rfl⟩ := served
  have pending (client : κ) : before.pendingOpen client = some id ↔ filed = some client := by
    rw [← at_.table]
    exact ⟨at_.consistent.known id client (by simp [free]), at_.consistent.filed id client⟩
  have consistent : Consistent { before with mapGuard := some id } :=
    ⟨at_.consistent.filed, fun other client _ => at_.consistent.known other client (by simp [free])⟩
  refine ⟨⟨consistent, fun other apart => ?_⟩, consistent, rfl, at_.table, pending⟩
  exact ⟨consistent, rfl, fun _ => Iff.rfl, fun held => by simp [free] at held, fun _ held => ⟨held, rfl⟩⟩

private theorem unlockMap_does (holding : Holding id filed filed before)
    (served : answersVfs .unlockMap before () after) :
    Spares id before after ∧ Filed id filed after := by
  cases served
  have consistent : Consistent { before with mapGuard := none } := by
    refine ⟨holding.consistent.filed, fun other client _ waits => ?_⟩
    by_cases own : other = id
    · subst own
      exact holding.table.trans ((holding.pending client).mp waits)
    · exact holding.consistent.known other client (by simp [holding.map, Ne.symm own]) waits
  refine ⟨⟨consistent, fun other apart => ?_⟩, consistent, holding.table⟩
  exact ⟨consistent, rfl, fun _ => Iff.rfl, fun held => (apart (Option.some.inj (held.symm.trans holding.map))).elim,
    fun _ held => ⟨held, rfl⟩⟩

private theorem lockData_does {client : κ} (consistent : Consistent before)
    (served : answersVfs (.lockData id client) before () after) :
    Spares id before after ∧ Guarding id client (before.pendingOpen client) after ∧
      after = { before with dbGuard := Function.update before.dbGuard client (some id) } := by
  obtain ⟨free, rfl⟩ := served
  refine ⟨⟨⟨consistent.filed, consistent.known⟩, fun other apart => ?_⟩, ⟨Function.update_self _ _ _, rfl⟩, rfl⟩
  refine ⟨⟨consistent.filed, consistent.known⟩, rfl, fun _ => Iff.rfl, fun held => held, fun guarded held => ⟨?_, rfl⟩⟩
  by_cases same : guarded = client
  · simp [same, free] at held
  · simpa [same] using held

private theorem unlockData_does {client : κ} {pending : Option τ} (consistent : Consistent before)
    (guarding : Guarding id client pending before) (served : answersVfs (.unlockData client) before () after) :
    Spares id before after ∧
      after = { before with dbGuard := Function.update before.dbGuard client none } := by
  cases served
  refine ⟨⟨⟨consistent.filed, consistent.known⟩, fun other apart => ?_⟩, rfl⟩
  refine ⟨⟨consistent.filed, consistent.known⟩, rfl, fun _ => Iff.rfl, fun held => held, fun guarded held => ⟨?_, rfl⟩⟩
  by_cases same : guarded = client
  · subst same
    exact (apart (Option.some.inj (held.symm.trans guarding.guard))).elim
  · simpa [same] using held

/-- The shared lock leaves its thread in the client. -/
theorem setPendingOpen_does {client : κ} (holding : Holding id none none before) (guarding : Guarding id client none before)
    (served : answersVfs (.setPendingOpen client (some id)) before () after) :
    Spares id before after ∧ Holding id none (some client) after ∧
      Guarding id client (some id) after := by
  cases served
  have consistent : Consistent { before with pendingOpen := Function.update before.pendingOpen client (some id) } := by
    refine ⟨fun other client' found => ?_, fun other client' unheld waits => ?_⟩
    · have waits := holding.consistent.filed other client' found
      have apart : client' ≠ client := by
        rintro rfl
        rw [guarding.pending] at waits
        cases waits
      simpa [apart] using waits
    · by_cases same : client' = client
      · simp only [same, Function.update_self, Option.some.injEq] at waits
        exact (unheld (waits ▸ holding.map)).elim
      · exact holding.consistent.known other client' unheld (by simpa [same] using waits)
  refine ⟨⟨consistent, fun other apart => ⟨consistent, rfl, fun client' => ?_, fun held => held, fun guarded held => ⟨held, ?_⟩⟩⟩,
    ⟨consistent, holding.map, holding.table, fun client' => ?_⟩, guarding.guard, Function.update_self _ _ _⟩
  · by_cases same : client' = client
    · simp [same, guarding.pending, Ne.symm apart]
    · simp [same]
  · by_cases same : guarded = client
    · subst same
      exact (apart (Option.some.inj (held.symm.trans guarding.guard))).elim
    · simp [same]
  · by_cases same : client' = client
    · simp [same]
    · have unheld := holding.pending client'
      simp only [same, Function.update_of_ne, ne_eq, not_false_eq_true, Option.some.injEq, Ne.symm same, iff_false]
      simpa using unheld

private theorem insert_does {client : κ} (holding : Holding id none (some client) before)
    (served : answersVfs (.insert id client) before () after) :
    Spares id before after ∧ Holding id (some client) (some client) after ∧
      after = { before with pendingOpens := Function.update before.pendingOpens id (some client) } := by
  cases served
  have consistent : Consistent { before with pendingOpens := Function.update before.pendingOpens id (some client) } := by
    refine ⟨fun other client' found => ?_, fun other client' unheld waits => ?_⟩
    · by_cases own : other = id
      · subst own
        simp only [Function.update_self, Option.some.injEq] at found
        exact (holding.pending client').mpr (congrArg some found)
      · exact holding.consistent.filed other client' (by simpa [own] using found)
    · have own : other ≠ id := fun same => unheld (same ▸ holding.map)
      simpa [own] using holding.consistent.known other client' unheld waits
  refine ⟨⟨consistent, fun other apart => ⟨consistent, ?_, fun _ => Iff.rfl, fun held => held, fun _ held => ⟨held, rfl⟩⟩⟩,
    ⟨consistent, holding.map, Function.update_self _ _ _, holding.pending⟩, rfl⟩
  simp [apart]

private theorem remove_does {removed : Option κ} (holding : Holding id filed filed before)
    (served : answersVfs (.remove id) before removed after) :
    Spares id before after ∧ removed = filed ∧ Holding id none filed after := by
  obtain ⟨rfl, rfl⟩ := served
  have consistent : Consistent { before with pendingOpens := Function.update before.pendingOpens id none } := by
    refine ⟨fun other client found => ?_, fun other client unheld waits => ?_⟩
    · by_cases own : other = id
      · simp [own] at found
      · exact holding.consistent.filed other client (by simpa [own] using found)
    · have own : other ≠ id := fun same => unheld (same ▸ holding.map)
      simpa [own] using holding.consistent.known other client unheld waits
  refine ⟨⟨consistent, fun other apart => ⟨consistent, ?_, fun _ => Iff.rfl, fun held => held, fun _ held => ⟨held, rfl⟩⟩⟩,
    holding.table, consistent, holding.map, Function.update_self _ _ _, holding.pending⟩
  simp [apart]

/-- Opening the log takes its thread out of the client. -/
theorem clearPendingOpen_does {client : κ} {pending : Option τ} (holding : Holding id none (some client) before)
    (guarding : Guarding id client pending before) (served : answersVfs (.setPendingOpen client none) before () after) :
    Spares id before after ∧ Holding id none none after ∧ Guarding id client none after := by
  cases served
  have own : before.pendingOpen client = some id := (holding.pending client).mpr rfl
  have consistent : Consistent { before with pendingOpen := Function.update before.pendingOpen client none } := by
    refine ⟨fun other client' found => ?_, fun other client' unheld waits => ?_⟩
    · have waits := holding.consistent.filed other client' found
      have apart : client' ≠ client := by
        rintro rfl
        have same : other = id := Option.some.inj (waits.symm.trans own)
        subst same
        rw [holding.table] at found
        cases found
      simpa [apart] using waits
    · by_cases same : client' = client
      · simp [same] at waits
      · exact holding.consistent.known other client' unheld (by simpa [same] using waits)
  refine ⟨⟨consistent, fun other apart => ⟨consistent, rfl, fun client' => ?_, fun held => held, fun guarded held => ⟨held, ?_⟩⟩⟩,
    ⟨consistent, holding.map, holding.table, fun client' => ?_⟩, guarding.guard, Function.update_self _ _ _⟩
  · by_cases same : client' = client
    · simp [same, own, Ne.symm apart]
    · simp [same]
  · by_cases same : guarded = client
    · subst same
      exact (apart (Option.some.inj (held.symm.trans guarding.guard))).elim
    · simp [same]
  · by_cases same : client' = client
    · simp [same]
    · have waits := holding.pending client'
      simp [same, waits, Ne.symm same]

end

/-! ### What a whole call does -/

inductive VfsEvent (κ : Type) where
  | locked (client : κ)
  | opened (client : κ)

/-- The shared locks on databases that were granted, and the logs that were opened. -/
def VfsEnded.event : VfsEnded τ κ → Option (VfsEvent κ)
  | .lock (.dbFile client) .shared (.ok ()) => some (.locked client)
  | .opened _ _ (.ok (.walFile client)) => some (.opened client)
  | _ => none

/-- What a thread has in the table once its call has ended. -/
def VfsEvent.files (filed : Option κ) : Option (VfsEvent κ) → Option κ
  | none => filed
  | some (.locked client) => some client
  | some (.opened _) => none

/-- A lock finds nothing in the table, and an opened log is of the client it found there. -/
def VfsEvent.Finds (filed : Option κ) : Option (VfsEvent κ) → Prop
  | none => True
  | some (.locked _) => filed = none
  | some (.opened client) => filed = some client

structure Returned (id : τ) (filed : Option κ) (ended : VfsEnded τ κ) (state : PendingOpens τ κ) : Prop where
  finds : VfsEvent.Finds filed ended.event
  leaves : Filed id (VfsEvent.files filed ended.event) state

abbrev Cooperates {α : Type} (id : τ) (post : α → PendingOpens τ κ → Prop) (program : Program (VfsCalls τ κ) α)
    (state : PendingOpens τ κ) : Prop :=
  program.Follows answersVfs (Relied id) (fun _ => Spares id) post state

section
variable {id : τ} {filed : Option κ} {state : PendingOpens τ κ}

theorem Cooperates.done {ended : VfsEnded τ κ} (finds : VfsEvent.Finds filed ended.event)
    (leaves : Filed id (VfsEvent.files filed ended.event) state) :
    Cooperates id (Returned id filed) (.done ended) state :=
  fun _ moves => ⟨finds, leaves.relied moves⟩

/-- The end of every call that had the table. -/
theorem unlocks_cooperates {client : κ} {pending : Option τ} {held : Option κ} {ended : VfsEnded τ κ}
    (holding : Holding id held held state) (guarding : Guarding id client pending state)
    (finds : VfsEvent.Finds filed ended.event) (leaves : VfsEvent.files filed ended.event = held) :
    Cooperates id (Returned id filed)
      (.call (.unlockData client) fun _ => .call .unlockMap fun _ => .done ended) state := by
  intro before _ after moves served
  have holding := holding.relied moves
  obtain ⟨others, rfl⟩ := unlockData_does holding.consistent (guarding.relied moves) served
  refine ⟨others, ?_⟩
  have holding : Holding id held held { before with dbGuard := Function.update before.dbGuard client none } :=
    ⟨⟨holding.consistent.filed, holding.consistent.known⟩, holding.map, holding.table, holding.pending⟩
  intro before _ after moves served
  obtain ⟨others, rests⟩ := unlockMap_does (holding.relied moves) served
  exact ⟨others, Cooperates.done finds (leaves ▸ rests)⟩

private theorem lock_cooperates (at_ : Filed id filed state) (handle : VfsHandle κ) (level : LockLevel) :
    Cooperates id (Returned id filed)
      ((ReplVfs.lock id handle level).bind fun result => .done (.lock handle level result)) state := by
  cases handle with
  | memFile => cases level <;> exact Cooperates.done trivial at_
  | walFile client => cases level <;> exact Cooperates.done trivial at_
  | dbFile client =>
    cases level with
    | unlocked => exact Cooperates.done trivial at_
    | reserved => exact Cooperates.done trivial at_
    | pending => exact Cooperates.done trivial at_
    | exclusive => exact Cooperates.done trivial at_
    | shared =>
      intro before _ after moves served
      obtain ⟨others, holding⟩ := lockMap_does (at_.relied moves) served
      refine ⟨others, ?_⟩
      intro before _ after moves served
      have holding := holding.relied moves
      obtain ⟨others, guarding, rfl⟩ := lockData_does holding.consistent served
      have holding : Holding id filed filed { before with dbGuard := Function.update before.dbGuard client (some id) } :=
        ⟨⟨holding.consistent.filed, holding.consistent.known⟩, holding.map, holding.table, holding.pending⟩
      refine ⟨others, ?_⟩
      intro before pending after moves served
      have holding := holding.relied moves
      have guarding := guarding.relied moves
      obtain ⟨rfl, rfl⟩ := served
      refine ⟨.refl holding.consistent, ?_⟩
      have panics {pending : Option τ} {state : PendingOpens τ κ} (holding : Holding id filed filed state)
          (guarding : Guarding id client pending state) : Cooperates id (Returned id filed)
            (.call (.unlockData client) fun _ => .call .unlockMap fun _ =>
              .done (.lock (.dbFile client) .shared .panic)) state :=
        unlocks_cooperates holding guarding trivial rfl
      cases free : after.pendingOpen client with
      | some other => exact panics holding guarding
      | none =>
        have guarding : Guarding id client none after := ⟨guarding.guard, free⟩
        intro before found after moves served
        have holding := holding.relied moves
        have guarding := guarding.relied moves
        obtain ⟨rfl, rfl⟩ := served
        refine ⟨.refl holding.consistent, ?_⟩
        rw [holding.table]
        cases filed with
        | some other => exact panics holding guarding
        | none =>
          intro before _ after moves served
          obtain ⟨others, holding, guarding⟩ := setPendingOpen_does (holding.relied moves) (guarding.relied moves) served
          refine ⟨others, ?_⟩
          intro before _ after moves served
          have guarding := guarding.relied moves
          obtain ⟨others, holding, rfl⟩ := insert_does (holding.relied moves) served
          exact ⟨others, unlocks_cooperates holding ⟨guarding.guard, guarding.pending⟩ rfl rfl⟩

private theorem open_cooperates (at_ : Filed id filed state) (path : Option Text) (kind : OpenKind) :
    Cooperates id (Returned id filed)
      ((ReplVfs.open_ id path kind).bind fun result => .done (.opened path kind result)) state := by
  cases path with
  | none => cases kind <;> exact Cooperates.done trivial at_
  | some path =>
    cases kind with
    | other => exact Cooperates.done trivial at_
    | mainDb =>
      intro before reply after moves served
      cases served
      refine ⟨.refl moves.consistent, ?_⟩
      have at_ := at_.relied moves
      rcases reply with client | error | _
      · exact Cooperates.done trivial at_
      · exact Cooperates.done trivial at_
      · exact Cooperates.done trivial at_
    | wal =>
      simp only [ReplVfs.open_, ReplVfs.openWal]
      cases path.stripSuffix "-wal".toList with
      | none => exact Cooperates.done trivial at_
      | some name =>
        intro before _ after moves served
        obtain ⟨others, holding⟩ := lockMap_does (at_.relied moves) served
        refine ⟨others, ?_⟩
        intro before removed after moves served
        obtain ⟨others, rfl, holding⟩ := remove_does (holding.relied moves) served
        refine ⟨others, ?_⟩
        cases removed with
        | none =>
          intro before _ after moves served
          obtain ⟨others, rests⟩ := unlockMap_does (holding.relied moves) served
          exact ⟨others, Cooperates.done trivial rests⟩
        | some client =>
          intro before _ after moves served
          have holding := holding.relied moves
          obtain ⟨others, guarding, rfl⟩ := lockData_does holding.consistent served
          have holding : Holding id none (some client)
              { before with dbGuard := Function.update before.dbGuard client (some id) } :=
            ⟨⟨holding.consistent.filed, holding.consistent.known⟩, holding.map, holding.table, holding.pending⟩
          refine ⟨others, ?_⟩
          intro before _ after moves served
          obtain ⟨others, holding, guarding⟩ := clearPendingOpen_does (holding.relied moves) (guarding.relied moves) served
          exact ⟨others, unlocks_cooperates holding guarding rfl rfl⟩

private theorem close_cooperates (at_ : Filed id filed state) (handle : VfsHandle κ) :
    Cooperates id (Returned id filed)
      ((ReplVfs.close id handle).bind fun result => .done (.close handle result)) state := by
  cases handle with
  | memFile => exact Cooperates.done trivial at_
  | walFile client => exact Cooperates.done trivial at_
  | dbFile client =>
    intro before _ after moves served
    have at_ := at_.relied moves
    obtain ⟨others, guarding, rfl⟩ := lockData_does at_.consistent served
    have at_ : Filed id filed { before with dbGuard := Function.update before.dbGuard client (some id) } :=
      ⟨⟨at_.consistent.filed, at_.consistent.known⟩, at_.table⟩
    refine ⟨others, ?_⟩
    intro before pending after moves served
    have at_ := at_.relied moves
    have guarding := guarding.relied moves
    obtain ⟨rfl, rfl⟩ := served
    refine ⟨.refl at_.consistent, ?_⟩
    have leaves (result : Res Unit) : Cooperates id (Returned id filed)
        (.call (.unlockData client) fun _ => .done (.close (.dbFile client) result)) after := by
      intro before _ after moves served
      have at_ := at_.relied moves
      obtain ⟨others, rfl⟩ := unlockData_does at_.consistent (guarding.relied moves) served
      exact ⟨others, Cooperates.done trivial ⟨⟨at_.consistent.filed, at_.consistent.known⟩, at_.table⟩⟩
    cases after.pendingOpen client with
    | none => exact leaves (.ok ())
    | some other => exact leaves .panic

/-- Every call cooperates. -/
theorem call_cooperates {program : Program (VfsCalls τ κ) (VfsEnded τ κ)} (made : VfsCall id program)
    (at_ : Filed id filed state) : Cooperates id (Returned id filed) program state := by
  cases made with
  | lock handle level => exact lock_cooperates at_ handle level
  | open_ path kind => exact open_cooperates at_ path kind
  | close handle => exact close_cooperates at_ handle

end

/-! ### Every run -/

/-- The locks and the logs of one thread, the last one first. -/
def events (id : τ) (log : List (τ × VfsEnded τ κ)) : List (VfsEvent κ) :=
  log.filterMap fun call => if call.1 = id then call.2.event else none

/-- The client of the last lock, while no log was opened for it. -/
def unopened : List (VfsEvent κ) → Option κ
  | .locked client :: _ => some client
  | _ => none

/-- Every log is opened right after the lock on its database, with no other open in between. -/
def Paired (events : List (VfsEvent κ)) : Prop :=
  ∀ later client earlier, events = later ++ .opened client :: earlier → ∃ before, earlier = .locked client :: before

omit [DecidableEq τ] [DecidableEq κ] in
theorem Paired.cons {events : List (VfsEvent κ)} (paired : Paired events) {event : VfsEvent κ}
    (finds : VfsEvent.Finds (unopened events) (some event)) : Paired (event :: events) := by
  intro later client earlier split
  cases later with
  | nil =>
    obtain ⟨rfl, rfl⟩ := List.cons.inj split
    rcases events with _ | ⟨⟨before⟩ | ⟨before⟩, rest⟩
    · cases finds
    · cases finds
      exact ⟨rest, rfl⟩
    · cases finds
  | cons first later => exact paired later client earlier (List.cons.inj split).2

omit [DecidableEq κ] in
private theorem events_other {id other : τ} (apart : other ≠ id) (ended : VfsEnded τ κ)
    (log : List (τ × VfsEnded τ κ)) :
    events other ((id, ended) :: log) = events other log := by
  simp [events, Ne.symm apart]

/-- The events after one more call. -/
def VfsEvent.after (event : Option (VfsEvent κ)) (earlier : List (VfsEvent κ)) : List (VfsEvent κ) :=
  event.toList ++ earlier

omit [DecidableEq κ] in
private theorem events_own (id : τ) (ended : VfsEnded τ κ) (log : List (τ × VfsEnded τ κ)) :
    events id ((id, ended) :: log) = VfsEvent.after ended.event (events id log) := by
  cases happened : ended.event <;> simp [events, VfsEvent.after, happened]

omit [DecidableEq τ] [DecidableEq κ] in
private theorem unopened_after (event : Option (VfsEvent κ)) (earlier : List (VfsEvent κ)) :
    unopened (VfsEvent.after event earlier) = VfsEvent.files (unopened earlier) event := by
  rcases event with _ | ⟨_⟩ | ⟨_⟩ <;> rfl

omit [DecidableEq τ] [DecidableEq κ] in
theorem Paired.after {event : Option (VfsEvent κ)} {earlier : List (VfsEvent κ)} (paired : Paired earlier)
    (finds : VfsEvent.Finds (unopened earlier) event) : Paired (VfsEvent.after event earlier) := by
  cases event with
  | none => exact paired
  | some event => exact paired.cons finds

/-- A thread between two of its calls, or inside one. -/
def Tended (world : VfsWorld τ κ) (log : List (τ × VfsEnded τ κ)) (id : τ) : Prop :=
  match world.threads id with
  | .done _ => Filed id (unopened (events id log)) world.shared
  | .call request next => Cooperates id (Returned id (unopened (events id log))) (.call request next) world.shared

structure Tied (world : VfsWorld τ κ) (log : List (τ × VfsEnded τ κ)) : Prop where
  consistent : Consistent world.shared
  paired : ∀ id, Paired (events id log)
  tended : ∀ id, Tended world log id

omit [DecidableEq τ] [DecidableEq κ] in
theorem Consistent.initial : Consistent (VfsWorld.initial : VfsWorld τ κ).shared :=
  ⟨fun _ _ found => (nomatch found), fun _ _ _ waits => (nomatch waits)⟩

theorem Tied.initial : Tied (.initial : VfsWorld τ κ) [] where
  consistent := Consistent.initial
  paired := fun id later client earlier split => by cases later <;> cases split
  tended := fun id => ⟨Consistent.initial, rfl⟩

/-- What another thread did is nothing to this one. -/
theorem Tended.relied {before after : VfsWorld τ κ} {log log' : List (τ × VfsEnded τ κ)} {id : τ}
    (tended : Tended before log id) (relied : Relied id before.shared after.shared)
    (same : after.threads id = before.threads id) (unheard : events id log' = events id log) : Tended after log' id := by
  unfold Tended at *
  rw [same, unheard]
  cases doing : before.threads id with
  | done value =>
    rw [doing] at tended
    exact tended.relied relied
  | call request next =>
    rw [doing] at tended
    exact tended.mono (fun one two => one.trans two) relied

/-- What a step leaves to the others, and how far its own thread is after it. -/
theorem Tied.step {before after : VfsWorld τ κ} {log : List (τ × VfsEnded τ κ)} {id : τ} (tied : Tied before log)
    (step : Pool.Step answersVfs (fun id _ => VfsCall id) id before after) :
    Spares id before.shared after.shared ∧
      Cooperates id (Returned id (unopened (events id log))) (after.threads id) after.shared := by
  have tended := tied.tended id
  unfold Tended at tended
  cases step with
  | call reply shared waiting served =>
    rw [waiting] at tended
    obtain ⟨others, rest⟩ := tended before.shared reply shared (.refl tied.consistent) served
    exact ⟨others, by simpa using rest⟩
  | start program idle started =>
    rw [idle] at tended
    exact ⟨.refl tied.consistent, by simpa using call_cooperates started tended⟩

theorem Tied.goes {before after : VfsWorld τ κ} {log : List (τ × VfsEnded τ κ)} {id : τ} {request next}
    (tied : Tied before log) (step : Pool.Step answersVfs (fun id _ => VfsCall id) id before after)
    (unfinished : after.threads id = .call request next) : Tied after log := by
  obtain ⟨⟨consistent, others⟩, own⟩ := tied.step step
  refine ⟨consistent, tied.paired, fun other => ?_⟩
  by_cases same : other = id
  · subst same
    unfold Tended
    rw [unfinished] at own ⊢
    exact own
  · exact (tied.tended other).relied (others other same) (step.others same) rfl

theorem Tied.ends {before after : VfsWorld τ κ} {log : List (τ × VfsEnded τ κ)} {id : τ} {ended : VfsEnded τ κ}
    (tied : Tied before log) (step : Pool.Step answersVfs (fun id _ => VfsCall id) id before after)
    (finished : after.threads id = .done ended) :
    Tied after ((id, ended) :: log) := by
  obtain ⟨⟨consistent, others⟩, own⟩ := tied.step step
  rw [finished] at own
  obtain ⟨finds, leaves⟩ := own after.shared (.refl consistent)
  refine ⟨consistent, fun other => ?_, fun other => ?_⟩
  · by_cases same : other = id
    · subst same
      rw [events_own]
      exact (tied.paired other).after finds
    · rw [events_other same]
      exact tied.paired other
  · by_cases same : other = id
    · subst same
      unfold Tended
      rw [finished, events_own, unopened_after]
      exact leaves
    · exact (tied.tended other).relied (others other same) (step.others same) (events_other same ended log)

theorem VfsRuns.tied {world : VfsWorld τ κ} {log : List (τ × VfsEnded τ κ)} (runs : VfsRuns world log) :
    Tied world log := by
  induction runs with
  | start => exact .initial
  | goes _ step unfinished ih => exact ih.goes step unfinished
  | ends _ step finished ih => exact ih.ends step finished

/-- A thread is pending in a client exactly when the table has the client for it, but for the thread that has the
mutex of the table and is changing both. -/
theorem pendingOpens_paired {world : VfsWorld τ κ} {log : List (τ × VfsEnded τ κ)} (runs : VfsRuns world log) :
    (∀ id client, world.shared.mapGuard ≠ some id →
        (world.shared.pendingOpen client = some id ↔ world.shared.pendingOpens id = some client)) ∧
      ∀ id, Paired (events id log) :=
  ⟨fun id client unheld => ⟨runs.tied.consistent.known id client unheld, runs.tied.consistent.filed id client⟩,
    runs.tied.paired⟩

/-- A thread makes a call while the others rest. -/
theorem VfsRuns.alone {world : VfsWorld τ κ} {log : List (τ × VfsEnded τ κ)} {id : τ} {shared : PendingOpens τ κ}
    {value ended : VfsEnded τ κ} {program : Program (VfsCalls τ κ) (VfsEnded τ κ)} (runs : VfsRuns world log)
    (idle : world.threads id = .done value) (made : VfsCall id program)
    (ends : program.Ends answersVfs world.shared ended shared) :
    VfsRuns ⟨shared, Function.update world.threads id (.done ended)⟩ ((id, ended) :: log) := by
  have goesOn {program ended} {before shared : PendingOpens τ κ} (ends : program.Ends answersVfs before ended shared) :
      ∀ {request next}, program = .call request next →
        VfsRuns ⟨before, Function.update world.threads id program⟩ log →
        VfsRuns ⟨shared, Function.update world.threads id (.done ended)⟩ ((id, ended) :: log) := by
    induction ends with
    | done => exact fun same => nomatch same
    | @call request next before reply between value after served rest ih =>
      intro _ _ _ runs
      have step := @Pool.Step.call _ _ _ _ _ answersVfs (fun id _ => VfsCall id) id
        ⟨before, Function.update world.threads id (.call request next)⟩ request next reply between
        (Function.update_self _ _ _) served
      rw [Function.update_idem] at step
      cases going : next reply with
      | done last =>
        rw [going] at rest step
        cases rest
        exact runs.ends step (Function.update_self _ _ _)
      | call request' next' =>
        rw [going] at step
        exact ih going (going ▸ runs.goes step (Function.update_self _ _ _))
  have step := @Pool.Step.start _ _ _ _ _ answersVfs (fun id _ => VfsCall id) id world value program idle made
  cases program with
  | done last =>
    cases ends
    exact runs.ends step (Function.update_self _ _ _)
  | call request next => exact goesOn ends rfl (runs.goes step (Function.update_self _ _ _))

end

/-- One thread locks a database and opens its log. -/
theorem pendingOpens_paired_opened :
    ∃ (world : VfsWorld Nat Nat) (log : _), log.length = 2 ∧ events 0 log = [.opened 7, .locked 7] ∧
      (∀ id client, world.shared.mapGuard ≠ some id →
        (world.shared.pendingOpen client = some id ↔ world.shared.pendingOpens id = some client)) ∧
      ∀ id, Paired (events id log) := by
  have locks : ∃ shared, (ReplVfs.lock 0 (.dbFile 7) .shared).Ends answersVfs (VfsWorld.initial : VfsWorld Nat Nat).shared
      (.ok ()) shared ∧ shared.mapGuard = none ∧ shared.dbGuard 7 = none ∧ shared.pendingOpens 0 = some 7 :=
    ⟨_, .call (show answersVfs (.lockMap 0) _ () _ from ⟨rfl, rfl⟩)
      (.call (show answersVfs (.lockData 0 7) _ () _ from ⟨rfl, rfl⟩)
      (.call (show answersVfs (.pendingOpen 7) _ none _ from ⟨rfl, rfl⟩)
      (.call (show answersVfs (.containsKey 0) _ false _ from ⟨rfl, rfl⟩)
      (.call (show answersVfs (.setPendingOpen 7 (some 0)) _ () _ from rfl)
      (.call (show answersVfs (.insert 0 7) _ () _ from rfl)
      (.call (show answersVfs (.unlockData 7) _ () _ from rfl)
      (.call (show answersVfs .unlockMap _ () _ from rfl) (.done _ _)))))))), rfl, rfl, rfl⟩
  have opens (before : PendingOpens Nat Nat) (free : before.mapGuard = none) (idle : before.dbGuard 7 = none)
      (filed : before.pendingOpens 0 = some 7) : ∃ shared,
        (ReplVfs.open_ 0 (some "app.db-wal".toList) .wal).Ends answersVfs before (.ok (.walFile 7)) shared :=
    ⟨_, .call (show answersVfs (.lockMap 0) _ () _ from ⟨free, rfl⟩)
      (.call (show answersVfs (.remove 0) _ (some 7) _ from ⟨filed.symm, rfl⟩)
      (.call (show answersVfs (.lockData 0 7) _ () _ from ⟨idle, rfl⟩)
      (.call (show answersVfs (.setPendingOpen 7 none) _ () _ from rfl)
      (.call (show answersVfs (.unlockData 7) _ () _ from rfl)
      (.call (show answersVfs .unlockMap _ () _ from rfl) (.done _ _))))))⟩
  obtain ⟨between, locks, free, idle, filed⟩ := locks
  obtain ⟨last, opens⟩ := opens between free idle filed
  have locked := VfsRuns.start.alone rfl (.lock (.dbFile 7) .shared) (locks.bind (.done _ _))
  have opened := locked.alone (Function.update_self _ _ _) (.open_ (some "app.db-wal".toList) .wal)
    (opens.bind (.done _ _))
  exact ⟨_, _, rfl, rfl, pendingOpens_paired opened⟩

end Pos2.Repl
