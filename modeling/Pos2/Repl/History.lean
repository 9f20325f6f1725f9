import Pos2.Repl.Reset

/-! The server as a history. What it stores is the replay of the transactions it
accepted, numbered from 1; every client holds the replay of a prefix of them. -/

namespace Pos2.Repl
open Calls

/-- The database after a list of transactions. -/
def applyAll (txs : List Transaction) (dbData : Bytes) : Bytes :=
  txs.foldl (fun dbData tx => (applyTx dbData tx).2) dbData

def replay (history : List Transaction) : Bytes := applyAll history makeInitialDb

@[simp] theorem applyAll_nil (dbData : Bytes) : applyAll [] dbData = dbData := rfl

@[simp] theorem applyAll_cons (tx : Transaction) (rest : List Transaction) (dbData : Bytes) :
    applyAll (tx :: rest) dbData = applyAll rest (applyTx dbData tx).2 := rfl

@[simp] theorem applyAll_append (first rest : List Transaction) (dbData : Bytes) :
    applyAll (first ++ rest) dbData = applyAll rest (applyAll first dbData) := List.foldl_append

private theorem replay_take_drop (history : List Transaction) (version : Nat) :
    applyAll (history.drop version) (replay (history.take version)) = replay history := by
  rw [replay, ← applyAll_append, List.take_append_drop]
  rfl

/-- A database reached by transactions that apply has its page count in a `u32`. -/
theorem replay_pages {history : List Transaction} (applies : ∀ tx ∈ history, tx.Applies) :
    (replay history).length / PAGESIZE < 2 ^ 32 := by
  rcases history.eq_nil_or_concat with rfl | ⟨earlier, last, rfl⟩
  · simp only [replay, applyAll_nil, makeInitialDb_length]
    decide
  · have size := (applies last (by simp)).size (replay earlier)
    have bound := last.dbSizeAfter.toNat_lt
    have same : replay (earlier.concat last) = (applyTx (replay earlier) last).2 := by
      rw [replay, List.concat_eq_append, applyAll_append]
      rfl
    rw [same]
    exact lt_of_le_of_lt (Nat.div_le_of_le_mul size) bound

namespace TestDbServer

/-- The server that accepted exactly these transactions. -/
def ofHistory (history : List Transaction) : TestDbServer :=
  ⟨replay history, history.length, history.zipIdx 1⟩

/-- The transactions accepted so far. -/
def accepted (server : TestDbServer) : List Transaction := server.changes.map Prod.fst

private theorem ofHistory_changes_after (history : List Transaction) (version : Nat) :
    (ofHistory history).changes.filter (fun change => change.2 > version) =
      (history.drop version).zipIdx (version + 1) := by
  have early : ((history.take version).zipIdx 1).filter (fun change => change.2 > version) = [] := by
    rw [List.filter_eq_nil_iff]
    intro change member
    have bound := List.snd_lt_add_of_mem_zipIdx member
    have short : (history.take version).length ≤ version := List.length_take_le _ _
    simp only [gt_iff_lt, decide_eq_true_eq]
    omega
  have late : ((history.drop version).zipIdx (version + 1)).filter (fun change => change.2 > version) =
      (history.drop version).zipIdx (version + 1) := by
    rw [List.filter_eq_self]
    intro change member
    have bound := List.le_snd_of_mem_zipIdx member
    simp only [gt_iff_lt, decide_eq_true_eq]
    omega
  have split : (ofHistory history).changes =
      (history.take version).zipIdx 1 ++ (history.drop version).zipIdx (version + 1) := by
    rcases Nat.le_total version history.length with inside | beyond
    · have parts : (history.take version ++ history.drop version).zipIdx 1 = _ := List.zipIdx_append
      rw [List.take_append_drop, List.length_take_of_le inside, Nat.add_comm 1] at parts
      exact parts
    · rw [List.take_of_length_le beyond, List.drop_of_length_le beyond]
      simp [ofHistory]
  rw [split, List.filter_append, early, late, List.nil_append]

end TestDbServer

/-- A catch-up brings a client over a whole batch of consecutive versions. -/
theorem applyChanges_batch {batch : List Transaction} (applies : ∀ tx ∈ batch, tx.Applies)
    (client : DbClient) :
    DbClient.applyChanges (batch.zipIdx (client.serverVersion + 1)) client =
      (.ok (), { client with
        dbData := applyAll batch client.dbData, serverVersion := client.serverVersion + batch.length }) := by
  induction batch generalizing client with
  | nil => rfl
  | cons tx rest ih =>
    have first := (applies tx (by simp)).apply client.dbData
    have later := ih (fun tx member => applies tx (by simp [member]))
      { client with dbData := (applyTx client.dbData tx).2, serverVersion := client.serverVersion + 1 }
    rw [List.zipIdx_cons, DbClient.applyChanges, first]
    simp only [later, applyAll_cons, List.length_cons]
    rw [Nat.add_assoc, Nat.add_comm 1]

/-- The client holds the replay of the first `serverVersion` accepted transactions. -/
structure Replica (client : DbClient) (server : TestDbServer) : Prop where
  behind : client.serverVersion ≤ server.accepted.length
  data : client.dbData = replay (server.accepted.take client.serverVersion)

theorem Replica.congr {first second : DbClient} {server : TestDbServer} (replica : Replica first server)
    (version : second.serverVersion = first.serverVersion) (data : second.dbData = first.dbData) :
    Replica second server := by
  refine ⟨?_, ?_⟩
  · rw [version]
    exact replica.behind
  · rw [version, data]
    exact replica.data

/-- The server is what its accepted transactions make it, and they all apply. -/
structure Historic (server : TestDbServer) : Prop where
  made : server = .ofHistory server.accepted
  applies : ∀ tx ∈ server.accepted, tx.Applies

namespace Historic

theorem new : Historic .new := ⟨rfl, fun _ member => by cases member⟩

variable {server : TestDbServer} (historic : Historic server)
include historic

theorem snapshot : server.latestSnapshot = replay server.accepted := congrArg TestDbServer.latestSnapshot historic.made

theorem latest : server.latestSnapshotVersion = server.accepted.length :=
  congrArg TestDbServer.latestSnapshotVersion historic.made

theorem versions : server.changes.map Prod.snd = List.range' 1 server.changes.length := by
  have numbered : server.changes = server.accepted.zipIdx 1 := congrArg TestDbServer.changes historic.made
  have count : server.accepted.length = server.changes.length := List.length_map _
  have second := List.zipIdx_map_snd 1 server.accepted
  rw [← numbered, count] at second
  exact second

/-- An accepted transaction extends the history by itself. -/
theorem accept {tx : Transaction} (applies : tx.Applies) : Historic (server.accept tx) := by
  have numbered : server.changes = server.accepted.zipIdx 1 := congrArg TestDbServer.changes historic.made
  have log : (server.accept tx).accepted = server.accepted ++ [tx] := by
    simp [TestDbServer.accepted, TestDbServer.accept]
  refine ⟨?_, ?_⟩
  · rw [log, TestDbServer.ofHistory, TestDbServer.accept, List.zipIdx_append, ← numbered, historic.latest,
      historic.snapshot]
    simp [replay, Nat.add_comm]
  · rw [log]
    intro other member
    rcases List.mem_append.mp member with old | new
    · exact historic.applies other old
    · rw [List.mem_singleton.mp new]
      exact applies

/-- A client at the latest snapshot is a replica. -/
theorem replica {client : DbClient} (version : client.serverVersion = server.latestSnapshotVersion)
    (data : client.dbData = server.latestSnapshot) : Replica client server := by
  rw [historic.latest] at version
  refine ⟨Nat.le_of_eq version, ?_⟩
  rw [data, version, List.take_length, historic.snapshot]

/-- A replica at the latest version holds the latest snapshot. -/
theorem replica_latest {client : DbClient} (replica : Replica client server)
    (version : client.serverVersion = server.latestSnapshotVersion) :
    client.dbData = server.latestSnapshot := by
  rw [replica.data, version, historic.latest, List.take_length, historic.snapshot]

/-- What `get_changes_after` brings to a replica: the rest of the history. -/
theorem catchUp {client : DbClient} (replica : Replica client server) :
    DbClient.applyChanges (server.changes.filter fun change => change.2 > client.serverVersion) client =
      (.ok (), { client with
        dbData := server.latestSnapshot, serverVersion := server.latestSnapshotVersion }) := by
  have batch := TestDbServer.ofHistory_changes_after server.accepted client.serverVersion
  rw [← historic.made] at batch
  have later : ∀ tx ∈ server.accepted.drop client.serverVersion, tx.Applies :=
    fun tx member => historic.applies tx (List.mem_of_mem_drop member)
  have bound := replica.behind
  rw [batch, applyChanges_batch later, replica.data, replay_take_drop, ← historic.snapshot,
    List.length_drop, Nat.add_sub_cancel' bound, ← historic.latest]

/-- A catch-up is empty exactly when the client is at the latest version. -/
theorem catchUp_empty {client : DbClient} (replica : Replica client server) :
    (server.changes.filter fun change => change.2 > client.serverVersion) = [] ↔
      client.serverVersion = server.latestSnapshotVersion := by
  have batch := TestDbServer.ofHistory_changes_after server.accepted client.serverVersion
  rw [← historic.made] at batch
  have bound := replica.behind
  rw [batch, ← List.length_eq_zero_iff, List.length_zipIdx, List.length_drop, historic.latest]
  omega

end Historic

/-- The log only grows. -/
def TestDbServer.Grows (before after : TestDbServer) : Prop := before.changes <+: after.changes

theorem TestDbServer.Grows.accepted {before after : TestDbServer} (growth : before.Grows after) :
    before.accepted <+: after.accepted := growth.map _

theorem Replica.grows {client : DbClient} {before after : TestDbServer} (replica : Replica client before)
    (growth : before.Grows after) : Replica client after := by
  obtain ⟨rest, whole⟩ := growth.accepted
  refine ⟨Nat.le_trans replica.behind growth.accepted.length_le, ?_⟩
  rw [replica.data, ← whole, List.take_append_of_le_length replica.behind]

end Pos2.Repl
