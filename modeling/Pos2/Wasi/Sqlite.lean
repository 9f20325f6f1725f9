import Pos2.Calls.Fallible
import Pos2.Text

/-! Transactions of guests, from `wasi3experiment/src/sqlite.rs`. Every host call
has the store to itself. An error that is passed on with `?` traps the guest. -/

namespace Pos2.Wasi
open Calls

inductive Value where
  | string (text : Text)
  | s64 (value : Int64)
  | f64 (bits : UInt64)
  | null
  | blob (bytes : List UInt8)
  deriving DecidableEq

abbrev Row := List Value

inductive ErrorCode where
  | bad
  deriving DecidableEq

structure Transaction where
  running : Bool
  deriving DecidableEq

/-- What a host call does with the context, the connection and the table. -/
inductive Request where
  | inTx
  | setInTx (value : Bool)
  | getMut (self : Nat)
  | setRunning (self : Nat) (value : Bool)
  | delete (self : Nat)
  | push (transaction : Transaction)
  | execute (sql : Text) (args : List Value)
  | query (sql : Text) (args : List Value)

abbrev Request.Value : Request → Type
  | .inTx => Bool
  | .setInTx _ | .setRunning _ _ => Unit
  | .getMut _ | .delete _ => Transaction
  | .push _ => Nat
  | .execute _ _ => Nat
  | .query _ _ => List Row

abbrev SqliteCalls : Interface := .fallible Request Request.Value

abbrev Hosts (α : Type) := Fallible SqliteCalls α

def ask (request : Request) : Hosts request.Value := Fallible.ask request

namespace Sqlite

/-! ### On a transaction -/

def transactionQuery (self : Nat) (query : Text) (args : List Value) : Hosts (Except ErrorCode (List Row)) := do
  let tx ← ask (.getMut self)
  if !tx.running then
    return .error .bad
  let rows ← ask (.query query args)
  return .ok rows

def transactionExecute (self : Nat) (query : Text) (args : List Value) : Hosts (Except ErrorCode Nat) := do
  let tx ← ask (.getMut self)
  if !tx.running then
    return .error .bad
  let result ← ask (.execute query args)
  return .ok result

/-- `commit` and `rollback`, which differ in their statement only. -/
def finish (statement : Text) (self : Nat) : Hosts (Except ErrorCode Unit) := do
  let tx ← ask (.getMut self)
  if !tx.running then
    return .error .bad
  ask (.setRunning self false)
  ask (.setInTx false)
  let _ ← ask (.execute statement [])
  return .ok ()

def commit : Nat → Hosts (Except ErrorCode Unit) := finish "COMMIT".toList

def rollback : Nat → Hosts (Except ErrorCode Unit) := finish "ROLLBACK".toList

def drop (self : Nat) : Hosts Unit := do
  let tx ← ask (.delete self)
  if tx.running then
    ask (.setInTx false)
    let _ ← ask (.execute "ROLLBACK".toList [])

/-! ### On the connection -/

def begin_ : Hosts (Except ErrorCode Nat) := do
  if ← ask .inTx then
    return .error .bad
  let _ ← ask (.execute "BEGIN".toList [])
  ask (.setInTx true)
  let resource ← ask (.push ⟨true⟩)
  return .ok resource

def query (query : Text) (args : List Value) : Hosts (Except ErrorCode (List Row)) := do
  if ← ask .inTx then
    return .error .bad
  let rows ← ask (.query query args)
  return .ok rows

def execute (query : Text) (args : List Value) : Hosts (Except ErrorCode Nat) := do
  if ← ask .inTx then
    return .error .bad
  let result ← ask (.execute query args)
  return .ok result

end Sqlite

/-- The store of an app: whether its connection has an open transaction, the flag
of the context, and the table. -/
structure Store where
  transaction : Bool
  inTx : Bool
  table : Nat → Option Transaction

def Store.new : Store := ⟨false, false, fun _ => none⟩

/-- What a statement does to the open transaction. A COMMIT that fails may leave it
open or have it rolled back. Nothing is known of other statements. -/
def Effect (sql : Text) (done : Bool) (before after : Bool) : Prop :=
  if sql = "BEGIN".toList then if done then before = false ∧ after = true else after = before
  else if sql = "COMMIT".toList ∨ sql = "ROLLBACK".toList then
    if done then before = true ∧ after = false else before = false → after = false
  else True

/-- A request that succeeds. -/
def Request.Succeeds : (request : Request) → Store → request.Value → Store → Prop
  | .inTx, before, value, after => value = before.inTx ∧ after = before
  | .setInTx value, before, _, after => after = { before with inTx := value }
  | .getMut self, before, value, after => before.table self = some value ∧ after = before
  | .setRunning self value, before, _, after =>
    before.table self ≠ none ∧ after = { before with table := Function.update before.table self (some ⟨value⟩) }
  | .delete self, before, value, after =>
    before.table self = some value ∧ after = { before with table := Function.update before.table self none }
  | .push transaction, before, self, after =>
    before.table self = none ∧
      after = { before with table := Function.update before.table self (some transaction) }
  | .execute sql _, before, _, after | .query sql _, before, _, after =>
    ∃ transaction, Effect sql true before.transaction transaction ∧ after = { before with transaction }

/-- A request that fails: a handle that is not in the table, a full table, or an
error of SQLite. -/
def Request.Fails : Request → Store → Store → Prop
  | .inTx, _, _ | .setInTx _, _, _ | .setRunning _ _, _, _ => False
  | .getMut self, before, after | .delete self, before, after => before.table self = none ∧ after = before
  | .push _, before, after => after = before
  | .execute sql _, before, after | .query sql _, before, after =>
    ∃ transaction, Effect sql false before.transaction transaction ∧ after = { before with transaction }

def serves : Handler SqliteCalls Store := fun request before reply after =>
  match reply with
  | .ok value => request.Succeeds before value after
  | .error _ => request.Fails before after

/-- A host call. -/
inductive Call where
  | begin_
  | query (sql : Text) (args : List Value)
  | execute (sql : Text) (args : List Value)
  | transactionQuery (self : Nat) (sql : Text) (args : List Value)
  | transactionExecute (self : Nat) (sql : Text) (args : List Value)
  | commit (self : Nat)
  | rollback (self : Nat)
  | drop (self : Nat)

/-- The type of what a host call returns to the guest. -/
abbrev Call.Result : Call → Type
  | .begin_ => Except ErrorCode Nat
  | .query _ _ | .transactionQuery _ _ _ => Except ErrorCode (List Row)
  | .execute _ _ | .transactionExecute _ _ _ => Except ErrorCode Nat
  | .commit _ | .rollback _ => Except ErrorCode Unit
  | .drop _ => Unit

def Call.run : (call : Call) → Hosts call.Result
  | .begin_ => Sqlite.begin_
  | .query sql args => Sqlite.query sql args
  | .execute sql args => Sqlite.execute sql args
  | .transactionQuery self sql args => Sqlite.transactionQuery self sql args
  | .transactionExecute self sql args => Sqlite.transactionExecute self sql args
  | .commit self => Sqlite.commit self
  | .rollback self => Sqlite.rollback self
  | .drop self => Sqlite.drop self

end Pos2.Wasi
