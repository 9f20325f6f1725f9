import Mathlib.Data.Option.Basic
import Pos2.Tunnel.Db

/-! The records of `tunnel/src/dnsserver.rs`: each is written to a table and to
the authority in memory, and a restart builds the authority from the table. -/

namespace Pos2.Tunnel

inductive RecordType where
  | a
  | txt
  | cname
  deriving DecidableEq, Repr

/-- `<&str>::from(RecordType)` -/
def RecordType.text : RecordType → Text
  | .a => "A".toList
  | .txt => "TXT".toList
  | .cname => "CNAME".toList

theorem RecordType.text_inj {type other : RecordType} : type.text = other.text ↔ type = other := by
  cases type <;> cases other <;> decide

/-- Record data over the type of DNS names. -/
inductive RData (ν : Type) where
  | a (address : UInt32)
  | txt (data : List Text)
  | cname (target : ν)
  deriving DecidableEq

def RData.recordType {ν : Type} : RData ν → RecordType
  | .a _ => .a
  | .txt _ => .txt
  | .cname _ => .cname

/-- How DNS names and record data are read and written as texts; `κ` is the type
of names in lower case. -/
structure Formats (ν κ : Type) where
  /-- `Name::from_str` -/
  nameFromStr : Text → Option ν
  /-- `LowerName::from` -/
  lowerName : ν → κ
  /-- `LowerName::to_string` -/
  nameToString : κ → Text
  /-- `serde_json::to_string` -/
  toJson : RData ν → Text
  /-- `serde_json::from_str` -/
  fromJson : Text → Option (RData ν)

structure DnsRecord where
  name : Text
  kind : Text
  value : Text
  ttlSeconds : Int
  expiresAt : Option Int
  deriving DecidableEq

/-- `DB::write_dns_record`: on a row with the same name and kind it updates the rest. -/
def writeDnsRecord (record : DnsRecord) : List DnsRecord → List DnsRecord
  | [] => [record]
  | row :: rest =>
    if row.name = record.name ∧ row.kind = record.kind
    then { row with value := record.value, ttlSeconds := record.ttlSeconds, expiresAt := record.expiresAt } :: rest
    else row :: writeDnsRecord record rest

structure Record (ν : Type) where
  ttl : Nat
  rdata : RData ν
  deriving DecidableEq

/-- The record sets of `InMemoryAuthority` by name and type. -/
abbrev Zone (ν κ : Type) := κ → RecordType → List (Record ν)

section
variable {ν κ : Type} [DecidableEq ν] [DecidableEq κ]

/-- A record replaces one with the same data, and a CNAME replaces any other. -/
def insertRecord (record : Record ν) (set : List (Record ν)) : List (Record ν) :=
  if record.rdata.recordType = .cname then [record]
  else if set.any fun old => old.rdata = record.rdata
  then set.map fun old => if old.rdata = record.rdata then record else old
  else set ++ [record]

/-- `InMemoryAuthority::upsert` -/
def Zone.upsert (zone : Zone ν κ) (name : κ) (record : Record ν) : Zone ν κ := fun key type =>
  if key = name ∧ type = record.rdata.recordType then insertRecord record (zone key type) else zone key type

def Zone.empty : Zone ν κ := fun _ _ => []

/-- The authority and the `dns_records` table. -/
structure DnsServer (ν κ : Type) where
  authority : Zone ν κ
  persistence : List DnsRecord

variable (formats : Formats ν κ)

def addRecord (server : DnsServer ν κ) (name : Text) (ttl : Nat) (expiresAt : Option Int) (rdata : RData ν) :
    Option (DnsServer ν κ) := do
  let name ← formats.nameFromStr name
  let name := formats.lowerName name
  let row := ⟨formats.nameToString name, rdata.recordType.text, formats.toJson rdata, ttl, expiresAt⟩
  some ⟨server.authority.upsert name ⟨ttl, rdata⟩, writeDnsRecord row server.persistence⟩

def addTxtRecord (server : DnsServer ν κ) (name value : Text) : Option (DnsServer ν κ) :=
  addRecord formats server name 1 none (.txt [value])

def addARecord (server : DnsServer ν κ) (name : Text) (value : UInt32) : Option (DnsServer ν κ) :=
  addRecord formats server name 1 none (.a value)

def addCnameRecord (server : DnsServer ν κ) (name value : Text) : Option (DnsServer ν κ) := do
  guard (value.getLast? = some '.')
  let target ← formats.nameFromStr value
  addRecord formats server name 1 none (.cname target)

def loadRecord (authority : Zone ν κ) (record : DnsRecord) : Option (Zone ν κ) := do
  let name ← formats.nameFromStr record.name
  let rdata ← formats.fromJson record.value
  guard (0 ≤ record.ttlSeconds)
  some (authority.upsert (formats.lowerName name) ⟨record.ttlSeconds.toNat, rdata⟩)

/-- `make_dns_server`, the fixed SOA record aside. -/
def makeDnsServer (persistence : List DnsRecord) : Option (DnsServer ν κ) := do
  let authority ← persistence.foldlM (loadRecord formats) Zone.empty
  some ⟨authority, persistence⟩

/-- A call of the `DnsClient` trait. -/
inductive DnsCall where
  | txt (name value : Text)
  | a (name : Text) (value : UInt32)
  | cname (name value : Text)
  deriving DecidableEq

def DnsCall.run (server : DnsServer ν κ) : DnsCall → Option (DnsServer ν κ)
  | .txt name value => addTxtRecord formats server name value
  | .a name value => addARecord formats server name value
  | .cname name value => addCnameRecord formats server name value

def DnsCall.name : DnsCall → Text
  | .txt name _ => name
  | .a name _ => name
  | .cname name _ => name

/-- The key under which `add_record` stores a record for `name`. -/
def recordName (name : Text) : Option κ := (formats.nameFromStr name).map formats.lowerName

/-- The name and the data that a successful call writes. -/
def DnsCall.written : DnsCall → Option (κ × RData ν)
  | .txt name value => (formats.nameFromStr name).map fun name => (formats.lowerName name, .txt [value])
  | .a name value => (formats.nameFromStr name).map fun name => (formats.lowerName name, .a value)
  | .cname name value => do
    guard (value.getLast? = some '.')
    let target ← formats.nameFromStr value
    (formats.nameFromStr name).map fun name => (formats.lowerName name, .cname target)

/-- The row of a record in the table. -/
def rowOf (entry : κ × RData ν) : DnsRecord :=
  ⟨formats.nameToString entry.1, entry.2.recordType.text, formats.toJson entry.2, 1, none⟩

theorem DnsCall.run_eq (server : DnsServer ν κ) (call : DnsCall) :
    call.run formats server = (call.written formats).map fun entry =>
      ⟨server.authority.upsert entry.1 ⟨1, entry.2⟩, writeDnsRecord (rowOf formats entry) server.persistence⟩ := by
  cases call with
  | txt name value =>
    simp only [run, written, addTxtRecord, addRecord]
    cases formats.nameFromStr name <;> rfl
  | a name value =>
    simp only [run, written, addARecord, addRecord]
    cases formats.nameFromStr name <;> rfl
  | cname name value =>
    simp only [run, written, addCnameRecord, addRecord]
    by_cases absolute : value.getLast? = some '.'
    · cases formats.nameFromStr value <;> cases formats.nameFromStr name <;> simp [absolute, rowOf]
    · simp only [guard, if_neg absolute]
      rfl

omit [DecidableEq ν] [DecidableEq κ] in
theorem DnsCall.written_key {call : DnsCall} {entry : κ × RData ν} (written : call.written formats = some entry) :
    recordName formats call.name = some entry.1 := by
  cases call with
  | txt name value =>
    obtain ⟨parsed, found, rfl⟩ := Option.map_eq_some_iff.mp written
    exact congrArg (Option.map _) found
  | a name value =>
    obtain ⟨parsed, found, rfl⟩ := Option.map_eq_some_iff.mp written
    exact congrArg (Option.map _) found
  | cname name value =>
    obtain ⟨_, _, rest⟩ := Option.bind_eq_some_iff.mp written
    obtain ⟨target, _, rest⟩ := Option.bind_eq_some_iff.mp rest
    obtain ⟨parsed, found, rfl⟩ := Option.map_eq_some_iff.mp rest
    exact congrArg (Option.map _) found

/-- A write touches the records of its own name and type only. -/
theorem Zone.upsert_other (zone : Zone ν κ) {name key : κ} (record : Record ν) (type : RecordType)
    (other : key ≠ name) : zone.upsert name record key type = zone key type := by
  rw [upsert, if_neg (fun same => other same.1)]

end
end Pos2.Tunnel
