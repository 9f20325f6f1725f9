import Mathlib.Algebra.GroupWithZero.Nat
import Pos2.Tunnel.DnsIsolation
import Pos2.Tunnel.Restart

/-! The names that `server_main` publishes and gets its certificate for. Its own
writes ask no authorizer; users write through `/dns/set`, and whether they reach
these names depends on the domains that they could register. -/

namespace Pos2.Tunnel

/-- The bytes of `str::as_bytes` -/
def byteLength (value : Text) : Nat := (value.map Char.utf8Size).sum

/-- Any byte of a character beyond ASCII is above 126. -/
def checkTxtValue (value : Text) : Bool :=
  byteLength value ≤ 64 ∧ ∀ char ∈ value, 32 ≤ char.toNat ∧ char.toNat ≤ 126

section
variable {ν κ : Type} [DecidableEq ν] [DecidableEq κ] (formats : Formats ν κ)

def checkCnameValue (value : Text) : Bool := byteLength value ≤ 128 ∧ (formats.nameFromStr value).isSome

structure TunnelServer (ν κ : Type) where
  db : DB
  dns : DnsServer ν κ

/-- A `/dns/set` handler: whatever is refused panics before anything is written. -/
def dnsSetHandler (server : TunnelServer ν κ) (token name : Text) (checked : Bool) (call : DnsCall) :
    Option (DnsServer ν κ) :=
  match canWrite server.db token name with
  | .error _ => none
  | .ok () => if checked then call.run formats server.dns else none

def dnsSetTxtHandler (server : TunnelServer ν κ) (token name value : Text) : Option (DnsServer ν κ) :=
  dnsSetHandler formats server token name (checkTxtValue value) (.txt name value)

def dnsSetAHandler (server : TunnelServer ν κ) (token name : Text) (value : UInt32) : Option (DnsServer ν κ) :=
  dnsSetHandler formats server token name true (.a name value)

def dnsSetCnameHandler (server : TunnelServer ν κ) (token name value : Text) : Option (DnsServer ν κ) :=
  dnsSetHandler formats server token name (checkCnameValue formats value) (.cname name value)

inductive DnsSet where
  | txt (token name value : Text)
  | a (token name : Text) (value : UInt32)
  | cname (token name value : Text)
  deriving DecidableEq

def DnsSet.run (server : TunnelServer ν κ) : DnsSet → Option (DnsServer ν κ)
  | .txt token name value => dnsSetTxtHandler formats server token name value
  | .a token name value => dnsSetAHandler formats server token name value
  | .cname token name value => dnsSetCnameHandler formats server token name value

/-- A DNS name as `add_record` stores it. -/
def storedName (name : Text) : Option Text :=
  (formats.nameFromStr name).map fun name => formats.nameToString (formats.lowerName name)

def ownNames (hostname : Text) : List Text :=
  [hostname ++ ".".toList, WILDCARD ++ hostname ++ ".".toList, ACME ++ hostname ++ ".".toList].filterMap
    (storedName formats)

/-- What users do: accounts, registrations and writes. -/
inductive UserStep (availableSuffixes : List Text) (policy : Policy) : TunnelServer ν κ → TunnelServer ν κ → Prop where
  | account {server db} (step : Step availableSuffixes policy server.db db) :
      UserStep availableSuffixes policy server ⟨db, server.dns⟩
  | set {server dns} (call : DnsSet) (done : call.run formats server = some dns) :
      UserStep availableSuffixes policy server ⟨server.db, dns⟩

/-- What the server does by itself: it writes any record, and it restarts. -/
inductive OwnStep : TunnelServer ν κ → TunnelServer ν κ → Prop where
  | write {server dns} (call : DnsCall) (done : call.run formats server.dns = some dns) :
      OwnStep server ⟨server.db, dns⟩
  | restart {server dns} (loaded : makeDnsServer formats server.dns.persistence = some dns) :
      OwnStep server ⟨server.db, dns⟩

inductive ServerStep (availableSuffixes : List Text) (policy : Policy) (server after : TunnelServer ν κ) : Prop where
  | user (step : UserStep formats availableSuffixes policy server after)
  | own (step : OwnStep formats server after)

abbrev ServerReachable (availableSuffixes : List Text) (policy : Policy) : TunnelServer ν κ → Prop :=
  Relation.ReflTransGen (ServerStep formats availableSuffixes policy) ⟨.new, ⟨Zone.empty, []⟩⟩

/-- Some name that is checked against `domain` is one of the server's own. -/
def Touches (hostname domain : Text) : Prop :=
  ∃ name, checkedDomain name = domain ∧
    ∃ stored ∈ ownNames formats hostname, storedName formats (name ++ ".".toList) = some stored

/-- The policy of registering no domain that gives a user a name of the server. -/
def aside (hostname : Text) : Policy := fun _ _ domain => ¬ Touches formats hostname domain

/-- The records at these names are the same, in memory and in the table. -/
def Unchanged (names : List Text) (before after : DnsServer ν κ) : Prop :=
  ∀ name ∈ names,
    (∀ key, formats.nameToString key = name → after.authority key = before.authority key) ∧
      (after.persistence.filter fun row => row.name = name) = before.persistence.filter fun row => row.name = name

variable {formats}

private theorem writeDnsRecord_other {record : DnsRecord} {name : Text} (other : record.name ≠ name)
    (rows : List DnsRecord) :
    ((writeDnsRecord record rows).filter fun row => row.name = name) = rows.filter fun row => row.name = name := by
  induction rows with
  | nil => simp [writeDnsRecord, other]
  | cons row rest ih =>
    rw [writeDnsRecord]
    split
    · rename_i same
      have differs : row.name ≠ name := same.1 ▸ other
      simp [differs]
    · simp only [List.filter_cons, ih]

omit [DecidableEq ν] [DecidableEq κ] in
private theorem DnsCall.written_name {call : DnsCall} {entry : κ × RData ν}
    (written : call.written formats = some entry) :
    storedName formats call.name = some (formats.nameToString entry.1) := by
  have stored := congrArg (Option.map formats.nameToString) (written_key formats written)
  rwa [recordName, Option.map_map, Option.map_some] at stored

/-- A call leaves alone every name but the one it is made for. -/
theorem DnsCall.run_unchanged {server dns : DnsServer ν κ} {call : DnsCall} {names : List Text}
    (ran : call.run formats server = some dns)
    (off : ∀ stored, storedName formats call.name = some stored → stored ∉ names) :
    Unchanged formats names server dns := by
  rw [DnsCall.run_eq] at ran
  obtain ⟨entry, written, rfl⟩ := Option.map_eq_some_iff.mp ran
  have stored := off _ (written_name written)
  intro name member
  have other : formats.nameToString entry.1 ≠ name := fun same => stored (same ▸ member)
  refine ⟨fun key same => ?_, writeDnsRecord_other other _⟩
  funext type
  exact Zone.upsert_other _ _ _ fun here => other (here ▸ same)

private theorem canWrite_ok {db : DB} (owned : Owned db) {token name : Text}
    (allowed : canWrite db token name = .ok ()) :
    ∃ row, db.getAuthTokenById token = some row ∧
      ∃ plain, name = plain ++ ".".toList ∧ checkedDomain plain ∈ db.domainsOf row.userId := by
  cases found : db.getAuthTokenById token with
  | none =>
    rw [canWrite, found] at allowed
    cases allowed
  | some row => exact ⟨row, rfl, (canWrite_ok_iff owned found).mp allowed⟩

private theorem dnsSetHandler_done {server : TunnelServer ν κ} {dns : DnsServer ν κ} {token name : Text}
    {checked : Bool}
    {call : DnsCall} (done : dnsSetHandler formats server token name checked call = some dns) :
    canWrite server.db token name = .ok () ∧ call.run formats server.dns = some dns := by
  unfold dnsSetHandler at done
  split at done
  next => cases done
  next allowed =>
    split at done
    · exact ⟨allowed, done⟩
    · cases done

/-- A write of a user has passed the authorizer. -/
theorem DnsSet.run_allowed {server : TunnelServer ν κ} {dns : DnsServer ν κ} {set : DnsSet}
    (done : set.run formats server = some dns) :
    ∃ token call, canWrite server.db token (DnsCall.name call) = .ok () ∧ call.run formats server.dns = some dns := by
  cases set with
  | txt token name value => exact ⟨token, .txt name value, dnsSetHandler_done done⟩
  | a token name value => exact ⟨token, .a name value, dnsSetHandler_done done⟩
  | cname token name value => exact ⟨token, .cname name value, dnsSetHandler_done done⟩

/-- The accounts of a server change by the steps of users alone. -/
theorem ServerStep.accounts {availableSuffixes : List Text} {policy : Policy} {server after : TunnelServer ν κ}
    (step : ServerStep formats availableSuffixes policy server after) :
    after.db = server.db ∨ Step availableSuffixes policy server.db after.db := by
  rcases step with step | step
  · cases step with
    | account step => exact .inr step
    | set call done => exact .inl rfl
  · cases step <;> exact .inl rfl

theorem ServerReachable.db {availableSuffixes : List Text} {policy : Policy} {server : TunnelServer ν κ}
    (reachable : ServerReachable formats availableSuffixes policy server) :
    Reachable availableSuffixes policy server.db := by
  induction reachable with
  | refl => exact .refl
  | tail _ step ih =>
    rcases step.accounts with same | step
    · rwa [same]
    · exact ih.tail step

omit [DecidableEq ν] [DecidableEq κ] in
/-- Every domain was registered under the policy. -/
theorem Reachable.aside {availableSuffixes : List Text} {hostname : Text} {db : DB}
    (reachable : Reachable availableSuffixes (aside formats hostname) db) :
    ∀ row ∈ db.userDomains, ¬ Touches formats hostname row.domain := by
  induction reachable with
  | refl =>
    intro row member
    cases member
  | tail _ step ih =>
    obtain ⟨_, same | ⟨user, _, domain, clear, added⟩⟩ := step.domains
    · rw [same]
      exact ih
    · intro row member
      rw [added] at member
      rcases List.mem_append.mp member with old | new
      · exact ih row old
      · rw [List.mem_singleton.mp new]
        exact clear

omit [DecidableEq ν] [DecidableEq κ] in
theorem Unchanged.trans {names : List Text} {first second third : DnsServer ν κ}
    (earlier : Unchanged formats names first second) (later : Unchanged formats names second third) :
    Unchanged formats names first third := by
  intro name member
  refine ⟨fun key same => ?_, (later name member).2.trans (earlier name member).2⟩
  exact ((later name member).1 key same).trans ((earlier name member).1 key same)

theorem UserStep.unchanged {availableSuffixes : List Text} {hostname : Text} {server after : TunnelServer ν κ}
    (reachable : ServerReachable formats availableSuffixes (aside formats hostname) server)
    (step : UserStep formats availableSuffixes (aside formats hostname) server after) :
    Unchanged formats (ownNames formats hostname) server.dns after.dns := by
  cases step with
  | account step => exact fun _ _ => ⟨fun _ _ => rfl, rfl⟩
  | set call done =>
    obtain ⟨token, call, allowed, ran⟩ := call.run_allowed done
    obtain ⟨row, _, plain, same, member⟩ := canWrite_ok reachable.db.owned allowed
    apply DnsCall.run_unchanged ran
    intro stored found own
    have clear := reachable.db.aside _ (DB.mem_domainsOf.mp member)
    exact clear ⟨plain, rfl, stored, own, same ▸ found⟩

/-- In every reachable server a token may write a name of the server's own if and
only if a domain of its user touches one; and where no such domain was ever
registered, whatever users do leaves the records of these names alone. -/
theorem own_names_kept {availableSuffixes : List Text} {hostname : Text} {server : TunnelServer ν κ}
    (reachable : ServerReachable formats availableSuffixes unrestricted server) :
    (∀ token row, server.db.getAuthTokenById token = some row →
      ((∃ name, canWrite server.db token name = .ok () ∧
          ∃ stored ∈ ownNames formats hostname, storedName formats name = some stored) ↔
        ∃ domain ∈ server.db.domainsOf row.userId, Touches formats hostname domain)) ∧
    (ServerReachable formats availableSuffixes (aside formats hostname) server →
      ∀ after, Relation.ReflTransGen (UserStep formats availableSuffixes (aside formats hostname)) server after →
        Unchanged formats (ownNames formats hostname) server.dns after.dns) := by
  constructor
  · intro token row present
    constructor
    · rintro ⟨name, allowed, stored, own, found⟩
      obtain ⟨plain, rfl, member⟩ := (canWrite_ok_iff reachable.db.owned present).mp allowed
      exact ⟨_, member, plain, rfl, stored, own, found⟩
    · rintro ⟨domain, member, plain, rfl, stored, own, found⟩
      exact ⟨_, (canWrite_ok_iff reachable.db.owned present).mpr ⟨plain, rfl, member⟩, stored, own, found⟩
  · intro clear after calls
    suffices both : Unchanged formats (ownNames formats hostname) server.dns after.dns ∧
        ServerReachable formats availableSuffixes (aside formats hostname) after from both.1
    induction calls with
    | refl => exact ⟨fun _ _ => ⟨fun _ _ => rfl, rfl⟩, clear⟩
    | tail _ step ih =>
      obtain ⟨unchanged, before⟩ := ih
      exact ⟨unchanged.trans (step.unchanged before), before.tail (.user step)⟩

/-- Accounts can be made before any record is written. -/
theorem Reachable.server {availableSuffixes : List Text} {policy : Policy} {db : DB}
    (reachable : Reachable availableSuffixes policy db) :
    ServerReachable formats availableSuffixes policy ⟨db, ⟨Zone.empty, []⟩⟩ := by
  induction reachable with
  | refl => exact .refl
  | tail _ step ih => exact ih.tail (.user (.account step))

end

private theorem touches_plain {known : List (RData Text)} {hostname domain : Text} :
    Touches (plainFormats known) hostname domain →
      ∃ name ∈ [ACME ++ domain, WILDCARD ++ domain, domain],
        (name ++ ".".toList).lower ∈ ownNames (plainFormats known) hostname := by
  rintro ⟨name, checked, stored, own, found⟩
  cases found
  refine ⟨name, ?_, own⟩
  rcases checkedDomain_eq.mp checked with same | same | ⟨same, _⟩
  · simp [same]
  · simp [same]
  · simp [same]

/-- The server of the end-to-end test, with two users. -/
def testServer (first second : Text) (records : List DnsRecord) (authority : Zone Text Text) : TunnelServer Text Text :=
  ⟨twoUsers [⟨"alice".toList, first⟩, ⟨"bob".toList, second⟩], ⟨authority, records⟩⟩

/-- Alice writes an address for a domain of hers, beside the server's names. -/
theorem own_names_kept_beside : ∃ after : TunnelServer Text Text,
    UserStep (plainFormats [address 1]) [".test.local".toList] (aside (plainFormats [address 1]) "pos.test.local".toList)
      (testServer "one.test.local".toList "two.test.local".toList [] Zone.empty) after ∧
    after.dns.authority "one.test.local.".toList .a = [⟨1, address 1⟩] ∧
    Unchanged (plainFormats [address 1]) (ownNames (plainFormats [address 1]) "pos.test.local".toList)
      ⟨Zone.empty, []⟩ after.dns := by
  have one : ¬ Touches (plainFormats [address 1]) "pos.test.local".toList "one.test.local".toList := by
    intro touches
    exact absurd (touches_plain touches) (by decide)
  have two : ¬ Touches (plainFormats [address 1]) "pos.test.local".toList "two.test.local".toList := by
    intro touches
    exact absurd (touches_plain touches) (by decide)
  have reachable (policy : Policy) := @twoUsers_reachable [".test.local".toList] policy
    "one.test.local".toList "two.test.local".toList rfl rfl
  have set : UserStep (plainFormats [address 1]) [".test.local".toList]
      (aside (plainFormats [address 1]) "pos.test.local".toList)
      (testServer "one.test.local".toList "two.test.local".toList [] Zone.empty) _ :=
    .set (.a "a".toList "one.test.local.".toList 167772161) rfl
  refine ⟨_, set, by decide, ?_⟩
  exact (own_names_kept (reachable unrestricted trivial trivial).server).2 (reachable _ one two).server _ (.single set)

/-- The host name of the end-to-end test ends with an available suffix: a user
registers it and adds an address to the server's own. -/
theorem user_adds_own_address : ∃ server after : TunnelServer Text Text,
    ServerReachable (plainFormats []) [".test.local".toList] unrestricted server ∧
    UserStep (plainFormats []) [".test.local".toList] unrestricted server after ∧
    server.dns.authority "pos.test.local.".toList .a = [⟨1, address 1⟩] ∧
    after.dns.authority "pos.test.local.".toList .a = [⟨1, address 1⟩, ⟨1, address 2⟩] ∧
    "pos.test.local.".toList ∈ ownNames (plainFormats []) "pos.test.local".toList := by
  have accounts : ServerReachable (plainFormats []) [".test.local".toList] unrestricted
      (testServer "pos.test.local".toList "two.test.local".toList [] Zone.empty) :=
    (twoUsers_reachable rfl rfl trivial trivial).server
  have publish : OwnStep (plainFormats [])
      (testServer "pos.test.local".toList "two.test.local".toList [] Zone.empty) _ :=
    .write (.a "pos.test.local.".toList 167772161) rfl
  refine ⟨_, _, accounts.tail (.own publish), .set (.a "a".toList "pos.test.local.".toList 167772162) rfl, ?_⟩
  decide

end Pos2.Tunnel
