import Mathlib.Data.List.Induction
import Pos2.Tunnel.Zone

/-! A restart of the DNS server. The table holds the last value of a name and a
type, the authority all that were added since the last start: they agree as long
as no second value is added. -/

namespace Pos2.Tunnel

section
variable {ν κ : Type} (formats : Formats ν κ)

/-- The name and the data come back from their texts. -/
def Kept (entry : κ × RData ν) : Prop :=
  (formats.nameFromStr (formats.nameToString entry.1)).map formats.lowerName = some entry.1 ∧
    formats.fromJson (formats.toJson entry.2) = some entry.2

def keyOf (entry : κ × RData ν) : κ × RecordType := (entry.1, entry.2.recordType)

/-- The table holds these values and no others. -/
def Stores (rows : List DnsRecord) (last : κ → RecordType → Option (RData ν)) : Prop :=
  ∃ entries : List (κ × RData ν), rows = entries.map (rowOf formats) ∧ (entries.map keyOf).Nodup ∧
    (∀ entry ∈ entries, Kept formats entry) ∧
    ∀ key type rdata, last key type = some rdata ↔ (key, rdata) ∈ entries ∧ rdata.recordType = type

variable {formats}

private theorem Kept.row_eq {entry other : κ × RData ν} (kept : Kept formats entry) (kept' : Kept formats other) :
    (rowOf formats entry).name = (rowOf formats other).name ∧
      (rowOf formats entry).kind = (rowOf formats other).kind ↔ keyOf entry = keyOf other := by
  simp only [rowOf, keyOf, RecordType.text_inj, Prod.mk.injEq]
  refine and_congr_left fun _ => ⟨fun same => ?_, fun same => by rw [same]⟩
  have back := kept.1
  rw [same, kept'.1] at back
  exact (Option.some.inj back).symm

variable [DecidableEq κ]

/-- `write_dns_record` on the entries of the table. -/
def put (entry : κ × RData ν) : List (κ × RData ν) → List (κ × RData ν)
  | [] => [entry]
  | first :: rest => if keyOf first = keyOf entry then entry :: rest else first :: put entry rest

private theorem put_rows {entry : κ × RData ν} (kept : Kept formats entry) {entries : List (κ × RData ν)}
    (all : ∀ entry ∈ entries, Kept formats entry) :
    writeDnsRecord (rowOf formats entry) (entries.map (rowOf formats)) = (put entry entries).map (rowOf formats) := by
  induction entries with
  | nil => rfl
  | cons first rest ih =>
    have here := (all first (by simp)).row_eq kept
    rw [List.map_cons, writeDnsRecord, put]
    by_cases same : keyOf first = keyOf entry
    · obtain ⟨name, kind⟩ := here.mpr same
      rw [if_pos ⟨name, kind⟩, if_pos same, List.map_cons, name, kind]
    · rw [if_neg (fun both => same (here.mp both)), if_neg same, List.map_cons,
        ih fun entry member => all entry (by simp [member])]

private theorem mem_put {entry other : κ × RData ν} {entries : List (κ × RData ν)} (nodup : (entries.map keyOf).Nodup) :
    other ∈ put entry entries ↔ other = entry ∨ (other ∈ entries ∧ keyOf other ≠ keyOf entry) := by
  induction entries with
  | nil => simp [put]
  | cons first rest ih =>
    rw [List.map_cons, List.nodup_cons] at nodup
    have fresh : ∀ other ∈ rest, keyOf other ≠ keyOf first := by
      intro other member same
      exact nodup.1 (List.mem_map.mpr ⟨other, member, same⟩)
    rw [put]
    by_cases same : keyOf first = keyOf entry
    · rw [if_pos same, List.mem_cons, List.mem_cons]
      rw [same] at fresh
      constructor
      · rintro (rfl | member)
        · exact .inl rfl
        · exact .inr ⟨.inr member, fresh other member⟩
      · rintro (rfl | ⟨rfl | member, differ⟩)
        · exact .inl rfl
        · exact (differ same).elim
        · exact .inr member
    · rw [if_neg same, List.mem_cons, List.mem_cons, ih nodup.2]
      constructor
      · rintro (rfl | rfl | ⟨member, differ⟩)
        · exact .inr ⟨.inl rfl, same⟩
        · exact .inl rfl
        · exact .inr ⟨.inr member, differ⟩
      · rintro (rfl | ⟨rfl | member, differ⟩)
        · exact .inr (.inl rfl)
        · exact .inl rfl
        · exact .inr (.inr ⟨member, differ⟩)

private theorem put_nodup {entry : κ × RData ν} {entries : List (κ × RData ν)} (nodup : (entries.map keyOf).Nodup) :
    ((put entry entries).map keyOf).Nodup := by
  induction entries with
  | nil => simp [put]
  | cons first rest ih =>
    rw [List.map_cons, List.nodup_cons] at nodup
    rw [put]
    by_cases same : keyOf first = keyOf entry
    · rw [if_pos same, List.map_cons, List.nodup_cons, ← same]
      exact nodup
    · rw [if_neg same, List.map_cons, List.nodup_cons]
      refine ⟨fun member => ?_, ih nodup.2⟩
      obtain ⟨other, inside, equal⟩ := List.mem_map.mp member
      rcases (mem_put nodup.2).mp inside with rfl | ⟨old, _⟩
      · exact same equal.symm
      · exact nodup.1 (List.mem_map.mpr ⟨other, old, equal⟩)

theorem Stores.write {rows : List DnsRecord} {last after : κ → RecordType → Option (RData ν)}
    (stores : Stores formats rows last) {entry : κ × RData ν} (kept : Kept formats entry)
    (written : ∀ key type, after key type =
      if key = entry.1 ∧ type = entry.2.recordType then some entry.2 else last key type) :
    Stores formats (writeDnsRecord (rowOf formats entry) rows) after := by
  obtain ⟨entries, rfl, nodup, all, holds⟩ := stores
  refine ⟨put entry entries, put_rows kept all, put_nodup nodup, ?_, ?_⟩
  · intro other member
    rcases (mem_put nodup).mp member with rfl | ⟨old, _⟩
    · exact kept
    · exact all other old
  · intro key type rdata
    rw [written, mem_put nodup]
    by_cases here : key = entry.1 ∧ type = entry.2.recordType
    · obtain ⟨rfl, rfl⟩ := here
      rw [if_pos ⟨rfl, rfl⟩]
      constructor
      · intro same
        rw [← Option.some.inj same]
        exact ⟨.inl rfl, rfl⟩
      · rintro ⟨same | ⟨_, differ⟩, type⟩
        · rw [← same]
        · exact (differ (by rw [keyOf, keyOf, type])).elim
    · rw [if_neg here, holds]
      constructor
      · intro ⟨member, type⟩
        refine ⟨.inr ⟨member, fun same => here ?_⟩, type⟩
        rw [keyOf, keyOf, Prod.mk.injEq] at same
        exact ⟨same.1, type.symm.trans same.2⟩
      · rintro ⟨rfl | ⟨member, _⟩, type⟩
        · exact (here ⟨rfl, type.symm⟩).elim
        · exact ⟨member, type⟩

end

section
variable {ν κ : Type} [DecidableEq ν] [DecidableEq κ] (formats : Formats ν κ)

inductive DnsEvent where
  | client (call : DnsCall)
  | restart
  deriving DecidableEq

def DnsEvent.step (server : DnsServer ν κ) : DnsEvent → Option (DnsServer ν κ)
  | .client call => call.run formats server
  | .restart => makeDnsServer formats server.persistence

/-- What a server on a new table is after these events. -/
def runEvents (events : List DnsEvent) : Option (DnsServer ν κ) :=
  events.foldlM (DnsEvent.step formats) ⟨Zone.empty, []⟩

/-- Values of each name and type, in the order they were written. -/
abbrev Values (ν κ : Type) := κ → RecordType → List (RData ν)

def Values.write (values : Values ν κ) : Option (κ × RData ν) → Values ν κ
  | some (name, rdata) => fun key type =>
    if key = name ∧ type = rdata.recordType then values key type ++ [rdata] else values key type
  | none => values

/-- All values that were ever written. -/
def writtenBy (events : List DnsEvent) : Values ν κ :=
  events.foldl (fun values event =>
    match event with
    | .client call => values.write (call.written formats)
    | .restart => values) fun _ _ => []

/-- The values written since the last restart, behind the last one before it. -/
def writtenSince (events : List DnsEvent) : Values ν κ :=
  events.foldl (fun values event =>
    match event with
    | .client call => values.write (call.written formats)
    | .restart => fun key type => (values key type).getLast?.toList) fun _ _ => []

variable {formats}

@[simp] theorem insertRecord_nil (record : Record ν) : insertRecord record [] = [record] := by
  simp [insertRecord]

theorem Kept.load {entry : κ × RData ν} (kept : Kept formats entry) (zone : Zone ν κ) :
    loadRecord formats zone (rowOf formats entry) = some (zone.upsert entry.1 ⟨1, entry.2⟩) := by
  obtain ⟨name, parsed, lower⟩ := Option.map_eq_some_iff.mp kept.1
  simp only [loadRecord, rowOf, parsed, kept.2, Option.bind_eq_bind, Option.bind_some, lower]
  rfl

private theorem load_entries {entries : List (κ × RData ν)} (all : ∀ entry ∈ entries, Kept formats entry)
    (nodup : (entries.map keyOf).Nodup) (zone : Zone ν κ)
    (fresh : ∀ entry ∈ entries, zone entry.1 entry.2.recordType = []) :
    ∃ authority, (entries.map (rowOf formats)).foldlM (loadRecord formats) zone = some authority ∧
      (∀ entry ∈ entries, authority entry.1 entry.2.recordType = [⟨1, entry.2⟩]) ∧
      ∀ key type, (∀ entry ∈ entries, keyOf entry ≠ (key, type)) → authority key type = zone key type := by
  induction entries generalizing zone with
  | nil => exact ⟨zone, rfl, by simp, fun _ _ _ => rfl⟩
  | cons first rest ih =>
    rw [List.map_cons, List.nodup_cons] at nodup
    have apart : ∀ entry ∈ rest, ¬ (entry.1 = first.1 ∧ entry.2.recordType = first.2.recordType) := by
      intro entry member ⟨name, type⟩
      exact nodup.1 (List.mem_map.mpr ⟨entry, member, by rw [keyOf, keyOf, name, type]⟩)
    obtain ⟨authority, loaded, inside, outside⟩ :=
      ih (fun entry member => all entry (by simp [member])) nodup.2 (zone.upsert first.1 ⟨1, first.2⟩) (by
        intro entry member
        rw [Zone.upsert, if_neg (apart entry member)]
        exact fresh entry (by simp [member]))
    refine ⟨authority, ?_, ?_, ?_⟩
    · rw [List.map_cons, List.foldlM_cons, (all first (by simp)).load]
      exact loaded
    · intro entry member
      rcases List.mem_cons.mp member with rfl | member
      · rw [outside _ _ fun other later same => ?_]
        · rw [Zone.upsert, if_pos ⟨rfl, rfl⟩, fresh entry (by simp), insertRecord_nil]
        · exact apart other later (Prod.mk.inj same)
      · exact inside entry member
    · intro key type absent
      rw [outside key type fun entry member => absent entry (by simp [member]), Zone.upsert, if_neg]
      intro same
      exact absent first (by simp) (Prod.ext same.1.symm same.2.symm)

/-- What the table makes of an authority: one record for each name and type. -/
theorem Stores.load {rows : List DnsRecord} {last : κ → RecordType → Option (RData ν)}
    (stores : Stores formats rows last) :
    ∃ authority, rows.foldlM (loadRecord formats) Zone.empty = some authority ∧
      ∀ key type, authority key type = (last key type).toList.map fun rdata => ⟨1, rdata⟩ := by
  obtain ⟨entries, rfl, nodup, all, holds⟩ := stores
  obtain ⟨authority, loaded, inside, outside⟩ := load_entries all nodup Zone.empty fun _ _ => rfl
  refine ⟨authority, loaded, fun key type => ?_⟩
  cases found : last key type with
  | some rdata =>
    obtain ⟨member, rfl⟩ := (holds key type rdata).mp found
    exact inside _ member
  | none =>
    apply outside
    intro entry member same
    obtain ⟨rfl, rfl⟩ := Prod.mk.inj same
    rw [(holds _ _ _).mpr ⟨member, rfl⟩] at found
    cases found

/-- The records of a set to which these data were added one after the other. -/
def recordsOf (values : List (RData ν)) : List (Record ν) :=
  values.foldl (fun set rdata => insertRecord ⟨1, rdata⟩ set) []

private theorem recordsOf_snoc (values : List (RData ν)) (rdata : RData ν) :
    recordsOf (values ++ [rdata]) = insertRecord ⟨1, rdata⟩ (recordsOf values) := by
  simp [recordsOf]

private theorem recordsOf_cname {values : List (RData ν)} (type : ∀ rdata ∈ values, rdata.recordType = .cname) :
    recordsOf values = values.getLast?.toList.map fun rdata => ⟨1, rdata⟩ := by
  rcases List.eq_nil_or_concat values with rfl | ⟨front, last, rfl⟩
  · rfl
  · have cname := type last (by simp)
    simp [List.concat_eq_append, recordsOf_snoc, insertRecord, cname]

private theorem mem_insertRecord {record : Record ν} {set : List (Record ν)} (other : record.rdata.recordType ≠ .cname)
    {rdata : RData ν} (member : rdata = record.rdata ∨ ∃ old ∈ set, old.rdata = rdata) :
    ∃ kept ∈ insertRecord record set, kept.rdata = rdata := by
  rw [insertRecord, if_neg other]
  split
  · rename_i present
    obtain ⟨old, inside, same⟩ := List.any_eq_true.mp present
    rcases member with rfl | ⟨old, inside, rfl⟩
    · exact ⟨record, List.mem_map.mpr ⟨old, inside, if_pos (of_decide_eq_true same)⟩, rfl⟩
    · refine ⟨_, List.mem_map.mpr ⟨old, inside, rfl⟩, ?_⟩
      by_cases same : old.rdata = record.rdata
      · rw [if_pos same, same]
      · rw [if_neg same]
  · rcases member with rfl | ⟨old, inside, rfl⟩
    · exact ⟨record, by simp, rfl⟩
    · exact ⟨old, by simp [inside], rfl⟩

private theorem mem_recordsOf {values : List (RData ν)} (type : ∀ rdata ∈ values, rdata.recordType ≠ .cname) :
    ∀ rdata ∈ values, ∃ record ∈ recordsOf values, record.rdata = rdata := by
  induction values using List.reverseRecOn with
  | nil => simp
  | append_singleton front last ih =>
    intro rdata member
    rw [recordsOf_snoc]
    apply mem_insertRecord (type last (by simp))
    rcases List.mem_append.mp member with old | new
    · exact .inr (ih (fun rdata member => type rdata (by simp [member])) rdata old)
    · exact .inl (List.mem_singleton.mp new)

private theorem recordsOf_same {values : List (RData ν)} (type : ∀ rdata ∈ values, rdata.recordType ≠ .cname)
    (same : ∀ first ∈ values, ∀ second ∈ values, first = second) :
    recordsOf values = values.getLast?.toList.map fun rdata => ⟨1, rdata⟩ := by
  induction values using List.reverseRecOn with
  | nil => rfl
  | append_singleton front last ih =>
    have before := ih (fun rdata member => type rdata (by simp [member]))
      (fun first inside second inside' => same first (by simp [inside]) second (by simp [inside']))
    have other := type last (by simp)
    rw [recordsOf_snoc, before]
    rcases List.eq_nil_or_concat front with rfl | ⟨earlier, latest, rfl⟩
    · simp
    · have equal := same latest (by simp) last (by simp)
      simp [List.concat_eq_append, equal, insertRecord, other]

/-- A set has the last data alone if and only if it has at most one, CNAMEs aside. -/
theorem recordsOf_last {values : List (RData ν)} {type : RecordType}
    (typed : ∀ rdata ∈ values, rdata.recordType = type) :
    recordsOf values = (values.getLast?.toList.map fun rdata => ⟨1, rdata⟩) ↔
      (type ≠ .cname → ∀ first ∈ values, ∀ second ∈ values, first = second) := by
  constructor
  · intro equal other
    have plain : ∀ rdata ∈ values, rdata.recordType ≠ .cname := by
      intro rdata member
      rw [typed rdata member]
      exact other
    have single : ∀ rdata ∈ values, some rdata = values.getLast? := by
      intro rdata member
      obtain ⟨record, inside, rfl⟩ := mem_recordsOf plain rdata member
      rw [equal] at inside
      obtain ⟨last, found, rfl⟩ := List.mem_map.mp inside
      exact (Option.mem_toList.mp found).symm
    intro first inside second inside'
    exact Option.some.inj ((single first inside).trans (single second inside').symm)
  · intro same
    by_cases cname : type = .cname
    · apply recordsOf_cname
      intro rdata member
      rw [typed rdata member, cname]
    · apply recordsOf_same _ (same cname)
      intro rdata member
      rw [typed rdata member]
      exact cname

/-- How the server's two stores follow from the values written. -/
structure Follows (formats : Formats ν κ) (server : DnsServer ν κ) (since ever : Values ν κ) : Prop where
  stored : Stores formats server.persistence fun key type => (ever key type).getLast?
  served : ∀ key type, server.authority key type = recordsOf (since key type)
  latest : ∀ key type, (since key type).getLast? = (ever key type).getLast?
  typed : ∀ key type, ∀ rdata ∈ since key type, rdata.recordType = type

theorem Follows.call {server after : DnsServer ν κ} {since ever : Values ν κ}
    (follows : Follows formats server since ever) {call : DnsCall}
    (kept : ∀ entry, call.written formats = some entry → Kept formats entry)
    (ran : call.run formats server = some after) :
    Follows formats after (since.write (call.written formats)) (ever.write (call.written formats)) := by
  rw [DnsCall.run_eq] at ran
  obtain ⟨⟨name, rdata⟩, written, rfl⟩ := Option.map_eq_some_iff.mp ran
  rw [written]
  constructor
  · refine follows.stored.write (kept _ written) fun key type => ?_
    simp only [Values.write]
    split
    · exact List.getLast?_concat
    · rfl
  · intro key type
    simp only [Zone.upsert, Values.write]
    split
    · rw [recordsOf_snoc, follows.served]
    · exact follows.served key type
  · intro key type
    simp only [Values.write]
    split
    · rw [List.getLast?_concat, List.getLast?_concat]
    · exact follows.latest key type
  · intro key type old member
    simp only [Values.write] at member
    split at member
    · rename_i here
      rcases List.mem_append.mp member with member | new
      · exact follows.typed key type old member
      · rw [List.mem_singleton.mp new, here.2]
    · exact follows.typed key type old member

theorem Follows.restart {server : DnsServer ν κ} {since ever : Values ν κ}
    (follows : Follows formats server since ever) :
    ∃ after, makeDnsServer formats server.persistence = some after ∧
      (∀ key type, after.authority key type = (ever key type).getLast?.toList.map fun rdata => ⟨1, rdata⟩) ∧
      Follows formats after (fun key type => (since key type).getLast?.toList) ever := by
  obtain ⟨authority, loaded, served⟩ := follows.stored.load
  refine ⟨⟨authority, server.persistence⟩, ?_, served, follows.stored, ?_, ?_, ?_⟩
  · rw [makeDnsServer, loaded]
    rfl
  · intro key type
    refine (served key type).trans ?_
    rw [follows.latest]
    cases (ever key type).getLast? with
    | none => rfl
    | some rdata => simp [recordsOf]
  · intro key type
    rw [← follows.latest]
    cases (since key type).getLast? <;> rfl
  · intro key type rdata member
    exact follows.typed key type rdata (List.mem_of_getLast? (Option.mem_toList.mp member))

/-- The names and the data that the calls write come back from their texts. -/
def AllKept (formats : Formats ν κ) (events : List DnsEvent) : Prop :=
  ∀ call, .client call ∈ events → ∀ entry, call.written formats = some entry → Kept formats entry

private theorem runEvents_follows {events : List DnsEvent} (kept : AllKept formats events) {server : DnsServer ν κ}
    (ran : runEvents formats events = some server) :
    Follows formats server (writtenSince formats events) (writtenBy formats events) := by
  induction events using List.reverseRecOn generalizing server with
  | nil =>
    cases ran
    refine ⟨⟨[], rfl, List.nodup_nil, by simp, by simp [writtenBy]⟩, ?_, fun _ _ => rfl, ?_⟩
    · intro key type
      rfl
    · intro key type rdata member
      cases member
  | append_singleton events event ih =>
    rw [runEvents, List.foldlM_append] at ran
    obtain ⟨before, earlier, last⟩ := Option.bind_eq_some_iff.mp ran
    have follows := ih (fun call member => kept call (by simp [member])) earlier
    simp only [List.foldlM_cons, List.foldlM_nil, bind_pure] at last
    simp only [writtenSince, writtenBy, List.foldl_append, List.foldl_cons, List.foldl_nil]
    cases event with
    | client call => exact follows.call (kept call (by simp)) last
    | restart =>
      obtain ⟨after, loaded, _, restarted⟩ := follows.restart
      cases loaded.symm.trans last
      exact restarted

/-- What an event writes. -/
def DnsEvent.written (formats : Formats ν κ) : DnsEvent → Option (κ × RData ν)
  | .client call => call.written formats
  | .restart => none

omit [DecidableEq ν] in
private theorem writtenSince_written {events : List DnsEvent} {key : κ} {type : RecordType} {rdata : RData ν}
    (member : rdata ∈ writtenSince formats events key type) :
    (key, rdata) ∈ events.filterMap (DnsEvent.written formats) ∧ rdata.recordType = type := by
  induction events using List.reverseRecOn generalizing rdata with
  | nil => cases member
  | append_singleton events event ih =>
    simp only [writtenSince, List.foldl_append, List.foldl_cons, List.foldl_nil] at member
    rw [List.filterMap_append, List.mem_append]
    have old (inside : rdata ∈ writtenSince formats events key type) :
        ((key, rdata) ∈ events.filterMap (DnsEvent.written formats) ∨
          (key, rdata) ∈ [event].filterMap (DnsEvent.written formats)) ∧ rdata.recordType = type :=
      (ih inside).imp_left .inl
    cases event with
    | restart => exact old (List.mem_of_getLast? (Option.mem_toList.mp member))
    | client call =>
      dsimp only at member
      cases written : call.written formats with
      | none =>
        rw [written] at member
        exact old member
      | some entry =>
        rw [written] at member
        simp only [Values.write] at member
        split at member
        · next here =>
          rcases List.mem_append.mp member with inside | new
          · exact old inside
          · obtain rfl := List.mem_singleton.mp new
            refine ⟨.inr ?_, here.2.symm⟩
            rw [here.1]
            simp [DnsEvent.written, written]
        · exact old member

/-- For every run of successful calls and restarts: a restart now would serve the
same zone, with the last value written for each name and type, if and only if no
A or TXT set was given two values since the last start (the value it started with
included). -/
theorem restart_keeps_zone {events : List DnsEvent} (kept : AllKept formats events) {server : DnsServer ν κ}
    (ran : runEvents formats events = some server) :
    (∃ after, makeDnsServer formats server.persistence = some after ∧ after.authority = server.authority ∧
      ∀ key type, server.authority key type =
        (writtenBy formats events key type).getLast?.toList.map fun rdata => ⟨1, rdata⟩) ↔
    ∀ key type, type ≠ .cname → ∀ first ∈ writtenSince formats events key type,
      ∀ second ∈ writtenSince formats events key type, first = second := by
  have follows := runEvents_follows kept ran
  have last (key : κ) (type : RecordType) : server.authority key type =
      ((writtenBy formats events key type).getLast?.toList.map fun rdata => ⟨1, rdata⟩) ↔
      (type ≠ .cname → ∀ first ∈ writtenSince formats events key type,
        ∀ second ∈ writtenSince formats events key type, first = second) := by
    rw [follows.served, ← follows.latest]
    exact recordsOf_last (follows.typed key type)
  constructor
  · intro ⟨_, _, _, served⟩ key type
    exact (last key type).mp (served key type)
  · intro same
    have served : ∀ key type, server.authority key type = _ := fun key type => (last key type).mpr (same key type)
    obtain ⟨after, loaded, rebuilt, _⟩ := follows.restart
    refine ⟨after, loaded, ?_, served⟩
    funext key type
    rw [rebuilt, served]

end

/-! The formats at work on plain names. -/

def decimal (n : Nat) : Text := Nat.toDigits 10 n

/-- `Ipv4Addr::to_string` -/
def dotted (address : UInt32) : Text :=
  let n := address.toNat
  ['.'].intercalate [decimal (n / 16777216), decimal (n / 65536 % 256), decimal (n / 256 % 256), decimal (n % 256)]

def jsonOf : RData Text → Text
  | .a address => "\x7b\"A\":\"".toList ++ dotted address ++ "\"\x7d".toList
  | .txt data =>
    let bytes (text : Text) := '[' :: [','].intercalate (text.map fun char => decimal char.toNat) ++ [']']
    "\x7b\"TXT\":\x7b\"txt_data\":[".toList ++ [','].intercalate (data.map bytes) ++ "]\x7d\x7d".toList
  | .cname target => "\x7b\"CNAME\":\"".toList ++ target ++ "\"\x7d".toList

/-- Plain names are their own texts; of the JSON texts it reads those of `known`. -/
def plainFormats (known : List (RData Text)) : Formats Text Text where
  nameFromStr := some
  lowerName := Text.lower
  nameToString := id
  toJson := jsonOf
  fromJson text := known.find? fun rdata => jsonOf rdata = text

def address (last : Nat) : RData Text := .a (.ofNat (167772160 + last))

private theorem plainFormats_kept {known : List (RData Text)} {name : Text} {rdata : RData Text}
    (plain : name.lower = name) (read : (known.find? fun other => jsonOf other = jsonOf rdata) = some rdata) :
    Kept (plainFormats known) (name, rdata) :=
  ⟨congrArg some plain, read⟩

/-- Three names, of which one is given its address again and again, and one a new target after a restart. -/
def busyEvents : List DnsEvent :=
  [.client (.a "foo.test.local.".toList 167772161), .client (.cname "www.test.local.".toList "foo.test.local.".toList),
    .client (.txt "foo.test.local.".toList "token".toList), .client (.a "Foo.test.local.".toList 167772161), .restart,
    .client (.cname "www.test.local.".toList "bar.test.local.".toList), .client (.a "bar.test.local.".toList 167772162),
    .client (.a "foo.test.local.".toList 167772161)]

def busyFormats : Formats Text Text :=
  plainFormats [address 1, address 2, .txt ["token".toList], .cname "foo.test.local.".toList, .cname "bar.test.local.".toList]

theorem restart_keeps_zone_busy : ∃ server after, runEvents busyFormats busyEvents = some server ∧
    makeDnsServer busyFormats server.persistence = some after ∧ after.authority = server.authority ∧
    after.authority "foo.test.local.".toList .a = [⟨1, address 1⟩] ∧
    after.authority "www.test.local.".toList .cname = [⟨1, .cname "bar.test.local.".toList⟩] := by
  have kept : AllKept busyFormats busyEvents := by
    have all : ∀ entry ∈ busyEvents.filterMap (DnsEvent.written busyFormats),
        entry.1.lower = entry.1 ∧ busyFormats.fromJson (busyFormats.toJson entry.2) = some entry.2 := by decide
    intro call member entry written
    obtain ⟨plain, read⟩ := all entry (List.mem_filterMap.mpr ⟨_, member, written⟩)
    exact ⟨congrArg some plain, read⟩
  obtain ⟨server, ran⟩ : ∃ server, runEvents busyFormats busyEvents = some server := ⟨_, rfl⟩
  have single : ∀ first ∈ busyEvents.filterMap (DnsEvent.written busyFormats),
      ∀ second ∈ busyEvents.filterMap (DnsEvent.written busyFormats), keyOf first = keyOf second →
        first.2.recordType ≠ .cname → first.2 = second.2 := by decide
  obtain ⟨after, loaded, same, served⟩ := (restart_keeps_zone kept ran).mpr (by
    intro key type other first inside second inside'
    obtain ⟨written, rfl⟩ := writtenSince_written inside
    obtain ⟨written', typed⟩ := writtenSince_written inside'
    exact single _ written _ written' (Prod.ext rfl typed.symm) other)
  refine ⟨server, after, ran, loaded, same, ?_, ?_⟩
  · rw [same, served]
    decide
  · rw [same, served]
    decide

/-- A name that is given a second address. -/
theorem restart_forgets_an_address : ∃ events server after,
    AllKept (plainFormats [address 1, address 2]) events ∧
    runEvents (plainFormats [address 1, address 2]) events = some server ∧
    makeDnsServer (plainFormats [address 1, address 2]) server.persistence = some after ∧
    server.authority "foo.test.local.".toList .a = [⟨1, address 1⟩, ⟨1, address 2⟩] ∧
    after.authority "foo.test.local.".toList .a = [⟨1, address 2⟩] := by
  refine ⟨[.client (.a "foo.test.local.".toList 167772161), .client (.a "foo.test.local.".toList 167772162)],
    _, _, ?_, rfl, rfl, ?_, ?_⟩
  · intro call member entry written
    rcases List.mem_cons.mp member with same | member
    · cases same
      cases written
      exact plainFormats_kept (by decide) (by decide)
    · cases List.mem_singleton.mp member
      cases written
      exact plainFormats_kept (by decide) (by decide)
  · decide
  · decide

end Pos2.Tunnel
