import Mathlib.Data.List.Nodup
import Pos2.Keyed
import Pos2.Text

/-! Header maps and the fields of `wasi:http`, from the `helpers` of
`wasi3app/src/wasip3_http_wrapper/wasip3_http_ext/mod.rs`. -/

namespace Pos2.Wasi

abbrev Bytes := List UInt8

/-- `types::ErrorCode`. What no code here tells apart is `other`. -/
inductive HttpErrorCode where
  | internalError (message : Option Text)
  | httpRequestMethodInvalid
  | httpRequestUriInvalid
  | httpProtocolError
  | other (name : Text)
  deriving DecidableEq

/-- `to_internal_error_code` -/
def toInternalErrorCode (text : Text) : HttpErrorCode := .internalError (some text)

inductive HeaderError where
  | invalidSyntax
  | forbidden
  | immutable
  deriving DecidableEq

/-- Names and values of the `http` crate; the errors are what they are shown as. -/
structure HeaderTypes (ν υ : Type) where
  parseName : Text → Except Text ν
  nameText : ν → Text
  parseValue : Bytes → Except Text υ
  valueBytes : υ → Bytes

/-- What a name or a value is written as is read as itself. -/
structure HeaderTypes.Lawful {ν υ : Type} (types : HeaderTypes ν υ) : Prop where
  name : ∀ name, types.parseName (types.nameText name) = .ok name
  value : ∀ value, types.parseValue (types.valueBytes value) = .ok value

/-- A name with all its values, of which there is at least one. -/
structure HeaderEntry (ν υ : Type) where
  name : ν
  first : υ
  more : List υ
  deriving DecidableEq

namespace HeaderEntry
variable {ν υ : Type}

def values (entry : HeaderEntry ν υ) : List υ := entry.first :: entry.more

def push (value : υ) (entry : HeaderEntry ν υ) : HeaderEntry ν υ := { entry with more := entry.more ++ [value] }

@[simp] theorem push_name (value : υ) (entry : HeaderEntry ν υ) : (entry.push value).name = entry.name := rfl

@[simp] theorem push_values (value : υ) (entry : HeaderEntry ν υ) :
    (entry.push value).values = entry.values ++ [value] := rfl

variable [DecidableEq ν]

def valuesOf (name : ν) (entries : List (HeaderEntry ν υ)) : List υ :=
  ((Keyed.find HeaderEntry.name name entries).map values).getD []

private theorem valuesOf_cons (name : ν) (entry : HeaderEntry ν υ) (rest : List (HeaderEntry ν υ)) :
    valuesOf name (entry :: rest) = if entry.name = name then entry.values else valuesOf name rest := by
  by_cases same : entry.name = name <;> simp [valuesOf, Keyed.find_cons, same]

private theorem valuesOf_push (name : ν) (value : υ) (asked : ν) (entries : List (HeaderEntry ν υ)) :
    valuesOf asked (Keyed.revise HeaderEntry.name (·.push value) ⟨name, value, []⟩ entries) =
      if name = asked then valuesOf asked entries ++ [value] else valuesOf asked entries := by
  rw [valuesOf, Keyed.find_revise (by simp)]
  by_cases same : name = asked
  · cases found : Keyed.find HeaderEntry.name asked entries with
    | none => simp [valuesOf, same, found, values]
    | some entry => simp [valuesOf, same, found]
  · simp [valuesOf, same]

private theorem valuesOf_replaced (entry : HeaderEntry ν υ) (asked : ν) (entries : List (HeaderEntry ν υ)) :
    valuesOf asked (Keyed.revise HeaderEntry.name (fun _ => entry) entry entries) =
      if entry.name = asked then entry.values else valuesOf asked entries := by
  rw [valuesOf, Keyed.find_revise (fun _ _ => rfl)]
  by_cases same : entry.name = asked
  · cases found : Keyed.find HeaderEntry.name asked entries <;> simp [same]
  · simp [valuesOf, same]

end HeaderEntry

/-- `http::HeaderMap`. Its names are apart. -/
@[ext] structure HeaderMap (ν υ : Type) where
  entries : List (HeaderEntry ν υ)
  distinct : (entries.map HeaderEntry.name).Nodup

namespace HeaderMap
variable {ν υ : Type}

def new : HeaderMap ν υ := ⟨[], List.nodup_nil⟩

def isEmpty (map : HeaderMap ν υ) : Bool := map.entries.isEmpty

theorem eq_new {map : HeaderMap ν υ} (empty : map.isEmpty = true) : map = new :=
  HeaderMap.ext (List.isEmpty_iff.mp empty)

/-- `iter` -/
def iter (map : HeaderMap ν υ) : List (ν × υ) :=
  map.entries.flatMap fun entry => entry.values.map fun value => (entry.name, value)

/-- `into_iter`, which names each entry once. -/
def intoIter (map : HeaderMap ν υ) : List (Option ν × υ) :=
  map.entries.flatMap fun entry => (some entry.name, entry.first) :: entry.more.map fun value => (none, value)

variable [DecidableEq ν]

def getAll (map : HeaderMap ν υ) (name : ν) : List υ := HeaderEntry.valuesOf name map.entries

def append (map : HeaderMap ν υ) (name : ν) (value : υ) : HeaderMap ν υ where
  entries := Keyed.revise HeaderEntry.name (·.push value) ⟨name, value, []⟩ map.entries
  distinct := Keyed.revise_distinct (by simp) map.distinct

/-- One round of `extend`: what was under the name is replaced. -/
def replace (map : HeaderMap ν υ) (entry : HeaderEntry ν υ) : HeaderMap ν υ where
  entries := Keyed.revise HeaderEntry.name (fun _ => entry) entry map.entries
  distinct := Keyed.revise_distinct (fun _ _ => rfl) map.distinct

/-- `Extend` with another map -/
def extend (map other : HeaderMap ν υ) : HeaderMap ν υ := other.entries.foldl replace map

@[simp] theorem getAll_new (name : ν) : (new : HeaderMap ν υ).getAll name = [] := rfl

private theorem getAll_append (map : HeaderMap ν υ) (name : ν) (value : υ) (asked : ν) :
    (map.append name value).getAll asked =
      if name = asked then map.getAll asked ++ [value] else map.getAll asked :=
  HeaderEntry.valuesOf_push name value asked map.entries

/-- The other map's values take the place of those that were there. -/
theorem getAll_extend (map other : HeaderMap ν υ) (asked : ν) :
    (map.extend other).getAll asked =
      if asked ∈ other.entries.map HeaderEntry.name then other.getAll asked else map.getAll asked := by
  obtain ⟨entries, distinct⟩ := other
  simp only [extend, getAll]
  induction entries generalizing map with
  | nil => simp
  | cons entry rest ih =>
    rw [List.map_cons, List.nodup_cons] at distinct
    rw [List.foldl_cons, ih _ distinct.2, HeaderEntry.valuesOf_cons, replace, HeaderEntry.valuesOf_replaced]
    by_cases same : entry.name = asked
    · rw [same] at distinct
      simp [same, distinct.1]
    · simp [same, Ne.symm same]

end HeaderMap

/-- `types::Fields`, as `copy_all` gives them. -/
abbrev Fields := List (Text × Bytes)

/-- The names and values that the host does not let through. -/
abbrev FieldRules := Fields → Option HeaderError

/-- `Fields::from_list` -/
def Fields.fromList (rules : FieldRules) (entries : List (Text × Bytes)) : Except HeaderError Fields :=
  match rules entries with
  | some error => .error error
  | none => .ok entries

section
variable {ν υ : Type} (types : HeaderTypes ν υ)

/-- The walk of `header_map_to_field_entries` with its `last_name`. -/
def namedEntries (lastName : Option ν) : List (Option ν × υ) → Option (List (Text × Bytes))
  | [] => some []
  | (name, value) :: rest =>
    let lastName := if name.isSome then name else lastName
    match lastName with
    -- `expect` panics
    | none => none
    | some last => (namedEntries lastName rest).map ((types.nameText last, types.valueBytes value) :: ·)

/-- `header_map_to_field_entries` -/
def headerMapToFieldEntries (map : HeaderMap ν υ) : Option (List (Text × Bytes)) := namedEntries types none map.intoIter

def asField (header : ν × υ) : Text × Bytes := (types.nameText header.1, types.valueBytes header.2)

private theorem namedEntries_more (name : ν) (values : List υ) (rest : List (Option ν × υ)) :
    namedEntries types (some name) (values.map (fun value => (none, value)) ++ rest) =
      (namedEntries types (some name) rest).map
        (values.map (fun value => asField types (name, value)) ++ ·) := by
  induction values with
  | nil => simp
  | cons value values ih =>
    simp only [List.map_cons, List.cons_append, namedEntries, Option.isSome_none, Bool.false_eq_true, if_false, ih,
      Option.map_map]
    rfl

private theorem namedEntries_entries (lastName : Option ν) (entries : List (HeaderEntry ν υ)) :
    namedEntries types lastName
        (entries.flatMap fun entry => (some entry.name, entry.first) :: entry.more.map fun value => (none, value)) =
      some ((entries.flatMap fun entry => entry.values.map fun value => (entry.name, value)).map (asField types)) := by
  induction entries generalizing lastName with
  | nil => rfl
  | cons entry rest ih =>
    simp only [List.flatMap_cons, List.cons_append, namedEntries, Option.isSome_some, if_true, namedEntries_more, ih]
    simp [asField, HeaderEntry.values]

/-- Every value gets the name that it has in the map, and nothing panics. -/
theorem headerMapToFieldEntries_eq (map : HeaderMap ν υ) :
    headerMapToFieldEntries types map = some (map.iter.map (asField types)) :=
  namedEntries_entries types none map.entries

/-- `header_map_to_fields` -/
def headerMapToFields (rules : FieldRules) (map : HeaderMap ν υ) : Option (Except HeaderError Fields) :=
  (headerMapToFieldEntries types map).map (Fields.fromList rules)

variable [DecidableEq ν]

/-- One step of `fields_to_header_map`: the value is looked at first. -/
def appendField (map : HeaderMap ν υ) (field : Text × Bytes) : Except HttpErrorCode (HeaderMap ν υ) := do
  let value ← (types.parseValue field.2).mapError toInternalErrorCode
  let name ← (types.parseName field.1).mapError toInternalErrorCode
  return map.append name value

/-- `fields_to_header_map` -/
def fieldsToHeaderMap (fields : Fields) : Except HttpErrorCode (HeaderMap ν υ) :=
  fields.foldlM (appendField types) HeaderMap.new

variable {types}

private theorem appendField_asField (lawful : types.Lawful) (map : HeaderMap ν υ) (header : ν × υ) :
    appendField types map (asField types header) = .ok (map.append header.1 header.2) := by
  simp [appendField, asField, lawful.name, lawful.value, Except.mapError, bind, Except.bind, pure, Except.pure]

private theorem foldlM_asField (lawful : types.Lawful) (headers : List (ν × υ)) (map : HeaderMap ν υ) :
    (headers.map (asField types)).foldlM (appendField types) map =
      .ok (headers.foldl (fun map header => map.append header.1 header.2) map) := by
  induction headers generalizing map with
  | nil => rfl
  | cons header rest ih =>
    rw [List.map_cons, List.foldlM_cons, appendField_asField lawful, List.foldl_cons, ← ih]
    rfl

end

namespace HeaderMap
variable {ν υ : Type} [DecidableEq ν]

private theorem append_new {map : HeaderMap ν υ} {name : ν} {value : υ}
    (absent : name ∉ map.entries.map HeaderEntry.name) :
    (map.append name value).entries = map.entries ++ [⟨name, value, []⟩] :=
  Keyed.revise_absent _ absent

/-- All values of a name, put in one by one, behind those that came with it. -/
theorem append_more {front : List (HeaderEntry ν υ)} {name : ν} (absent : name ∉ front.map HeaderEntry.name)
    (values : List υ) {map : HeaderMap ν υ} {first : υ} {more : List υ} (same : map.entries = front ++ [⟨name, first, more⟩]) :
    ((values.map (fun value => (name, value))).foldl (fun map header => map.append header.1 header.2) map).entries =
      front ++ [⟨name, first, more ++ values⟩] := by
  induction values generalizing map more with
  | nil => simpa using same
  | cons value rest ih =>
    have pushed : (map.append name value).entries = front ++ [⟨name, first, more ++ [value]⟩] := by
      simp only [append, same]
      exact Keyed.revise_last _ rfl absent
    rw [List.map_cons, List.foldl_cons, ih pushed]
    simp

/-- The values of a map, put one by one into another that has none of its names. -/
theorem append_all (entries : List (HeaderEntry ν υ)) {map : HeaderMap ν υ}
    (distinct : ((map.entries ++ entries).map HeaderEntry.name).Nodup) :
    ((entries.flatMap fun entry => entry.values.map fun value => (entry.name, value)).foldl
      (fun map header => map.append header.1 header.2) map).entries = map.entries ++ entries := by
  induction entries generalizing map with
  | nil => simp
  | cons entry rest ih =>
    have absent : entry.name ∉ map.entries.map HeaderEntry.name := by
      rw [List.map_append, List.nodup_append'] at distinct
      intro inside
      exact distinct.2.2 inside (by simp)
    have alone : (map.append entry.name entry.first).entries = map.entries ++ [⟨entry.name, entry.first, []⟩] :=
      append_new absent
    have whole := append_more absent entry.more alone
    rw [List.nil_append] at whole
    simp only [List.flatMap_cons, List.foldl_append, HeaderEntry.values, List.map_cons, List.foldl_cons]
    simp only [HeaderEntry.values, List.map_cons] at ih
    rw [ih] <;> rw [whole]
    · simp
    · simpa using distinct

private theorem extend_all (entries : List (HeaderEntry ν υ)) {map : HeaderMap ν υ}
    (distinct : ((map.entries ++ entries).map HeaderEntry.name).Nodup) :
    (entries.foldl replace map).entries = map.entries ++ entries := by
  induction entries generalizing map with
  | nil => simp
  | cons entry rest ih =>
    have absent : entry.name ∉ map.entries.map HeaderEntry.name := by
      rw [List.map_append, List.nodup_append'] at distinct
      intro inside
      exact distinct.2.2 inside (by simp)
    have last : (map.replace entry).entries = map.entries ++ [entry] := Keyed.revise_absent _ absent
    rw [List.foldl_cons, ih] <;> rw [last]
    · simp
    · simpa using distinct

@[simp] theorem new_extend (map : HeaderMap ν υ) : new.extend map = map :=
  HeaderMap.ext (extend_all map.entries (by simpa [new] using map.distinct))

theorem rebuilt (map : HeaderMap ν υ) :
    map.iter.foldl (fun map header => map.append header.1 header.2) new = map := by
  apply HeaderMap.ext
  rw [iter, append_all map.entries (by simpa [new] using map.distinct)]
  rfl

end HeaderMap

section
variable {ν υ : Type} [DecidableEq ν] {types : HeaderTypes ν υ}

/-- What the host lets through of a map is read as the same map. -/
theorem headerMap_survives (lawful : types.Lawful) {rules : FieldRules} {map : HeaderMap ν υ} {fields : Fields}
    (accepted : headerMapToFields types rules map = some (.ok fields)) :
    fieldsToHeaderMap types fields = .ok map := by
  rw [headerMapToFields, headerMapToFieldEntries_eq, Option.map_some, Option.some.injEq, Fields.fromList] at accepted
  split at accepted
  · cases accepted
  · injection accepted with same
    rw [← same, fieldsToHeaderMap, foldlM_asField lawful, HeaderMap.rebuilt]

def fieldValue (types : HeaderTypes ν υ) (asked : ν) (field : Text × Bytes) : Option υ :=
  match types.parseName field.1, types.parseValue field.2 with
  | .ok name, .ok value => if name = asked then some value else none
  | _, _ => none

private theorem appendField_ok {map later : HeaderMap ν υ} {field : Text × Bytes}
    (read : appendField types map field = .ok later) (asked : ν) :
    later.getAll asked = map.getAll asked ++ (fieldValue types asked field).toList := by
  simp only [appendField, fieldValue] at read ⊢
  cases value : types.parseValue field.2 with
  | error => simp [value, Except.mapError, bind, Except.bind] at read
  | ok value =>
    cases name : types.parseName field.1 with
    | error => simp_all [Except.mapError, bind, Except.bind]
    | ok name =>
      simp_all only [Except.mapError, bind, Except.bind, pure, Except.pure, Except.ok.injEq]
      subst read
      rw [HeaderMap.getAll_append]
      split <;> simp

private theorem foldlM_appendField {fields : Fields} {start map : HeaderMap ν υ}
    (read : fields.foldlM (appendField types) start = .ok map) (asked : ν) :
    map.getAll asked = start.getAll asked ++ fields.filterMap (fieldValue types asked) := by
  induction fields generalizing start with
  | nil =>
    cases read
    simp
  | cons field rest ih =>
    rw [List.foldlM_cons] at read
    cases first : appendField types start field with
    | error => simp [first, bind, Except.bind] at read
    | ok next =>
      rw [first] at read
      rw [ih read, appendField_ok first asked]
      cases shown : fieldValue types asked field <;> simp [shown]

/-- Fields that are read keep, under each name, their values in order. -/
theorem fieldsToHeaderMap_gathers {fields : Fields} {map : HeaderMap ν υ}
    (read : fieldsToHeaderMap types fields = .ok map) (asked : ν) :
    map.getAll asked = fields.filterMap (fieldValue types asked) := by
  rw [foldlM_appendField read, HeaderMap.getAll_new, List.nil_append]

end

end Pos2.Wasi
