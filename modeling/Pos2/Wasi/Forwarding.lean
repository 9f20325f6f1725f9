import Mathlib.Data.List.TakeWhile
import Pos2.Calls.Method
import Pos2.Text

/-! How `wasi3experiment/src/main.rs` passes a request on to an app: `run_handler`
takes the URI apart, and puts it together again without the app's name. -/

namespace Pos2.Wasi
open Calls

structure PathAndQuery where
  path : Text
  query : Option Text
  deriving DecidableEq

/-- `Display` -/
def PathAndQuery.text (pq : PathAndQuery) : Text :=
  pq.path ++ match pq.query with
    | some query => '?' :: query
    | none => []

structure Parts where
  scheme : Option Text
  authority : Option Text
  pathAndQuery : Option PathAndQuery
  deriving DecidableEq

/-- What the handler uses of the `http` crate. -/
structure Http (Uri : Type) where
  intoParts : Uri → Parts
  fromParts : Parts → Option Uri
  parse : Text → Option PathAndQuery

/-- The crate as it is documented: a path and query that was read makes a URI in the
place of another; the end of a path, from a slash on, is a path without a query; and
what is read is the start of the text, which leaves out no more than a fragment. -/
structure Http.Documented {Uri : Type} (http : Http Uri) : Prop where
  remakes : ∀ uri old text new, (http.intoParts uri).pathAndQuery = some old → http.parse text = some new →
    ∃ made, http.fromParts { http.intoParts uri with pathAndQuery := some new } = some made ∧
      http.intoParts made = { http.intoParts uri with pathAndQuery := some new }
  ending : ∀ uri pq front rest, (http.intoParts uri).pathAndQuery = some pq → pq.path = front ++ '/' :: rest →
    http.parse ('/' :: rest) = some ⟨'/' :: rest, none⟩
  starts : ∀ rest pq, http.parse ('/' :: rest) = some pq → pq.text <+: '/' :: rest

inductive BadPath where
  | badPath
  deriving DecidableEq

def APPS : Text := "/apps/".toList

section
variable {Uri App : Type} (http : Http Uri) (instances : Text → Option App)

/-- The instance that gets the request, and the URI that the request then has. -/
def runHandler (uri : Uri) : Outcome BadPath (App × Uri) :=
  match (http.intoParts uri).pathAndQuery with
  | none => .err .badPath
  | some pq =>
    -- a slice that starts behind the end panics
    if pq.path.length < APPS.length then .panic else
    let path := pq.path.drop APPS.length
    let query := pq.query.getD []
    match path.findIdx? (· = '/') with
    | none => .err .badPath
    | some slash =>
      let appName := path.take slash
      let path := path.drop slash
      match instances appName with
      | none => .panic
      | some app =>
        match http.parse (path ++ query) with
        | none => .panic
        | some newPath =>
          match http.fromParts { http.intoParts uri with pathAndQuery := some newPath } with
          | none => .panic
          | some uri => .ok (app, uri)

/-- The app gets the request without its own name in the path, and all else as it was. -/
def Intact (uri : Uri) (appName path : Text) (query : Option Text) : Prop :=
  ∃ app made, runHandler http instances uri = .ok (app, made) ∧ instances appName = some app ∧
    http.intoParts made = { http.intoParts uri with pathAndQuery := some ⟨path, query⟩ }

private theorem find_slash {appName rest : Text} (segment : '/' ∉ appName) :
    (appName ++ '/' :: rest).findIdx? (· = '/') = some appName.length := by
  have none_ : appName.findIdx? (· = '/') = none := by
    apply List.findIdx?_eq_none_iff.mpr
    intro c member
    simp only [decide_eq_false_iff_not]
    rintro rfl
    exact segment member
  simp [List.findIdx?_append, List.findIdx?_cons, none_]

section
variable {http instances} {uri : Uri} {pq : PathAndQuery} {appName rest : Text}

/-- On a route of an app the handler reads the path and the query without their separator. -/
theorem runHandler_routed (has : (http.intoParts uri).pathAndQuery = some pq)
    (routed : pq.path = APPS ++ appName ++ '/' :: rest) (segment : '/' ∉ appName) :
    runHandler http instances uri =
      match instances appName with
      | none => .panic
      | some app =>
        match http.parse ('/' :: (rest ++ pq.query.getD [])) with
        | none => .panic
        | some newPath =>
          match http.fromParts { http.intoParts uri with pathAndQuery := some newPath } with
          | none => .panic
          | some uri => .ok (app, uri) := by
  have long : ¬ pq.path.length < APPS.length := by
    rw [routed]
    simp only [List.length_append]
    omega
  have path : pq.path.drop APPS.length = appName ++ '/' :: rest := by
    rw [routed, List.append_assoc, List.drop_left]
  rw [runHandler, has]
  dsimp only
  rw [if_neg long, path, find_slash segment]
  dsimp only
  rw [List.take_left, List.drop_left, List.cons_append]

/-- A request is passed on intact if and only if its app runs and it has no query:
the query loses the `?` that separates it from the path. -/
theorem runHandler_intact (documented : http.Documented) (has : (http.intoParts uri).pathAndQuery = some pq)
    (routed : pq.path = APPS ++ appName ++ '/' :: rest) (segment : '/' ∉ appName) :
    Intact http instances uri appName ('/' :: rest) pq.query ↔ (instances appName).isSome ∧ pq.query = none := by
  constructor
  · intro ⟨app, made, forwarded, runs, intact⟩
    refine ⟨by rw [runs]; rfl, ?_⟩
    rw [runHandler_routed has routed segment, runs] at forwarded
    dsimp only at forwarded
    cases parsed : http.parse ('/' :: (rest ++ pq.query.getD [])) with
    | none => simp [parsed] at forwarded
    | some newPath =>
      obtain ⟨other, remade, parts⟩ := documented.remakes uri pq _ newPath has parsed
      simp only [parsed, remade, Outcome.ok.injEq, Prod.mk.injEq] at forwarded
      obtain ⟨_, rfl⟩ := forwarded
      rw [parts] at intact
      injection intact with _ _ same
      cases same
      cases query : pq.query with
      | none => rfl
      | some query_ =>
        -- the text has no room for the separator
        have start := documented.starts _ _ parsed
        have short := start.length_le
        simp only [PathAndQuery.text, query, List.length_append, List.length_cons, Option.getD_some] at short
        omega
  · intro ⟨runs, query⟩
    obtain ⟨app, runs⟩ := Option.isSome_iff_exists.mp runs
    have parsed := documented.ending uri pq _ rest has routed
    obtain ⟨made, remade, parts⟩ := documented.remakes uri pq _ _ has parsed
    refine ⟨app, made, ?_, runs, by rw [parts, query]⟩
    rw [runHandler_routed has routed segment, runs, query]
    dsimp only
    rw [Option.getD_none, List.append_nil, parsed]
    dsimp only
    rw [remade]

end
end

/-! ### A URI of plain characters -/

namespace Plain

/-- What may stand in a path as it is. -/
def pathChar (c : Char) : Bool :=
  c = '!' || c = '=' || c = '|' || c = '~' || c = '"' || c = '\x7b' || c = '\x7d' ||
    ('$' ≤ c && c ≤ ';') || ('@' ≤ c && c ≤ '_') || ('a' ≤ c && c ≤ 'z') || '\x7f' ≤ c

def queryChar (c : Char) : Bool := c = '!' || c = '=' || ('$' ≤ c && c ≤ ';') || '?' ≤ c

def parse (text : Text) : Option PathAndQuery :=
  let path := text.takeWhile pathChar
  match text.dropWhile pathChar with
  | [] => some ⟨path, none⟩
  | '#' :: _ => some ⟨path, none⟩
  | '?' :: rest =>
    let query := rest.takeWhile queryChar
    match rest.dropWhile queryChar with
    | [] => some ⟨path, some query⟩
    | '#' :: _ => some ⟨path, some query⟩
    | _ => none
  | _ => none

/-- A scheme goes with an authority, and both with a path. -/
def Valid (parts : Parts) : Prop :=
  match parts.pathAndQuery with
  | some pq => pq.path.all pathChar = true ∧ parts.scheme.isSome = parts.authority.isSome
  | none => parts.scheme = none

instance (parts : Parts) : Decidable (Valid parts) := by
  unfold Valid
  split <;> infer_instance

def http : Http { parts : Parts // Valid parts } where
  intoParts uri := uri.val
  fromParts parts := if valid : Valid parts then some ⟨parts, valid⟩ else none
  parse := parse

private theorem parse_path {text : Text} {pq : PathAndQuery} (parsed : parse text = some pq) :
    pq.path.all pathChar = true ∧ pq.text <+: text := by
  have chars : (text.takeWhile pathChar).all pathChar = true := List.all_takeWhile
  have whole := List.takeWhile_append_dropWhile (p := pathChar) (l := text)
  unfold parse at parsed
  dsimp only at parsed
  split at parsed
  next path =>
    cases parsed
    exact ⟨chars, by simpa [PathAndQuery.text] using List.takeWhile_prefix pathChar⟩
  next path =>
    cases parsed
    exact ⟨chars, by simpa [PathAndQuery.text] using List.takeWhile_prefix pathChar⟩
  next rest separator =>
    have query : rest.takeWhile queryChar <+: rest := List.takeWhile_prefix queryChar
    have start : text.takeWhile pathChar ++ '?' :: rest.takeWhile queryChar <+: text := by
      rw [separator] at whole
      nth_rewrite 2 [← whole]
      exact (List.prefix_append_right_inj _).mpr ((List.prefix_cons_inj _).mpr query)
    split at parsed
    · cases parsed
      exact ⟨chars, start⟩
    · cases parsed
      exact ⟨chars, start⟩
    · cases parsed
  next => cases parsed

private theorem parse_all {path : Text} (chars : path.all pathChar = true) : parse path = some ⟨path, none⟩ := by
  have taken : path.takeWhile pathChar = path := List.takeWhile_eq_self_iff.mpr (List.all_eq_true.mp chars)
  have dropped : path.dropWhile pathChar = [] := List.dropWhile_eq_nil_iff.mpr (List.all_eq_true.mp chars)
  simp only [parse, taken, dropped]

theorem documented : http.Documented where
  remakes := by
    intro uri old text new has parsed
    have valid : Valid { uri.val with pathAndQuery := some new } := by
      have before := uri.property
      unfold Valid at before
      rw [show uri.val.pathAndQuery = some old from has] at before
      exact ⟨(parse_path parsed).1, before.2⟩
    exact ⟨⟨_, valid⟩, dif_pos valid, rfl⟩
  ending := by
    intro uri pq front rest has path
    have valid := uri.property
    unfold Valid at valid
    rw [show uri.val.pathAndQuery = some pq from has] at valid
    have chars := valid.1
    rw [path, List.all_append, Bool.and_eq_true] at chars
    exact parse_all chars.2
  starts := fun _ _ parsed => (parse_path parsed).2

private theorem notes_path : "/apps/notes/list".toList.all pathChar = true := by decide

/-- A request for a page of an app that runs. -/
def request (query : Option Text) : { parts : Parts // Valid parts } :=
  ⟨⟨none, none, some ⟨"/apps/notes/list".toList, query⟩⟩, notes_path, rfl⟩

def running : Text → Option Unit := fun appName => if appName = "notes".toList then some () else none

theorem request_intact : Intact http running (request none) "notes".toList "/list".toList none := by
  have has : (http.intoParts (request none)).pathAndQuery = some ⟨"/apps/notes/list".toList, none⟩ := rfl
  have routed : "/apps/notes/list".toList = APPS ++ "notes".toList ++ '/' :: "list".toList := by decide
  have segment : '/' ∉ "notes".toList := by decide
  have runs : (running "notes".toList).isSome := by decide
  exact (runHandler_intact documented has routed segment).mpr ⟨runs, rfl⟩

theorem query_not_intact :
    ¬ Intact http running (request (some "page=2".toList)) "notes".toList "/list".toList (some "page=2".toList) := by
  intro ⟨app, made, forwarded, _, intact⟩
  have path : (runHandler http running (request (some "page=2".toList))) =
      .ok ((), ⟨⟨none, none, some ⟨"/listpage=2".toList, none⟩⟩, by decide⟩) := by rfl
  rw [path] at forwarded
  cases forwarded
  cases intact

end Plain

end Pos2.Wasi
