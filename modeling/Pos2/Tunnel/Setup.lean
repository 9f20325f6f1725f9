import Pos2.Calls.Fallible
import Pos2.Tunnel.Provenance

/-! The interactive setup of `tunnel/src/setup.rs` with the API client of `tunnel/src/web.rs`.
It talks to web servers that serve many other requests at the same time. -/

namespace Pos2.Tunnel
open Calls

structure ClientState where
  endpoint : Text
  token : Text
  domain : Text

inductive TunnelChoice where
  | known (domain : Text)
  | custom

inductive DomainChoice where
  | existing (domain : Text)
  | withSuffix (suffix : Text)

structure ApiTestResponse where
  email : Text
  domains : List Text
  availableSuffixes : List Text

/-- What the setup asks its user, the OAuth2 library and the HTTP client for. -/
inductive SetupCall where
  | selectTunnel (choices : List TunnelChoice)
  | selectDomain (choices : List DomainChoice)
  | promptText (message : String)
  | promptConfirmation (domain : Text)
  | exchangeDeviceCode (endpoint : Text)
  | exchangeDeviceAccessToken (endpoint deviceCode : Text)
  | send (endpoint : Text) (request : HttpRequest)

abbrev SetupCall.Value : SetupCall → Type
  | .selectTunnel _ => TunnelChoice
  | .selectDomain _ => DomainChoice
  | .promptText _ | .exchangeDeviceCode _ | .exchangeDeviceAccessToken _ _ => Text
  | .promptConfirmation _ => Bool
  | .send _ _ => Response

abbrev SetupCalls : Interface := .fallible SetupCall SetupCall.Value

/-- The body is a JSON object. -/
def Body.isObject : Body → Bool
  | .deviceAuthorization .. | .deviceToken .. | .oauth2Error _ | .apiTest .. | .apiRegisterDomain | .success => true
  | .empty | .extractor | .text _ | .html _ | .redirect _ => false

namespace Setup

/-- The request of `ApiClient::roundtrip`. Its JSON body has these fields. -/
def apiRequest (path key : Text) (json : Text → Except Nat Text) : HttpRequest where
  method := .get
  path := path
  secFetchSite := none
  origin := none
  cookies := []
  bearer := .ok key
  query := fun _ => .error 400
  form := fun _ => .error 415
  json := json

/-- The status of the response is not looked at. -/
def roundtrip {α : Type} (endpoint path key : Text) (json : Text → Except Nat Text) (decode : Body → Except String α) :
    Fallible SetupCalls α := do
  let response ← Fallible.ask (SetupCall.send endpoint (apiRequest path key json))
  Fallible.ofExcept (decode response.body)

def testRequest (endpoint key : Text) : Fallible SetupCalls ApiTestResponse :=
  roundtrip endpoint "/api/test".toList key (fun _ => .error 422) fun
    | .apiTest email domains availableSuffixes => .ok ⟨email, domains, availableSuffixes⟩
    | _ => .error "error decoding response body"

/-- `ApiRegisterDomainResponse` has no fields: it is decoded from any object. -/
def registerDomain (endpoint key domain : Text) : Fallible SetupCalls Unit :=
  roundtrip endpoint "/api/domain/register".toList key
    (fun name => if name = "domain".toList then .ok domain else .error 422) fun body =>
      if body.isObject then .ok () else .error "error decoding response body"

def runDevice (endpoint : Text) : Fallible SetupCalls Text := do
  let deviceCode ← Fallible.ask (SetupCall.exchangeDeviceCode endpoint)
  let token ← Fallible.ask (SetupCall.exchangeDeviceAccessToken endpoint deviceCode)
  let _ ← testRequest endpoint token
  return token

def chooseEndpoint (endpoints : List Text) : Fallible SetupCalls Text := do
  match ← Fallible.ask (SetupCall.selectTunnel (endpoints.map .known ++ [.custom])) with
  | .known endpoint => return endpoint
  | .custom => Fallible.ask (SetupCall.promptText "please enter a endpoint")

/-- The user may decline a domain as often as there are turns. -/
def chooseDomain (choices : List DomainChoice) : Nat → Fallible SetupCalls (Text × Bool)
  | 0 => Fallible.fail "undecided"
  | turns + 1 => do
    let (domain, new) ← match ← Fallible.ask (SetupCall.selectDomain choices) with
      | .existing domain => pure (domain, false)
      | .withSuffix suffix => do
        let start ← Fallible.ask (SetupCall.promptText "please pick a name before the suffix")
        pure (start ++ suffix, true)
    if ← Fallible.ask (SetupCall.promptConfirmation domain) then return (domain, new)
    else chooseDomain choices turns

def runInteractiveSetup (endpoints : List Text) (turns : Nat) : Fallible SetupCalls ClientState := do
  let endpoint ← chooseEndpoint endpoints
  let token ← runDevice endpoint
  let info ← testRequest endpoint token
  let choices := info.domains.map .existing ++ info.availableSuffixes.map .withSuffix
  if choices.length = 0 then Fallible.fail "sorry, you have no domains" else
  let (domain, new) ← chooseDomain choices turns
  if new then registerDomain endpoint token domain
  return ⟨endpoint, token, domain⟩

end Setup

section
variable {ι : Type} [DecidableEq ι]

/-- The web server of each endpoint. -/
abbrev Sites (ι : Type) := Text → Website ι

/-- Some task of the web server has answered this request so. -/
def HasAnswered (website : Website ι) (request : HttpRequest) (response : Response) : Prop :=
  ∃ task cookies, website.threads task = .done (some (request, some response, cookies))

/-- What a call of the setup may be answered. A choice is one of those offered, and a response
or an auth token comes from the web server. -/
def SetupCall.Answers (call : SetupCall) (value : call.Value) (sites : Sites ι) : Prop :=
  match call with
  | .selectTunnel choices => value ∈ choices
  | .selectDomain choices => value ∈ choices
  | .exchangeDeviceAccessToken endpoint _ => ∃ request status expiresIn,
    HasAnswered (sites endpoint) request ⟨status, .deviceToken value expiresIn⟩
  | .send endpoint request => HasAnswered (sites endpoint) request value
  | _ => True

/-- Between any two calls the web servers go on with whatever they serve. -/
def setupServes (servers : Text → ServerState) (urlencoded : UrlEncoding) : Handler SetupCalls (Sites ι) :=
  fun call before reply after =>
    (∀ endpoint, Website.Runs (servers endpoint) urlencoded (before endpoint) (after endpoint)) ∧
      ∀ value, reply = .ok value → call.Answers value after

variable {servers : Text → ServerState} {urlencoded : UrlEncoding} {state : ServerState} {website : Website ι}

theorem Website.Reachable.grows (reachable : website.Reachable state urlencoded)
    {after : Website ι} (runs : Website.Runs state urlencoded website after) :
    website.shared.journal <:+ after.shared.journal :=
  reachable.holds.run_grows (webRules_lawful.stable served_lasting)
    (webRules_lawful.begins served_lasting Website.lawfully) runs

theorem HasAnswered.truthful {request : HttpRequest} {response : Response}
    (answered : HasAnswered website request response) (reachable : website.Reachable state urlencoded) :
    Truthful state request response website.shared.journal := by
  obtain ⟨task, cookies, ended⟩ := answered
  exact reachable.holds.post ended request response cookies rfl

/-- No two handlers have a route in common. -/
theorem addressed_unique {request : HttpRequest} {name other : HandlerName} (addressed : Addressed request name)
    (also : Addressed request other) : name = other := by
  have routes : ∀ one ∈ Web.routes, ∀ two ∈ Web.routes, one.2.1 ≠ .head ∧
      (one.1 = two.1 → one.2.1 = two.2.1 → one.2.2 = two.2.2) := by decide
  obtain ⟨method, member, meets⟩ := addressed
  obtain ⟨method', member', meets'⟩ := also
  obtain ⟨notHead, same⟩ := routes _ member _ member'
  have notHead' := (routes _ member' _ member).1
  refine same rfl ?_
  rcases meets with meets | ⟨meets, head⟩
  · rcases meets' with meets' | ⟨meets', head'⟩
    · exact meets.trans meets'.symm
    · exact (notHead (meets.trans head')).elim
  · rcases meets' with meets' | ⟨meets', _⟩
    · exact (notHead' (meets'.trans head)).elim
    · exact meets.trans meets'.symm

/-- The owner of the auth token has the domain. -/
def Holder (token domain : Text) (journal : WebJournal ι) : Prop :=
  ∃ auth : AuthToken, auth.id = token ∧ Issued auth journal ∧ RegisteredDomain ⟨auth.userId, domain⟩ journal

omit [DecidableEq ι] in
theorem Holder.later {token domain : Text} {journal longer : WebJournal ι} (holder : Holder token domain journal)
    (grown : journal <:+ longer) : Holder token domain longer := by
  obtain ⟨auth, named, issued, registered⟩ := holder
  exact ⟨auth, named, Journal.Once.later issued grown, Journal.Once.later registered grown⟩

theorem Holder.allowed {token domain : Text} (holder : Holder token domain website.shared.journal)
    (reachable : website.Reachable state urlencoded) : Routes.Allowed website.shared.state.db ⟨domain, token⟩ := by
  obtain ⟨_, sound⟩ := reachable.holds.valid
  obtain ⟨auth, rfl, issued, registered⟩ := holder
  have member := (sound.recorded.authTokens auth).mpr issued
  refine ⟨auth, ?_, DB.mem_domainsOf.mpr ((sound.recorded.domains _).mpr registered)⟩
  cases found : website.shared.state.db.getAuthTokenById auth.id with
  | none =>
    have absent := List.find?_eq_none.mp found auth member
    simp at absent
  | some first =>
    have named : first.id = auth.id := by simpa using List.find?_some found
    rw [List.inj_on_of_nodup_map sound.unique.authTokens (List.mem_of_find?_eq_some found) member named]

/-- All web servers are in states that their runs lead to. -/
def Sites.Reachable (servers : Text → ServerState) (urlencoded : UrlEncoding) (sites : Sites ι) : Prop :=
  ∀ endpoint, Website.Reachable (servers endpoint) urlencoded (sites endpoint)

variable {before after : Sites ι}

/-- While a part of the setup runs, the web servers run. -/
theorem sites_run {α : Type} {function : Fallible SetupCalls α} {result : Except String α}
    (ends : function.Ends (setupServes servers urlencoded) before result after) (endpoint : Text) :
    Website.Runs (servers endpoint) urlencoded (before endpoint) (after endpoint) := by
  unfold Fallible.Ends at ends
  induction ends with
  | done => exact .refl
  | call served _ ih => exact (served.1 endpoint).trans ih

theorem Sites.Reachable.run {α : Type} {function : Fallible SetupCalls α} {result : Except String α}
    (reachable : before.Reachable servers urlencoded)
    (ends : function.Ends (setupServes servers urlencoded) before result after) : after.Reachable servers urlencoded :=
  fun endpoint => (reachable endpoint).trans (sites_run ends endpoint)

namespace Setup
variable (reachable : before.Reachable servers urlencoded)
include reachable

/-- Where a round trip succeeds the body was decoded of a truthful response. -/
theorem roundtrip_truthful {α : Type} {endpoint path key : Text} {json : Text → Except Nat Text}
    {decode : Body → Except String α} {value : α}
    (ends : (roundtrip endpoint path key json decode).Ends (setupServes servers urlencoded) before (.ok value) after) :
    ∃ response, decode response.body = .ok value ∧
      Truthful (servers endpoint) (apiRequest path key json) response (after endpoint).shared.journal := by
  rcases Fallible.ends_ask.mp ends with ⟨response, between, served, rest⟩ | ⟨error, _, impossible⟩
  · generalize decoded : decode response.body = outcome at rest
    cases rest
    have there : Website.Reachable (servers endpoint) urlencoded (after endpoint) :=
      (reachable endpoint).trans (served.1 endpoint)
    exact ⟨response, decoded, HasAnswered.truthful (served.2 response rfl) there⟩
  · cases impossible

private theorem testRequest_holds {endpoint key : Text} {info : ApiTestResponse}
    (ends : (testRequest endpoint key).Ends (setupServes servers urlencoded) before (.ok info) after) :
    ∀ domain ∈ info.domains, Holder key domain (after endpoint).shared.journal := by
  obtain ⟨response, decoded, truthful⟩ := roundtrip_truthful reachable ends
  obtain ⟨status, body⟩ := response
  cases body with
  | apiTest email domains suffixes =>
    cases decoded
    cases truthful with
    | refused refused => simp [Refused] at refused
    | answered name addressed told =>
      cases name with
      | apiTest =>
        obtain ⟨auth, _, _, same, bearer, issued, registered⟩ := told
        cases same
        cases bearer
        exact fun domain member => ⟨auth, rfl, issued, registered domain member⟩
      | oauth2DeviceToken => simp [Says] at told
      | apiRegisterDomain => simp [Says] at told
      | _ => exact (told.2 _ _ _ rfl).elim
  | _ => cases decoded

private theorem registerDomain_holds {endpoint key domain : Text}
    (ends : (registerDomain endpoint key domain).Ends (setupServes servers urlencoded) before (.ok ()) after) :
    Holder key domain (after endpoint).shared.journal := by
  obtain ⟨response, decoded, truthful⟩ := roundtrip_truthful reachable ends
  have object : response.body.isObject := by
    by_contra other
    rw [if_neg other] at decoded
    cases decoded
  cases truthful with
  | refused refused =>
    rcases refused with same | same | ⟨message, same⟩
    all_goals
      rw [same] at object
      cases object
  | answered name addressed told =>
    have listed : ("/api/domain/register".toList, HttpMethod.get, HandlerName.apiRegisterDomain) ∈ Web.routes := by
      decide
    have here : Addressed (apiRequest "/api/domain/register".toList key fun name =>
        if name = "domain".toList then .ok domain else .error 422) .apiRegisterDomain :=
      ⟨.get, listed, .inl rfl⟩
    obtain rfl := addressed_unique addressed here
    obtain ⟨_, auth, asked, bearer, issued, sent, registered⟩ := told
    cases bearer
    cases sent
    exact ⟨auth, rfl, issued, registered⟩

omit reachable

/-- A domain that is not new is one of those offered. -/
theorem chooseDomain_existing {choices : List DomainChoice} {turns : Nat} {domain : Text}
    (ends : (chooseDomain choices turns).Ends (setupServes servers urlencoded) before (.ok (domain, false)) after) :
    .existing domain ∈ choices := by
  induction turns generalizing before with
  | zero => cases ends
  | succ turns ih =>
    rcases Fallible.ends_ask.mp ends with ⟨choice, between, served, rest⟩ | ⟨error, _, impossible⟩
    · have offered : choice ∈ choices := served.2 choice rfl
      cases choice with
      | existing offer =>
        rcases Fallible.ends_ask.mp rest with ⟨ok, last, _, rest⟩ | ⟨error, _, impossible⟩
        · cases ok with
          | true =>
            cases rest
            exact offered
          | false => exact ih rest
        · cases impossible
      | withSuffix suffix =>
        rcases Fallible.ends_ask.mp rest with ⟨start, named, _, rest⟩ | ⟨error, _, impossible⟩
        · rcases Fallible.ends_ask.mp rest with ⟨ok, last, _, rest⟩ | ⟨error, _, impossible⟩
          · cases ok with
            | true => cases rest
            | false => exact ih rest
          · cases impossible
        · cases impossible
    · cases impossible

end Setup

omit [DecidableEq ι] in
private theorem run_journal {α : Type} (fresh : Fresh) (caller : Caller ι) (program : Program WebCalls α)
    (shared : Journaled WebCalls (Caller ι) WebDb) :
    ((program.as caller).run (Website.journalServe fresh) shared).1 = (program.run (webServe fresh) shared.state).1 := by
  induction program generalizing shared with
  | done value => rfl
  | call request next ih => exact ih _ _

/-- A request that was served at once has the answer it gets on its own. -/
theorem serve_answers {fresh : Fresh} {task : ι} {sent : HttpRequest} {response : Response}
    (answered : ((Web.makeRouter state urlencoded sent).run (webServe fresh) website.shared.state).1.1 = some response) :
    HasAnswered (website.serve state urlencoded fresh task sent) sent response := by
  refine ⟨task, ((Web.makeRouter state urlencoded sent).run (webServe fresh) website.shared.state).1.2, ?_⟩
  show Function.update website.threads task _ task = _
  rw [Function.update_self, Website.serving, run_journal, Program.run_bind, Program.run_done, ← answered]

theorem HasAnswered.serve {fresh : Fresh} {task : ι} {request sent : HttpRequest} {response : Response}
    (answered : HasAnswered website request response) (idle : website.threads task = .done none) :
    HasAnswered (website.serve state urlencoded fresh task sent) request response := by
  obtain ⟨other, cookies, ended⟩ := answered
  refine ⟨other, cookies, ?_⟩
  have different : other ≠ task := by
    rintro rfl
    rw [idle] at ended
    cases ended
  exact (Function.update_of_ne different _ _).trans ended

end

deriving instance DecidableEq for UserInfo
deriving instance DecidableEq for Page
deriving instance DecidableEq for Body
deriving instance DecidableEq for Response

namespace Setup

def testClient : HttpRequest := apiRequest "/api/test".toList "t".toList fun _ => .error 422

/-- The device of alice polls, and its setup asks for her domains. -/
def asked : Website Nat := Website.enrolled.serve Website.testServer anyEncoding Website.aliceIds 5 testClient

private theorem asked_reachable : Website.Reachable Website.testServer anyEncoding asked :=
  Website.enrolled_reachable.serve _ rfl _

/-- The setup goes through at a web server where nothing else happens. -/
theorem asked_ends : (runInteractiveSetup ["https://example.com".toList] 1).Ends
    (setupServes (fun _ => Website.testServer) anyEncoding) (fun _ => asked)
    (.ok ⟨"https://example.com".toList, "t".toList, "a.example.com".toList⟩) fun _ => asked := by
  let endpoint : Text := "https://example.com".toList
  let response : Response := ⟨200, .apiTest "alice@mail".toList ["a.example.com".toList] [".example.com".toList]⟩
  let poll := requestFor .post "/login/oauth/access_token".toList [] [] "device".toList [] []
  have tested : HasAnswered asked testClient response := serve_answers (by decide +kernel)
  have polled : HasAnswered asked poll ⟨200, .deviceToken "t".toList (60 * 60 * 24 * 365 * 10)⟩ := by
    refine HasAnswered.serve (HasAnswered.serve (serve_answers ?_) rfl) rfl
    decide +kernel
  have serves (call : SetupCall) (value : call.Value) (answers : call.Answers value fun _ => asked) :
      setupServes (fun _ => Website.testServer) anyEncoding call (fun _ => asked) (.ok value) fun _ => asked := by
    refine ⟨fun _ => .refl, ?_⟩
    rintro _ ⟨⟩
    exact answers
  refine .call (serves (.selectTunnel [.known endpoint, .custom]) (.known endpoint) (List.mem_cons_self ..)) ?_
  refine .call (serves (.exchangeDeviceCode endpoint) "device".toList trivial) ?_
  refine .call (serves (.exchangeDeviceAccessToken endpoint "device".toList) "t".toList ⟨_, _, _, polled⟩) ?_
  refine .call (serves (.send endpoint testClient) response tested) ?_
  refine .call (serves (.send endpoint testClient) response tested) ?_
  refine .call (serves (.selectDomain [.existing "a.example.com".toList, .withSuffix ".example.com".toList])
    (.existing "a.example.com".toList) (List.mem_cons_self ..)) ?_
  refine .call (serves (.promptConfirmation "a.example.com".toList) true trivial) ?_
  exact .done _ _

section
variable {ι : Type} [DecidableEq ι] {servers : Text → ServerState} {urlencoded : UrlEncoding} {before after : Sites ι}

/-- The auth token that the setup ends with is one of a user who has the domain it ends with,
so the tunnel server accepts a client with the two, then and ever after. -/
theorem setup_entitles (reachable : before.Reachable servers urlencoded) {endpoints : List Text} {turns : Nat}
    {client : ClientState}
    (ends : (runInteractiveSetup endpoints turns).Ends (setupServes servers urlencoded) before (.ok client) after)
    {later : Website ι} (goesOn : Website.Runs (servers client.endpoint) urlencoded (after client.endpoint) later) :
    Routes.Allowed later.shared.state.db ⟨client.domain, client.token⟩ := by
  rcases Fallible.ends_bind.mp ends with ⟨endpoint, chosen, chooses, ends⟩ | ⟨_, _, impossible⟩
  case inr => cases impossible
  rcases Fallible.ends_bind.mp ends with ⟨token, authorized, authorizes, ends⟩ | ⟨_, _, impossible⟩
  case inr => cases impossible
  rcases Fallible.ends_bind.mp ends with ⟨info, informed, informs, ends⟩ | ⟨_, _, impossible⟩
  case inr => cases impossible
  have reached := ((reachable.run chooses).run authorizes)
  have offered := testRequest_holds reached informs
  dsimp only at ends
  split at ends
  case isTrue => cases ends
  rcases Fallible.ends_bind.mp ends with ⟨⟨domain, new⟩, decided, decides, ends⟩ | ⟨_, _, impossible⟩
  case inr => cases impossible
  have informed_reachable := reached.run informs
  have decided_reachable := informed_reachable.run decides
  cases new with
  | false =>
    cases ends
    have member := chooseDomain_existing decides
    have existing : domain ∈ info.domains := by simpa using member
    have grown := (informed_reachable endpoint).grows (sites_run decides endpoint)
    have holder := ((offered domain existing).later grown).later ((decided_reachable endpoint).grows goesOn)
    exact holder.allowed ((decided_reachable endpoint).trans goesOn)
  | true =>
    rcases Fallible.ends_bind.mp ends with ⟨_, registered, registers, ends⟩ | ⟨_, _, impossible⟩
    case inr => cases impossible
    cases ends
    have there := decided_reachable.run registers endpoint
    have holder := (registerDomain_holds decided_reachable registers).later (there.grows goesOn)
    exact holder.allowed (there.trans goesOn)

end

theorem setup_entitles_asked : Routes.Allowed asked.shared.state.db ⟨"a.example.com".toList, "t".toList⟩ :=
  setup_entitles (fun _ => asked_reachable) asked_ends .refl

end Setup
end Pos2.Tunnel
