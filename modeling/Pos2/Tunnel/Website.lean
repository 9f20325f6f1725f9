import Pos2.Tunnel.Accounts
import Pos2.Tunnel.DeviceExchange

/-! Every request keeps to the rules of the tables, whatever other requests do between
its calls. So no query for the user of a session or an auth token comes back empty. -/

namespace Pos2.Tunnel
open Calls

section
variable {ι : Type} {caller : Caller ι} {journal : WebJournal ι} {before after : WebDb}

theorem Answers.same {α : Type} {value : α} {reply : Except String α} (answered : Answers value before reply after) :
    after = before := by
  cases reply with
  | ok answer => exact answered.2
  | error error => exact answered

private theorem Answers.eq {α : Type} {value answer : α} {reply : Except String α}
    (answered : Answers value before reply after)
    (ok : reply = .ok answer) : answer = value := by
  subst ok
  exact answered.1

/-- A query leaves the tables as they are. -/
theorem WebDb.Sound.read {α : Type} {value : α} {reply : Except String α} {entry : WebEntry ι}
    (sound : before.Sound journal) (answered : Answers value before reply after) (quiet : Quiet entry) :
    after.Sound (entry :: journal) := by
  rw [answered.same]
  exact sound.quiet quiet

variable {state : ServerState} {urlencoded : UrlEncoding}

private theorem device_step (sound : before.Sound journal) {request : DbRequest} {reply : Except String request.Value}
    (needs : WebCall.Needs state urlencoded caller (.device request) journal)
    (served : webServes (.device request) before reply after) :
    WebCall.Tells (.device request) reply journal ∧ after.Sound (⟨caller, .device request, reply⟩ :: journal) := by
  obtain ⟨history, served, rfl⟩ := served
  cases request with
  | getDeviceTokenByDeviceCode code =>
    have same : history = ⟨before.db, [], [], []⟩ := by
      cases reply with
      | ok value => exact served.2
      | error error => exact served
    subst same
    refine ⟨?_, sound.quiet (by constructor <;> simp)⟩
    rintro row rfl
    have found : before.db.getDeviceTokenByDeviceCode code = some row := served.1.symm
    have named := DB.getDeviceToken_code found
    refine ⟨named, fun approved => ?_⟩
    have member := List.mem_of_find?_eq_some found
    rw [← named]
    exact ⟨sound.recorded.approvals row member (.inl approved),
      sound.recorded.hasUser.mpr (sound.referential.approvers row member (.inl approved))⟩
  | insertDeviceToken token =>
    refine ⟨trivial, ?_⟩
    cases reply with
    | ok value =>
      obtain ⟨db, inserted, rfl⟩ := served
      exact sound.insertDevice inserted needs
    | error error =>
      rw [show history = _ from served]
      exact sound.quiet (by constructor <;> simp)
  | updateDeviceToken purpose token =>
    refine ⟨trivial, ?_⟩
    cases reply with
    | ok value =>
      cases purpose with
      | exchange =>
        obtain ⟨db, updated, rfl⟩ := served
        obtain ⟨_, approved, has⟩ := needs
        exact sound.updateDevice updated fun _ => ⟨sound.recorded.hasUser.mp has, .next approved⟩
      | decide decision =>
        obtain ⟨db, updated, rfl⟩ := served
        cases decision with
        | approve userId =>
          obtain ⟨same, _, _, _, _, _, has⟩ := needs
          subst same
          exact sound.updateDevice updated fun _ =>
            ⟨sound.recorded.hasUser.mp has, .here ⟨caller, token, rfl, rfl⟩⟩
        | reject =>
          refine sound.updateDevice updated fun approved => ?_
          rw [needs.1] at approved
          simp at approved
    | error error =>
      have same : history = ⟨before.db, [], [], []⟩ := served
      rw [same]
      exact sound.quiet (by constructor <;> simp)
  | createAuthToken code userId =>
    cases reply with
    | ok value =>
      obtain ⟨id, db, created, rfl⟩ := served
      obtain ⟨named, kept⟩ := sound.createAuthToken created (sound.recorded.hasUser.mp needs.2)
      refine ⟨?_, kept⟩
      rintro token same
      cases same
      exact named
    | error error =>
      rw [show history = _ from served]
      exact ⟨by rintro token ⟨⟩, sound.quiet (by constructor <;> simp)⟩

private theorem web_step (sound : before.Sound journal) {call : WebCall} {reply : call.Reply}
    (needs : call.Needs state urlencoded caller journal) (served : webServes call before reply after) :
    call.Tells reply journal ∧ after.Sound (⟨caller, call, reply⟩ :: journal) := by
  cases call with
  | device request => exact device_step sound needs served
  | starts handler =>
    refine ⟨trivial, ?_⟩
    rw [show after = _ from served]
    exact (sound.started _).quiet (by constructor <;> simp)
  | getDeviceTokenByUserCode code =>
    refine ⟨?_, sound.read served (by constructor <;> simp)⟩
    intro row answered
    have found := Answers.eq served answered
    have named : row.userCode = code := by simpa using List.find?_some found.symm
    rw [← named]
    exact sound.recorded.codes row (List.mem_of_find?_eq_some found.symm)
  | getSessionTokenById id =>
    refine ⟨?_, sound.read served (by constructor <;> simp)⟩
    intro session answered
    have found := Answers.eq served answered
    have member := List.mem_of_find?_eq_some found.symm
    exact ⟨by simpa using List.find?_some found.symm, (sound.recorded.sessions session).mp member,
      sound.recorded.hasUser.mpr (sound.referential.sessions session member)⟩
  | getUserById userId =>
    refine ⟨?_, sound.read served (by constructor <;> simp)⟩
    intro user answered
    obtain ⟨info, found, named, domains⟩ := (sound.recorded.hasUser.mp needs).find
    refine ⟨info, (Answers.eq served answered).trans found, named, ?_⟩
    exact fun domain member => (sound.recorded.domains _).mp (domains domain member)
  | getUserByGithubUserId id =>
    refine ⟨?_, sound.read served (by constructor <;> simp)⟩
    intro info answered
    obtain ⟨member, meets⟩ := WebDb.userWhere_some sound.unique.userIds (Answers.eq served answered).symm
    exact ⟨(sound.recorded.users _).mp member, by simpa using meets⟩
  | getUserByEmail email =>
    refine ⟨?_, sound.read served (by constructor <;> simp)⟩
    intro info answered
    obtain ⟨member, meets⟩ := WebDb.userWhere_some sound.unique.userIds (Answers.eq served answered).symm
    exact ⟨(sound.recorded.users _).mp member, by simpa using meets⟩
  | getAuthTokenById id =>
    refine ⟨?_, sound.read served (by constructor <;> simp)⟩
    intro token answered
    have found := Answers.eq served answered
    have member := List.mem_of_find?_eq_some found.symm
    exact ⟨by simpa using List.find?_some found.symm, (sound.recorded.authTokens token).mp member,
      sound.recorded.hasUser.mpr (sound.referential.authTokens token member)⟩
  | createSessionToken userId =>
    refine ⟨trivial, ?_⟩
    cases reply with
    | ok session =>
      obtain ⟨named, fresh, rfl⟩ := served
      subst named
      exact sound.createSession fresh (sound.recorded.hasUser.mp (LogsIn.hasUser needs))
    | error error =>
      rw [show after = before from served]
      exact sound.quiet (by constructor <;> simp)
  | deleteSessionToken id =>
    refine ⟨trivial, ?_⟩
    cases reply with
    | ok value =>
      rw [show after = _ from served]
      exact sound.deleteSession id
    | error error =>
      rw [show after = before from served]
      exact sound.quiet (by constructor <;> simp)
  | createUser email githubUserId =>
    cases reply with
    | ok info =>
      obtain ⟨id, db, created, rfl, rfl⟩ := served
      refine ⟨?_, sound.createUser created⟩
      intro info same
      cases same
      exact ⟨id, rfl⟩
    | error error =>
      rw [show after = before from served]
      exact ⟨by rintro info ⟨⟩, sound.quiet (by constructor <;> simp)⟩
  | registerUserDomain userId domain =>
    refine ⟨trivial, ?_⟩
    cases reply with
    | ok value =>
      obtain ⟨db, registered, rfl⟩ := served
      obtain ⟨_, _, _, _, _, _, has⟩ := needs
      exact sound.registerDomain registered (sound.recorded.hasUser.mp has)
    | error error =>
      rw [show after = before from served]
      exact sound.quiet (by constructor <;> simp)
  | randomCodes | now | authorizeUrl | githubUser =>
    refine ⟨trivial, ?_⟩
    rw [show after = before from served]
    exact sound.quiet (by constructor <;> simp)

theorem webRules_lawful : (webRules (ι := ι) state urlencoded).Lawful webServes where
  needs grown needs := WebCall.Needs.later needs grown
  step sound _ needs served := web_step sound needs served

/-- A request that no handler has answered. -/
def Refused (response : Response) : Prop :=
  response.body = .empty ∨ response.body = .extractor ∨ ∃ message, response.body = .text message

/-- What holds where a handler returns. -/
def Says (state : ServerState) (request : HttpRequest) (name : HandlerName) (body : Body) (journal : WebJournal ι) :
    Prop :=
  match name with
  | .oauth2DeviceToken => (∃ token expires userId, body = .deviceToken token expires ∧ Issued ⟨token, userId⟩ journal) ∨
    ∃ error, body = .oauth2Error error
  | .apiTest => ∃ token email domains, body = .apiTest email domains state.availableSuffixes ∧
    request.bearer = .ok token.id ∧ Issued token journal ∧
    ∀ domain ∈ domains, RegisteredDomain ⟨token.userId, domain⟩ journal
  | .apiRegisterDomain => body = .apiRegisterDomain ∧ ∃ token domain, request.bearer = .ok token.id ∧
    Issued token journal ∧ request.json "domain".toList = .ok domain ∧ RegisteredDomain ⟨token.userId, domain⟩ journal
  | _ => (∀ token expires, body ≠ .deviceToken token expires) ∧
    ∀ email domains suffixes, body ≠ .apiTest email domains suffixes

/-- What a response says holds. -/
inductive Truthful (state : ServerState) (request : HttpRequest) (response : Response) (journal : WebJournal ι) :
    Prop where
  | refused (refused : Refused response) : Truthful state request response journal
  | answered (name : HandlerName) (addressed : Addressed request name)
      (told : Says state request name response.body journal) : Truthful state request response journal

theorem Truthful.later {request : HttpRequest} {response : Response} {longer : WebJournal ι}
    (truthful : Truthful state request response journal) (grown : journal <:+ longer) :
    Truthful state request response longer := by
  cases truthful with
  | refused refused => exact .refused refused
  | answered name addressed told =>
    refine .answered name addressed ?_
    cases name with
    | oauth2DeviceToken =>
      refine told.imp_left ?_
      rintro ⟨token, expires, userId, same, issued⟩
      exact ⟨token, expires, userId, same, Journal.Once.later issued grown⟩
    | apiTest =>
      obtain ⟨token, email, domains, same, bearer, issued, registered⟩ := told
      exact ⟨token, email, domains, same, bearer, Journal.Once.later issued grown,
        fun domain member => Journal.Once.later (registered domain member) grown⟩
    | apiRegisterDomain =>
      obtain ⟨same, token, domain, bearer, issued, asked, registered⟩ := told
      exact ⟨same, token, domain, bearer, Journal.Once.later issued grown, asked,
        Journal.Once.later registered grown⟩
    | _ => exact told

section
variable {α β : Type} {cookies : Cookies} {post : β → Cookies → WebJournal ι → Prop}

/-- A part of a handler that keeps to the rules, and answers early only to refuse. -/
abbrev Serves (state : ServerState) (urlencoded : UrlEncoding) (caller : Caller ι)
    (post : β → Cookies → WebJournal ι → Prop) (serve : Serve β) (cookies : Cookies) (journal : WebJournal ι) : Prop :=
  serve.Asks (webRules state urlencoded) caller Refused post cookies journal

/-- One that promises nothing of what it returns. -/
abbrev Obeys (state : ServerState) (urlencoded : UrlEncoding) (caller : Caller ι) (serve : Serve β) (cookies : Cookies)
    (journal : WebJournal ι) : Prop :=
  Serves state urlencoded caller (fun _ _ _ => True) serve cookies journal

theorem asks_ask {call : WebCall} {rest : call.Reply → Serve β}
    (needs : call.Needs state urlencoded caller journal)
    (then_ : ∀ reply later, journal <:+ later → call.Tells reply later →
      Serves state urlencoded caller post (rest reply) cookies (⟨caller, call, reply⟩ :: later)) :
    Serves state urlencoded caller post (Web.ask call >>= rest) cookies journal :=
  ⟨needs, fun later reply grown tells => then_ reply later grown tells⟩

private theorem asks_unwrap {result : Except String α} {rest : α → Serve β}
    (then_ : ∀ value, result = .ok value → Serves state urlencoded caller post (rest value) cookies journal) :
    Serves state urlencoded caller post (Web.unwrap result >>= rest) cookies journal := by
  cases result with
  | ok value => exact then_ value rfl
  | error error => exact Method.Asks.panic

private theorem asks_expect {result : Option α} {rest : α → Serve β}
    (then_ : ∀ value, result = some value → Serves state urlencoded caller post (rest value) cookies journal) :
    Serves state urlencoded caller post (Web.expect result >>= rest) cookies journal := by
  cases result with
  | some value => exact then_ value rfl
  | none => exact Method.Asks.panic

private theorem asks_field {found : Except Nat Text} {rest : Text → Serve β}
    (then_ : ∀ value, found = .ok value → Serves state urlencoded caller post (rest value) cookies journal) :
    Serves state urlencoded caller post (Web.field found >>= rest) cookies journal := by
  cases found with
  | ok value => exact then_ value rfl
  | error status => exact Method.Asks.fail (.inr (.inl rfl))

private theorem asks_read {rest : Cookies → Serve β}
    (then_ : Serves state urlencoded caller post (rest cookies) cookies journal) :
    Serves state urlencoded caller post (Method.read >>= rest) cookies journal := then_

private theorem asks_modify {change : Cookies → Cookies} {rest : Unit → Serve β}
    (then_ : Serves state urlencoded caller post (rest ()) (change cookies) journal) :
    Serves state urlencoded caller post (Method.modify change >>= rest) cookies journal := then_

private theorem obeys_return (value : β) : Obeys state urlencoded caller (pure value : Serve β) cookies journal :=
  Method.Asks.pure trivial

private theorem asks_after {first : Serve α} {rest : α → Serve β}
    (obeys : Obeys state urlencoded caller first cookies journal)
    (then_ : ∀ value cookies later, journal <:+ later → Serves state urlencoded caller post (rest value) cookies later) :
    Serves state urlencoded caller post (first >>= rest) cookies journal :=
  Method.Asks.bind obeys fun value own later grown _ => then_ value own later grown

private theorem obeys_createDeviceToken (deviceCode userCode : Text) (now : Int) :
    Obeys state urlencoded caller (Web.ofStorage (Storage.createDeviceToken deviceCode userCode now)) cookies journal := by
  refine ⟨rfl, fun later reply grown tells => ?_⟩
  cases reply with
  | ok value => exact obeys_return _
  | error error => exact obeys_return _

private theorem obeys_approve {deviceCode : Text} {session : Session}
    (addressed : Addressed caller.request .postApproveDevice) (typed : Typed caller deviceCode journal)
    (authenticated : Authenticated caller session journal) (has : HasUser session.userId journal) :
    Obeys state urlencoded caller (Web.ofStorage (Storage.approveDeviceToken deviceCode session.userId)) cookies
      journal := by
  refine ⟨trivial, fun later reply grown tells => ?_⟩
  cases reply with
  | error error => exact obeys_return _
  | ok found =>
    cases found with
    | none => exact obeys_return _
    | some token =>
      obtain ⟨rfl, _⟩ := tells token rfl
      show Obeys state urlencoded caller (Web.ofStorage (if token.state ≠ .pending then _ else _)) cookies _
      by_cases pending : token.state = .pending
      · rw [if_neg (by simp [pending])]
        have known := grown.trans (List.suffix_cons (⟨caller, .device (.getDeviceTokenByDeviceCode token.deviceCode),
          .ok (some token)⟩ : WebEntry ι) later)
        exact ⟨⟨rfl, addressed, Journal.Once.later typed known, session, Journal.Once.later authenticated known, rfl,
          has.later known⟩, fun _ result _ _ => obeys_return result⟩
      · rw [if_pos pending]
        exact obeys_return _

private theorem obeys_reject {deviceCode : Text} (addressed : Addressed caller.request .postRejectDevice)
    (typed : Typed caller deviceCode journal) :
    Obeys state urlencoded caller (Web.ofStorage (Storage.rejectDeviceToken deviceCode)) cookies journal := by
  refine ⟨trivial, fun later reply grown tells => ?_⟩
  cases reply with
  | error error => exact obeys_return _
  | ok found =>
    cases found with
    | none => exact obeys_return _
    | some token =>
      obtain ⟨rfl, _⟩ := tells token rfl
      show Obeys state urlencoded caller (Web.ofStorage (if token.state ≠ .pending then _ else _)) cookies _
      by_cases pending : token.state = .pending
      · rw [if_neg (by simp [pending])]
        exact ⟨⟨rfl, addressed, .next (Journal.Once.later typed grown)⟩, fun _ result _ _ => obeys_return result⟩
      · rw [if_pos pending]
        exact obeys_return _

/-- A poll that returns an auth token has created it. -/
def IssuedBy (result : Except String (Option DeviceToken × Option AuthToken)) (journal : WebJournal ι) : Prop :=
  ∀ device token, result = .ok (device, some token) → Issued token journal

private theorem asks_poll {deviceCode : Text} (sent : caller.request.form "device_code".toList = .ok deviceCode) :
    Serves state urlencoded caller (fun result _ later => IssuedBy result later)
      (Web.ofStorage (Storage.pollDeviceToken deviceCode)) cookies journal := by
  refine ⟨trivial, fun later reply grown tells => ?_⟩
  have nothing (result : Except String (Option DeviceToken × Option AuthToken)) (last : WebJournal ι)
      (without : ∀ device token, result ≠ .ok (device, some token)) :
      Serves state urlencoded caller (fun result _ later => IssuedBy result later) (Web.ofStorage (.done result))
        cookies last :=
    Method.Asks.pure fun device token same => (without device token same).elim
  cases reply with
  | error error => exact nothing _ _ (by simp)
  | ok found =>
    cases found with
    | none => exact nothing _ _ (by simp)
    | some token =>
      obtain ⟨rfl, approval⟩ := tells token rfl
      show Serves state urlencoded caller (fun result _ later => IssuedBy result later)
        (Web.ofStorage (if token.state ≠ .approved then _ else _)) cookies _
      by_cases approved : token.state = .approved
      · rw [if_neg (by simp [approved])]
        obtain ⟨before, has⟩ := approval approved
        refine ⟨⟨.here ⟨token, sent, rfl, approved, rfl⟩, .next before, has.later (List.suffix_cons _ _)⟩, ?_⟩
        intro later' reply grown' _
        cases reply with
        | error error => exact nothing _ _ (by simp)
        | ok value =>
          have known := (List.suffix_cons _ _).trans (grown'.trans (List.suffix_cons
            (⟨caller, .device (.updateDeviceToken .exchange { token with state := .exchanged }), .ok ()⟩ : WebEntry ι)
            later'))
          refine ⟨⟨.here ⟨_, rfl, rfl, rfl⟩, has.later known⟩, ?_⟩
          intro last reply _ tells
          cases reply with
          | error error => exact nothing _ _ (by simp)
          | ok authToken =>
            show Serves state urlencoded caller (fun result _ later => IssuedBy result later)
              (Web.ofStorage (.done (.ok (none, some authToken)))) cookies _
            refine Method.Asks.pure ?_
            rintro device other ⟨⟩
            exact .here ⟨caller, token.deviceCode, by rw [tells authToken rfl]⟩
      · rw [if_pos approved]
        exact nothing _ _ (by simp)

/-- What is known of the user that a handler is given. -/
def Known (caller : Caller ι) (user : Option LoggedIn) (journal : WebJournal ι) : Prop :=
  ∀ info, user = some info → info.user.user.id = info.session.userId ∧
    Authenticated caller info.session journal ∧ HasUser info.session.userId journal

theorem Known.later {user : Option LoggedIn} {longer : WebJournal ι} (known : Known caller user journal)
    (grown : journal <:+ longer) : Known caller user longer := by
  intro info some_
  obtain ⟨named, authenticated, has⟩ := known info some_
  exact ⟨named, Journal.Once.later authenticated grown, has.later grown⟩

private theorem asks_getDeviceToken {userCode : Text} {rest : DeviceToken → Serve β}
    (sent : caller.request.form "user_code".toList = .ok userCode)
    (then_ : ∀ token later, journal <:+ later → Typed caller token.deviceCode later →
      Serves state urlencoded caller post (rest token) cookies later) :
    Serves state urlencoded caller post (do
      let token ← Web.unwrap (← Web.getDeviceToken userCode)
      rest token) cookies journal := by
  refine ⟨trivial, fun later reply grown tells => ?_⟩
  cases reply with
  | error error => exact Method.Asks.panic
  | ok found =>
    cases found with
    | none => exact Method.Asks.panic
    | some token =>
      exact then_ token _ (grown.trans (List.suffix_cons _ _)) (.here ⟨userCode, token, sent, rfl, rfl⟩)

private theorem asks_getAuthToken {bearer : Text} {rest : AuthToken × UserInfo → Serve β}
    (sent : caller.request.bearer = .ok bearer)
    (then_ : ∀ token user later, journal <:+ later → Presented caller token later → HasUser token.userId later →
      token.id = bearer → Issued token later → user.user.id = token.userId →
      (∀ domain ∈ user.domains, RegisteredDomain ⟨token.userId, domain⟩ later) →
      Serves state urlencoded caller post (rest (token, user)) cookies later) :
    Serves state urlencoded caller post (do
      let found ← Web.unwrap (← Web.getAuthToken bearer)
      rest found) cookies journal := by
  refine ⟨trivial, fun later reply grown tells => ?_⟩
  cases reply with
  | error error => exact Method.Asks.panic
  | ok found =>
    cases found with
    | none => exact Method.Asks.panic
    | some token =>
      obtain ⟨named, issued, has⟩ := tells token rfl
      refine ⟨has.later (List.suffix_cons _ _), fun later' reply grown' tells' => ?_⟩
      cases reply with
      | error error => exact Method.Asks.panic
      | ok user =>
        obtain ⟨info, rfl, is, domains⟩ := tells' user rfl
        have known := grown'.trans (List.suffix_cons (⟨caller, .getUserById token.userId, .ok (some info)⟩ : WebEntry ι)
          later')
        have longer := (List.suffix_cons _ _).trans known
        have presented : Presented caller token (⟨caller, .getAuthTokenById bearer, .ok (some token)⟩ :: later) :=
          .here ⟨bearer, sent, rfl⟩
        exact then_ token info _ (grown.trans longer) (Journal.Once.later presented known) (has.later longer) named
          (Journal.Once.later issued longer) is fun domain member => .next (domains domain member)

/-- The user of a session, and the cookies as they are. -/
def FoundUser (caller : Caller ι) (cookies : Cookies) (result : Except String (Option LoggedIn)) (own : Cookies)
    (journal : WebJournal ι) : Prop :=
  own = cookies ∧ ∀ user, result = .ok (some user) → Known caller (some user) journal

private theorem asks_getUserForSession {cookie : Text}
    (sent : Cookies.get caller.request.cookies "session_id".toList = some cookie) :
    Serves state urlencoded caller (FoundUser caller cookies) (Web.getUserForSession cookie) cookies journal := by
  refine ⟨trivial, fun later reply grown tells => ?_⟩
  have nobody (result : Except String (Option LoggedIn)) (last : WebJournal ι) (none_ : ∀ user, result ≠ .ok (some user)) :
      Serves state urlencoded caller (FoundUser caller cookies) (pure result) cookies last :=
    Method.Asks.pure ⟨rfl, fun user some_ => (none_ user some_).elim⟩
  cases reply with
  | error error => exact nobody (.error error) _ (by simp)
  | ok found =>
    cases found with
    | none => exact nobody (.ok none) _ (by simp)
    | some session =>
      obtain ⟨named, _, has⟩ := tells session rfl
      refine ⟨has.later (List.suffix_cons _ _), fun later' reply grown' tells' => ?_⟩
      cases reply with
      | error error => exact nobody (.error error) _ (by simp)
      | ok user =>
        obtain ⟨info, rfl, is, _⟩ := tells' user rfl
        have authenticated : Authenticated caller session (⟨caller, .getSessionTokenById cookie, .ok (some session)⟩ ::
            later) := .here ⟨cookie, sent, rfl⟩
        have longer := grown'.trans (List.suffix_cons
          (⟨caller, .getUserById session.userId, .ok (some info)⟩ : WebEntry ι) later')
        have known : Known caller (some ⟨info, session⟩)
            (⟨caller, .getUserById session.userId, .ok (some info)⟩ :: later') := by
          rintro user ⟨⟩
          exact ⟨is, Journal.Once.later authenticated longer, has.later ((List.suffix_cons _ _).trans longer)⟩
        show Serves state urlencoded caller (FoundUser caller cookies) (pure (.ok (some ⟨info, session⟩))) cookies _
        refine Method.Asks.pure ⟨rfl, ?_⟩
        rintro user ⟨⟩
        exact known

/-- A handler that keeps to the rules and returns what holds. -/
abbrev Handles (state : ServerState) (urlencoded : UrlEncoding) (caller : Caller ι) (name : HandlerName)
    (serve : Serve Response) (cookies : Cookies) (journal : WebJournal ι) : Prop :=
  Serves state urlencoded caller (fun response _ later => Says state caller.request name response.body later) serve
    cookies journal

private theorem handles_return {name : HandlerName} {response : Response}
    (told : Says state caller.request name response.body journal) :
    Handles state urlencoded caller name (pure response) cookies journal := Method.Asks.pure told

section
variable {user : Option LoggedIn}

private theorem handles_postApproveDevice {userCode : Text} (known : Known caller user journal)
    (addressed : Addressed caller.request .postApproveDevice)
    (sent : caller.request.form "user_code".toList = .ok userCode) :
    Handles state urlencoded caller .postApproveDevice (Web.postApproveDeviceHandler user userCode) cookies journal := by
  refine asks_getDeviceToken sent fun token later grown typed => asks_expect fun info some_ => ?_
  obtain ⟨named, authenticated, has⟩ := known.later grown info some_
  rw [named]
  refine asks_after (obeys_approve addressed typed authenticated has) fun result cookies last _ => ?_
  exact asks_unwrap fun _ _ => handles_return (by simp [Says, Web.page])

private theorem handles_postRejectDevice {userCode : Text} (addressed : Addressed caller.request .postRejectDevice)
    (sent : caller.request.form "user_code".toList = .ok userCode) :
    Handles state urlencoded caller .postRejectDevice (Web.postRejectDeviceHandler userCode) cookies journal := by
  refine asks_getDeviceToken sent fun token later grown typed => ?_
  refine asks_after (obeys_reject addressed typed) fun result cookies last _ => ?_
  exact asks_unwrap fun _ _ => handles_return (by simp [Says, Web.page])

private theorem handles_postLoginDevice {userCode : Text}
    (sent : caller.request.form "user_code".toList = .ok userCode) :
    Handles state urlencoded caller .postLoginDevice (Web.postLoginDeviceHandler user userCode) cookies journal := by
  refine asks_getDeviceToken sent fun token later grown typed => ?_
  by_cases pending : token.state = .pending
  · rw [if_neg (by simp [pending])]
    exact handles_return (by simp [Says, Web.page])
  · rw [if_pos pending]
    exact Method.Asks.panic

private theorem handles_logout (known : Known caller user journal) (addressed : Addressed caller.request .logout) :
    Handles state urlencoded caller .logout (Web.logoutHandler user) cookies journal := by
  cases user with
  | none => exact asks_modify (handles_return (by simp [Says, Web.redirect]))
  | some info =>
    obtain ⟨_, authenticated, _⟩ := known info rfl
    refine asks_ask ⟨addressed, info.session, authenticated, rfl⟩ fun reply later grown _ => ?_
    exact asks_unwrap fun _ _ => asks_modify (handles_return (by simp [Says, Web.redirect]))

/-- The session that a login ends with. -/
theorem asks_logIn {info : UserInfo} {rest : Unit → Serve β}
    (logsIn : LogsIn state urlencoded caller info.user.id journal)
    (then_ : ∀ cookies later, Serves state urlencoded caller post (rest ()) cookies later) :
    Serves state urlencoded caller post (Web.logIn info >>= rest) cookies journal := by
  refine ⟨logsIn, fun later reply grown _ => ?_⟩
  cases reply with
  | ok session => exact then_ _ _
  | error error => exact Method.Asks.panic

/-- The cookie with the state of a login is as the caller sent it. -/
def KeepsState (caller : Caller ι) (cookies : Cookies) : Prop :=
  cookies.get "github_oauth2_state".toList = Cookies.get caller.request.cookies "github_oauth2_state".toList

private theorem Cookies.get_remove {name other : Text} (different : name ≠ other) (cookies : Cookies) :
    (Cookies.remove other cookies).get name = cookies.get name := by
  rw [Cookies.get, Cookies.get, Cookies.remove, List.find?_filter]
  congr 2
  funext cookie
  by_cases named : cookie.1 = name
  · simp [named, different]
  · simp [named]

theorem KeepsState.remove (kept : KeepsState caller cookies) :
    KeepsState caller (Cookies.remove "session_id".toList cookies) :=
  (Cookies.get_remove (by decide) cookies).trans kept

private theorem handles_loginCallback {code oauth2State : Text} (addressed : Addressed caller.request .loginCallback)
    (sentCode : caller.request.query "code".toList = .ok code)
    (sentState : caller.request.query "state".toList = .ok oauth2State) (kept : KeepsState caller cookies) :
    Handles state urlencoded caller .loginCallback (Web.loginCallbackHandler urlencoded.decode code oauth2State) cookies
      journal := by
  have redirected (redirectTo : Text) (cookies : Cookies) (later : WebJournal ι) : Handles state urlencoded caller
      .loginCallback (pure (Web.redirect redirectTo)) cookies later := handles_return (by simp [Says, Web.redirect])
  refine asks_read (asks_expect fun cookie found => asks_expect fun decoded read => asks_modify ?_)
  by_cases right : oauth2State = decoded.1
  · rw [if_neg (by simp [right])]
    have sameState : SameState urlencoded caller.request :=
      ⟨cookie, decoded.1, decoded.2, kept ▸ found, read, right ▸ sentState⟩
    refine asks_ask sameState fun reply later grown _ => asks_unwrap fun github answered => ?_
    subst answered
    have vouched : Vouched caller github (⟨caller, .githubUser code, .ok github⟩ :: later) :=
      .here ⟨code, sentCode, rfl⟩
    refine asks_ask trivial fun reply later' grown' tells => asks_unwrap fun user answered => ?_
    subst answered
    have still := Journal.Once.later vouched grown'
    cases user with
    | some info =>
      obtain ⟨created, is⟩ := tells info rfl
      exact asks_logIn (.github addressed sameState (.next still) (.next created) rfl is) (redirected decoded.2)
    | none =>
      refine asks_ask (.next still) fun reply last grown'' tells => asks_unwrap fun info answered => ?_
      subst answered
      obtain ⟨id, rfl⟩ := tells info rfl
      have again := Journal.Once.later (Journal.Once.next still) grown''
      exact asks_logIn (.github addressed sameState (.next again) (.here ⟨caller, rfl⟩) rfl rfl) (redirected decoded.2)
  · rw [if_pos right]
    exact Method.Asks.panic

private theorem handles_loginTest {email : Text} (addressed : Addressed caller.request .loginTest)
    (sent : caller.request.json "email".toList = .ok email) :
    Handles state urlencoded caller .loginTest (Web.loginTestHandler state email) cookies journal := by
  have succeeded (cookies : Cookies) (later : WebJournal ι) : Handles state urlencoded caller .loginTest
      (pure ⟨200, .success⟩) cookies later := handles_return (by simp [Says])
  unfold Web.loginTestHandler
  cases enabled : state.enableTestLogin with
  | false => exact handles_return (by simp [Says])
  | true =>
    refine asks_ask trivial fun reply later grown tells => asks_unwrap fun user answered => ?_
    subst answered
    cases user with
    | some info =>
      obtain ⟨created, is⟩ := tells info rfl
      exact asks_logIn (.test addressed enabled (.next created) rfl (is ▸ sent)) succeeded
    | none =>
      refine asks_ask enabled fun reply last grown' tells => asks_unwrap fun info answered => ?_
      subst answered
      obtain ⟨id, rfl⟩ := tells info rfl
      exact asks_logIn (.test addressed enabled (.here ⟨caller, rfl⟩) rfl sent) succeeded

private theorem handles_apiTest {bearer : Text} (sent : caller.request.bearer = .ok bearer) :
    Handles state urlencoded caller .apiTest (Web.apiTestHandler state bearer) cookies journal := by
  refine asks_getAuthToken sent fun token user later _ _ _ named issued _ domains => ?_
  subst named
  exact handles_return ⟨token, user.user.email, user.domains, rfl, sent, issued, domains⟩

private theorem handles_apiRegisterDomain {bearer domain : Text}
    (addressed : Addressed caller.request .apiRegisterDomain)
    (sent : caller.request.bearer = .ok bearer) (asked : caller.request.json "domain".toList = .ok domain) :
    Handles state urlencoded caller .apiRegisterDomain (Web.apiRegisterDomain state bearer domain) cookies journal := by
  refine asks_getAuthToken sent fun token user later grown presented has named issued is _ => ?_
  subst named
  dsimp only
  by_cases allowed : state.availableSuffixes.any fun suffix => suffix.isSuffixOf domain
  · rw [allowed, if_neg (by simp)]
    obtain ⟨suffix, member, ends⟩ := List.any_eq_true.mp allowed
    rw [is]
    refine asks_ask ⟨addressed, asked, ⟨suffix, member, List.isSuffixOf_iff_suffix.mp ends⟩, token, presented, rfl,
      has⟩ fun reply last grown' _ => ?_
    refine asks_unwrap fun value answered => ?_
    subst answered
    exact handles_return ⟨rfl, token, domain, sent, .next (Journal.Once.later issued grown'), asked, .here ⟨caller, rfl⟩⟩
  · rw [if_pos (by simpa using allowed)]
    exact Method.Asks.panic

private theorem handles_handle (name : HandlerName) (known : Known caller user journal)
    (kept : KeepsState caller cookies)
    (addressed : Addressed caller.request name) :
    Handles state urlencoded caller name (Web.handle state urlencoded caller.request user name) cookies journal := by
  cases name with
  | index => exact asks_ask trivial fun _ _ _ _ => handles_return (by simp [Says, Web.page])
  | oauth2DeviceCode =>
    refine asks_ask trivial fun _ _ _ _ => asks_ask trivial fun _ _ _ _ => asks_ask trivial fun _ _ _ _ => ?_
    refine asks_after (obeys_createDeviceToken _ _ _) fun _ _ _ _ => asks_unwrap fun _ _ => ?_
    exact asks_ask trivial fun _ _ _ _ => handles_return (by simp [Says])
  | oauth2DeviceToken =>
    refine asks_field fun deviceCode sent => asks_ask trivial fun _ _ _ _ => ?_
    refine Method.Asks.bind (asks_poll sent) fun result _ _ _ issued => asks_unwrap fun found answered => ?_
    obtain ⟨deviceToken, authToken⟩ := found
    cases authToken with
    | none => exact handles_return (.inr ⟨_, rfl⟩)
    | some token => exact handles_return (.inl ⟨token.id, _, token.userId, rfl, issued _ token answered⟩)
  | getLoginDevice =>
    refine asks_ask trivial fun _ _ _ _ => ?_
    cases user with
    | none => exact handles_return (by simp [Says, Web.redirect])
    | some info => exact handles_return (by simp [Says, Web.page])
  | postLoginDevice => exact asks_field fun _ sent => asks_ask trivial fun _ _ _ _ => handles_postLoginDevice sent
  | postApproveDevice =>
    refine asks_field fun _ sent => asks_ask trivial fun _ _ grown _ => ?_
    exact handles_postApproveDevice (known.later (grown.trans (List.suffix_cons _ _))) addressed sent
  | postRejectDevice =>
    exact asks_field fun _ sent => asks_ask trivial fun _ _ _ _ => handles_postRejectDevice addressed sent
  | login => exact asks_field fun _ _ => asks_ask trivial fun _ _ _ _ => handles_return (by simp [Says, Web.page])
  | logout =>
    refine asks_ask trivial fun _ _ grown _ => ?_
    exact handles_logout (known.later (grown.trans (List.suffix_cons _ _))) addressed
  | loginGithub =>
    refine asks_field fun _ _ => asks_ask trivial fun _ _ _ _ => asks_ask trivial fun _ _ _ _ => ?_
    exact asks_modify (handles_return (by simp [Says, Web.redirect]))
  | loginCallback =>
    refine asks_field fun _ code => asks_field fun _ sent => asks_ask trivial fun _ _ _ _ => ?_
    exact handles_loginCallback addressed code sent kept
  | loginTest => exact asks_field fun _ sent => asks_ask trivial fun _ _ _ _ => handles_loginTest addressed sent
  | apiTest => exact asks_field fun _ sent => asks_ask trivial fun _ _ _ _ => handles_apiTest sent
  | apiRegisterDomain =>
    refine asks_field fun _ sent => asks_field fun _ asked => asks_ask trivial fun _ _ _ _ => ?_
    exact handles_apiRegisterDomain addressed sent asked

/-- A router that keeps to the rules and whose responses hold. -/
abbrev Answered (state : ServerState) (urlencoded : UrlEncoding) (caller : Caller ι) (serve : Serve Response)
    (cookies : Cookies) (journal : WebJournal ι) : Prop :=
  Serves state urlencoded caller (fun response _ later => Truthful state caller.request response later) serve cookies
    journal

private theorem answered_dispatch (known : Known caller user journal) (kept : KeepsState caller cookies) :
    Answered state urlencoded caller (Web.dispatch state urlencoded caller.request user) cookies journal := by
  unfold Web.dispatch
  split
  · exact Method.Asks.pure (.refused (.inl rfl))
  · split
    next route found =>
      have addressed : Addressed caller.request route.2.2 := by
        refine ⟨route.2.1, ?_, by simpa using List.find?_some found⟩
        obtain ⟨member, path⟩ := List.mem_filter.mp (List.mem_of_find?_eq_some found)
        rw [← of_decide_eq_true path]
        exact member
      exact (handles_handle route.2.2 known kept addressed).mono fun _ _ _ told => .answered _ addressed told
    next => exact Method.Asks.pure (.refused (.inl rfl))

end

private theorem answered_authMiddleware : Answered state urlencoded caller
    (Web.authMiddleware (Web.dispatch state urlencoded caller.request)) caller.request.cookies journal := by
  have stranger (journal : WebJournal ι) : Known caller none journal := by
    rintro info ⟨⟩
  refine asks_read ?_
  cases found : Cookies.get caller.request.cookies "session_id".toList with
  | none => exact answered_dispatch (stranger _) rfl
  | some cookie =>
    refine Method.Asks.bind (asks_getUserForSession found) ?_
    rintro result cookies later _ ⟨rfl, known⟩
    refine asks_unwrap fun user answered => ?_
    cases user with
    | some info => exact answered_dispatch (known info answered) rfl
    | none => exact asks_modify (answered_dispatch (stranger _) (KeepsState.remove rfl))

end

/-- What holds of a task that has served its request. -/
def Served (state : ServerState) (value : Option (HttpRequest × Option Response × Cookies)) (journal : WebJournal ι) :
    Prop :=
  ∀ request response cookies, value = some (request, some response, cookies) → Truthful state request response journal

theorem served_lasting : Rules.Lasting (Served (ι := ι) state) := by
  intro value journal later grown served request response cookies same
  exact (served request response cookies same).later grown

private theorem checkCrossOrigin_refuses {request : HttpRequest} {response : Response}
    (refused : Web.checkCrossOrigin request = .error response) : Refused response := by
  unfold Web.checkCrossOrigin at refused
  split at refused
  all_goals try cases refused
  all_goals
    split at refused
    all_goals split at refused
    all_goals cases refused
    all_goals exact .inr (.inr ⟨_, rfl⟩)

private theorem served_makeRouter : (webRules state urlencoded).Asks caller (Served state)
    ((Web.makeRouter state urlencoded caller.request).bind fun result => .done (some (caller.request, result)))
    journal := by
  have checked : Answered state urlencoded caller (Web.crossOriginCheckMiddleware caller.request
      (Web.authMiddleware (Web.dispatch state urlencoded caller.request))) caller.request.cookies journal := by
    unfold Web.crossOriginCheckMiddleware
    cases allowed : Web.checkCrossOrigin caller.request with
    | ok value => exact answered_authMiddleware
    | error response => exact Method.Asks.fail (checkCrossOrigin_refuses allowed)
  unfold Web.makeRouter
  rw [Program.bind_assoc]
  refine Rules.Asks.bind checked ?_
  rintro ⟨outcome, cookies⟩ later _ ⟨holds, failed⟩
  cases outcome with
  | ok response =>
    rintro request answer cookies ⟨⟩
    exact holds response rfl
  | err response =>
    rintro request answer cookies ⟨⟩
    exact .refused (failed response rfl)
  | panic =>
    rintro request answer cookies ⟨⟩

private theorem sound_new : WebDb.Sound ⟨.new, [], []⟩ ([] : WebJournal ι) := by
  refine ⟨⟨?_, ?_, ?_, ?_, ?_, ?_, ?_, ?_⟩, ⟨?_, ?_, ?_, ?_⟩, ⟨?_, ?_, ?_, ?_, ?_, ?_⟩⟩
  all_goals first
    | exact List.nodup_nil
    | exact fun _ => ⟨fun member => (List.not_mem_nil member).elim, fun impossible => impossible.elim⟩
    | exact fun _ member => (List.not_mem_nil member).elim

namespace Website

/-- What a task returns: its request with the response, or without one after a panic. -/
abbrev Value := Option (HttpRequest × Option Response × Cookies)

def serving (state : ServerState) (urlencoded : UrlEncoding) (task : ι) (request : HttpRequest) :
    Program (WebCalls.by (Caller ι)) Value :=
  Program.as ⟨task, request⟩ ((Web.makeRouter state urlencoded request).bind fun result =>
    .done (some (request, result)))

/-- Each task serves one request. -/
def Requests (state : ServerState) (urlencoded : UrlEncoding) (task : ι) (value : Value)
    (program : Program (WebCalls.by (Caller ι)) Value) : Prop :=
  value = none ∧ ∃ request, program = serving state urlencoded task request

end Website

abbrev Website (ι : Type) := Pool (WebCalls.by (Caller ι)) (Journaled WebCalls (Caller ι) WebDb) ι Website.Value

namespace Website

def initial : Website ι := ⟨⟨⟨.new, [], []⟩, []⟩, fun _ => .done none⟩

theorem lawfully : (webRules (ι := ι) state urlencoded).Lawfully (Served state) (Requests state urlencoded) := by
  rintro task value program ⟨_, request, rfl⟩
  exact ⟨⟨task, request⟩, _, rfl, served_makeRouter⟩

variable [DecidableEq ι]

abbrev Runs (state : ServerState) (urlencoded : UrlEncoding) : Website ι → Website ι → Prop :=
  Pool.Runs (Handler.journaled (Caller ι) webServes) (Requests state urlencoded)

abbrev Reachable (state : ServerState) (urlencoded : UrlEncoding) (website : Website ι) : Prop :=
  Runs state urlencoded initial website

theorem Reachable.holds {website : Website ι} (reachable : Reachable state urlencoded website) :
    (Rules.contract (webRules state urlencoded) (Served state)).Holds (Handler.journaled (Caller ι) webServes)
      website := by
  have valid : (webRules state urlencoded).Valid (initial : Website ι).shared := ⟨trivial, sound_new⟩
  refine webRules_lawful.run served_lasting lawfully valid (fun task => ⟨none, rfl, ?_⟩) reachable
  rintro request response cookies ⟨⟩

end Website

/-- A database that answers every call it can, with these ids for what it creates. -/
structure Fresh where
  userId : Text
  sessionId : Text
  tokenId : Text
  codes : Text × Text
  github : GithubUserInfo

def webServe (fresh : Fresh) (call : WebCall) (before : WebDb) : call.Reply × WebDb :=
  match call with
  | .starts handler => ((), { before with started := before.started ++ [handler] })
  | .device request =>
    ((serve fresh.tokenId request ⟨before.db, [], [], []⟩).1,
      { before with db := (serve fresh.tokenId request ⟨before.db, [], [], []⟩).2.db })
  | .getDeviceTokenByUserCode code => (.ok (before.db.deviceTokens.find? fun token => token.userCode = code), before)
  | .getSessionTokenById id => (.ok (before.sessions.find? fun session => session.id = id), before)
  | .createSessionToken userId =>
    if before.sessions.any fun other => other.id = fresh.sessionId then (.error "constraint", before)
    else (.ok ⟨fresh.sessionId, userId⟩, { before with sessions := before.sessions ++ [⟨fresh.sessionId, userId⟩] })
  | .deleteSessionToken id => (.ok (), { before with sessions := before.sessions.filter fun session => session.id ≠ id })
  | .getUserById userId => (.ok (before.db.getUserById userId), before)
  | .getUserByGithubUserId id => (.ok (before.userWhere fun user => user.githubUserId = some id), before)
  | .getUserByEmail email => (.ok (before.userWhere fun user => user.email = email), before)
  | .createUser email githubUserId =>
    match before.db.createUser fresh.userId email githubUserId [] with
    | some db => (.ok ⟨⟨fresh.userId, email, githubUserId⟩, []⟩, { before with db })
    | none => (.error "constraint", before)
  | .getAuthTokenById token => (.ok (before.db.getAuthTokenById token), before)
  | .registerUserDomain userId domain =>
    match before.db.registerUserDomain userId domain with
    | some db => (.ok (), { before with db })
    | none => (.error "constraint", before)
  | .randomCodes => (fresh.codes, before)
  | .now => (0, before)
  | .authorizeUrl => (([], []), before)
  | .githubUser _ => (.ok fresh.github, before)

private theorem serve_serves (id : Text) (request : DbRequest) (before : History) :
    ∃ after, serves request before (serve id request before).1 after ∧ after.db = (serve id request before).2.db := by
  cases request with
  | getDeviceTokenByDeviceCode code => exact ⟨before, ⟨rfl, rfl⟩, rfl⟩
  | insertDeviceToken token =>
    cases inserted : before.db.insertDeviceToken token with
    | none => exact ⟨before, by simp [serve, inserted, serves, DbRequest.Fails], by simp [serve, inserted]⟩
    | some db => exact ⟨_, by simpa [serve, inserted, serves] using ⟨db, inserted, rfl⟩, by simp [serve, inserted]⟩
  | updateDeviceToken purpose token =>
    cases updated : before.db.updateDeviceToken token with
    | none => exact ⟨before, by simp [serve, updated, serves, DbRequest.Fails], by simp [serve, updated]⟩
    | some db =>
      cases purpose with
      | decide decision =>
        exact ⟨_, by simpa [serve, updated, serves] using ⟨db, updated, rfl⟩, by simp [serve, updated]⟩
      | exchange => exact ⟨_, by simpa [serve, updated, serves] using ⟨db, updated, rfl⟩, by simp [serve, updated]⟩
  | createAuthToken code userId =>
    cases created : before.db.createAuthToken id userId with
    | none => exact ⟨_, by simp only [serve, created]; exact rfl, by simp [serve, created]⟩
    | some found => exact ⟨_, by simpa [serve, created, serves] using ⟨id, found.2, created, rfl⟩, by simp [serve, created]⟩

private theorem webServe_serves (fresh : Fresh) (call : WebCall) (before : WebDb) :
    webServes call before (webServe fresh call before).1 (webServe fresh call before).2 := by
  cases call with
  | device request =>
    obtain ⟨history, served, same⟩ := serve_serves fresh.tokenId request ⟨before.db, [], [], []⟩
    exact ⟨history, served, by rw [webServe, same]⟩
  | createSessionToken userId =>
    simp only [webServe]
    split
    next => exact rfl
    next free =>
      simp only [List.any_eq_true, decide_eq_true_eq, not_exists, not_and] at free
      exact ⟨rfl, free, rfl⟩
  | createUser email githubUserId =>
    simp only [webServe]
    split
    next db created => exact ⟨_, db, created, rfl, rfl⟩
    next => exact rfl
  | registerUserDomain userId domain =>
    simp only [webServe]
    split
    next db registered => exact ⟨db, registered, rfl⟩
    next => exact rfl
  | starts | deleteSessionToken | randomCodes | now | authorizeUrl | githubUser => exact rfl
  | _ => exact ⟨rfl, rfl⟩

namespace Website
variable [DecidableEq ι]

def journalServe (fresh : Fresh) (call : (WebCalls.by (Caller ι)).Request) (before : Journaled WebCalls (Caller ι) WebDb) :
    (WebCalls.by (Caller ι)).Reply call × Journaled WebCalls (Caller ι) WebDb :=
  ((webServe fresh call.2 before.state).1, ⟨(webServe fresh call.2 before.state).2,
    ⟨call.1, call.2, (webServe fresh call.2 before.state).1⟩ :: before.journal⟩)

/-- A request is served from its first call to its last, and all others wait. -/
def serve (state : ServerState) (urlencoded : UrlEncoding) (fresh : Fresh) (website : Website ι) (task : ι)
    (sent : HttpRequest) : Website ι :=
  let ended := (serving state urlencoded task sent).run (journalServe fresh) website.shared
  ⟨ended.2, Function.update website.threads task (.done ended.1)⟩

theorem Reachable.serve {website : Website ι} (reachable : Reachable state urlencoded website) (fresh : Fresh) {task : ι}
    (idle : website.threads task = .done none) (sent : HttpRequest) :
    Reachable state urlencoded (website.serve state urlencoded fresh task sent) := by
  have started : Pool.Moves (Handler.journaled (Caller ι) webServes) (Requests state urlencoded) website
      ⟨website.shared, Function.update website.threads task (serving state urlencoded task sent)⟩ :=
    ⟨task, .start _ idle ⟨rfl, sent, rfl⟩⟩
  have served (call : (WebCalls.by (Caller ι)).Request) (before : Journaled WebCalls (Caller ι) WebDb) :
      Handler.journaled (Caller ι) webServes call before (journalServe fresh call before).1
        (journalServe fresh call before).2 := ⟨webServe_serves fresh call.2 before.state, rfl⟩
  have rest : Pool.Runs (Handler.journaled (Caller ι) webServes) (Requests state urlencoded)
      ⟨website.shared, Function.update website.threads task (serving state urlencoded task sent)⟩ _ :=
    Pool.runs_ends (Function.update_self task _ _) (Program.ends_run served _ _)
  rw [Function.update_idem] at rest
  exact (Relation.ReflTransGen.tail reachable started).trans rest

end Website
end

/-- A request with this cookie, form and body, and this auth token. -/
def requestFor (method : HttpMethod) (path : Text) (session userCode deviceCode bearer json : Text) : HttpRequest where
  method := method
  path := path
  secFetchSite := none
  origin := none
  cookies := [("session_id".toList, session)]
  bearer := .ok bearer
  query := fun _ => .error 400
  form := fun name => if name = "user_code".toList then .ok userCode else .ok deviceCode
  json := fun _ => .ok json

namespace Website

def testServer : ServerState := ⟨[".example.com".toList], [], true⟩

def aliceIds : Fresh := ⟨"u".toList, "s".toList, "t".toList, ("device".toList, "CODE".toList), ⟨0, []⟩⟩

/-- Alice logs in, a device gets its codes, she approves it, it polls, and registers a domain. -/
def enrolled : Website Nat :=
  let step (website : Website Nat) (task : Nat) (request : HttpRequest) :=
    website.serve testServer anyEncoding aliceIds task request
  let loggedIn := step initial 0 (requestFor .post "/login/test".toList [] [] [] [] "alice@mail".toList)
  let begun := step loggedIn 1 (requestFor .post "/login/device/code".toList [] [] [] [] [])
  let approved := step begun 2 (requestFor .post "/login/device/authorize".toList "s".toList "CODE".toList [] [] [])
  let polled := step approved 3 (requestFor .post "/login/oauth/access_token".toList [] [] "device".toList [] [])
  step polled 4 (requestFor .get "/api/domain/register".toList [] [] [] "t".toList "a.example.com".toList)

theorem enrolled_reachable : Reachable testServer anyEncoding enrolled := by
  have begun : Reachable testServer anyEncoding (initial : Website Nat) := .refl
  unfold enrolled
  exact ((((begun.serve _ rfl _).serve _ rfl _).serve _ rfl _).serve _ rfl _).serve _ rfl _

theorem enrolled_rows : enrolled.shared.state.sessions = [⟨"s".toList, "u".toList⟩] ∧
    enrolled.shared.state.db.authTokens = [⟨"t".toList, "u".toList⟩] ∧
    enrolled.shared.state.db.userDomains = [⟨"u".toList, "a.example.com".toList⟩] := by
  decide +kernel

section
variable {ι : Type} [DecidableEq ι] {state : ServerState} {urlencoded : UrlEncoding}

/-- In every state that any number of requests can lead to, keys are unique and whoever a row
names is there. So a query for the user of a session or an auth token finds one. -/
theorem accounts_intact {website : Website ι} (reachable : Reachable state urlencoded website) :
    website.shared.state.Unique ∧ website.shared.state.Referential ∧
      ∀ task caller userId next, website.threads task = .call (caller, .getUserById userId) next →
        ∃ info, website.shared.state.db.getUserById userId = some info := by
  obtain ⟨_, sound⟩ := reachable.holds.valid
  refine ⟨sound.unique, sound.referential, ?_⟩
  intro task caller userId next waiting
  have has : HasUser userId website.shared.journal := reachable.holds.waits waiting
  obtain ⟨info, found, _⟩ := (sound.recorded.hasUser.mp has).find
  exact ⟨info, found⟩

end

theorem accounts_intact_enrolled : enrolled.shared.state.Unique ∧ enrolled.shared.state.Referential :=
  ⟨(accounts_intact enrolled_reachable).1, (accounts_intact enrolled_reachable).2.1⟩

end Website
end Pos2.Tunnel
