import Pos2.Tunnel.Web

/-! Which requests from other origins the check turns away. A request that passes
it makes calls or gets another answer, whatever route it is for. -/

namespace Pos2.Tunnel
open Calls

/-- A browser says that the request comes from another origin, or does not say where it comes from. -/
def CrossOrigin (request : HttpRequest) : Prop :=
  match request.secFetchSite with
  | some value => value ≠ "same-origin".toList ∧ value ≠ "none".toList
  | none => request.origin ≠ none

def safeMethods : List HttpMethod := [.get, .head, .options]

def Forbidden (response : Response) : Prop :=
  response = ⟨403, .text "forbidden cross-origin request"⟩ ∨
    response = ⟨403, .text "please update your browser: got origin header but not sec-fetch-site"⟩

/-- However the request goes, it is forbidden, no handler starts, and the database is as it was. -/
def Rejected (state : ServerState) (urlencoded : UrlEncoding) (request : HttpRequest) : Prop :=
  ∀ before result after, (Web.makeRouter state urlencoded request).Ends webServes before result after →
    (∃ response, result.1 = some response ∧ Forbidden response) ∧ after = before

private theorem webServes_total (call : WebCall) (before : WebDb) :
    ∃ reply after, webServes call before reply after := by
  cases call with
  | device request =>
    refine ⟨.error "busy", before, ?_⟩
    cases request with
    | createAuthToken code userId => exact ⟨⟨before.db, [], [], [] ++ [code]⟩, rfl, rfl⟩
    | _ => exact ⟨⟨before.db, [], [], []⟩, rfl, rfl⟩
  | starts handler => exact ⟨(), _, rfl⟩
  | randomCodes => exact ⟨([], []), before, rfl⟩
  | now => exact ⟨0, before, rfl⟩
  | authorizeUrl => exact ⟨([], []), before, rfl⟩
  | _ => exact ⟨.error "busy", before, rfl⟩

/-- A call leaves the started handlers alone, unless it is one that starts. -/
theorem webServes_started {call : WebCall} {before after : WebDb} {reply : call.Reply}
    (served : webServes call before reply after) : before.started.length ≤ after.started.length := by
  have query : ∀ {α : Type} {value : α} {answer : Except String α}, Answers value before answer after →
      after = before := by
    intro α value answer answered
    cases answer with
    | ok value => exact answered.2
    | error error => exact answered
  have write : ∀ {α : Type} {written : α → WebDb → Prop} {answer : Except String α},
      (∀ value, written value after → after.started = before.started) → Writes written before answer after →
      after.started = before.started := by
    intro α written answer kept answered
    cases answer with
    | ok value => exact kept value answered
    | error error => rw [show after = before from answered]
  have same_length (same : after.started = before.started) : before.started.length ≤ after.started.length :=
    Nat.le_of_eq (congrArg List.length same.symm)
  cases call with
  | starts handler =>
    rw [show after = _ from served]
    simp
  | device request =>
    obtain ⟨history, _, rfl⟩ := served
    exact same_length rfl
  | getDeviceTokenByUserCode | getSessionTokenById | getUserById | getUserByGithubUserId | getUserByEmail
  | getAuthTokenById => exact same_length (congrArg WebDb.started (query served))
  | createSessionToken => exact same_length (write (fun _ written => by rw [written.2.2]) served)
  | deleteSessionToken => exact same_length (write (fun _ written => by rw [written]) served)
  | createUser =>
    refine same_length (write (fun _ written => ?_) served)
    obtain ⟨_, _, _, _, rfl⟩ := written
    rfl
  | registerUserDomain =>
    refine same_length (write (fun _ written => ?_) served)
    obtain ⟨_, _, rfl⟩ := written
    rfl
  | randomCodes | now | authorizeUrl | githubUser => exact same_length (congrArg WebDb.started served)

private theorem ends_started {α : Type} {program : Program WebCalls α} {before after : WebDb} {value : α}
    (ends : program.Ends webServes before value after) : before.started.length ≤ after.started.length := by
  induction ends with
  | done => exact Nat.le_refl _
  | call served _ ih => exact Nat.le_trans (webServes_started served) ih

/-- From every state there is a run in which a handler starts, or which the check has not answered. -/
def Passes (program : Program WebCalls (Outcome Response Response × Cookies)) : Prop :=
  ∀ before, ∃ result after, program.Ends webServes before result after ∧
    (before.started.length < after.started.length ∨
      ∀ response, (result.1 = .ok response ∨ result.1 = .err response) → ¬ Forbidden response)

section
variable {cookies : Cookies} {rest : Serve Response}

private theorem passes_starts (name : HandlerName) : Passes ((Web.ask (.starts name) >>= fun _ => rest) cookies) := by
  intro before
  let started : WebDb := { before with started := before.started ++ [name] }
  obtain ⟨result, after, ends⟩ := Program.ends_total webServes_total (rest cookies) started
  have grown := ends_started ends
  refine ⟨result, after, .call (show webServes (.starts name) before () started from rfl) ends, .inl ?_⟩
  simp only [started, List.length_append, List.length_singleton] at grown
  omega

private theorem passes_response (response : Response) (other : ¬ Forbidden response)
    {outcome : Outcome Response Response} (same : outcome = .ok response ∨ outcome = .err response) :
    Passes (.done (outcome, cookies)) := by
  intro before
  refine ⟨_, before, .done _ _, .inr fun answer answered => ?_⟩
  have answer_eq : answer = response := by
    rcases same with rfl | rfl <;> rcases answered with answered | answered <;> cases answered <;> rfl
  rwa [answer_eq]

private theorem passes_field {found : Except Nat Text} {rest : Text → Serve Response}
    (passes : ∀ value, Passes (rest value cookies)) : Passes ((Web.field found >>= rest) cookies) := by
  cases found with
  | ok value => exact passes value
  | error status => exact passes_response ⟨status, .extractor⟩ (by simp [Forbidden]) (.inr rfl)

variable {state : ServerState} {urlencoded : UrlEncoding} {request : HttpRequest}

private theorem passes_handle (user : Option LoggedIn) (name : HandlerName) :
    Passes (Web.handle state urlencoded request user name cookies) := by
  cases name with
  | index | oauth2DeviceCode | getLoginDevice | logout => exact passes_starts _
  | loginCallback | apiRegisterDomain => exact passes_field fun _ => passes_field fun _ => passes_starts _
  | _ => exact passes_field fun _ => passes_starts _

private theorem dispatch_cases (user : Option LoggedIn) :
    (∃ name, Web.dispatch state urlencoded request user = Web.handle state urlencoded request user name) ∨
      ∃ status, Web.dispatch state urlencoded request user = pure ⟨status, .empty⟩ := by
  unfold Web.dispatch
  split
  · exact .inr ⟨404, rfl⟩
  · split
    · exact .inl ⟨_, rfl⟩
    · exact .inr ⟨405, rfl⟩

private theorem passes_dispatch (user : Option LoggedIn) : Passes
    (Web.dispatch state urlencoded request user cookies) := by
  rcases @dispatch_cases state urlencoded request user with ⟨name, same⟩ | ⟨status, same⟩
  · rw [same]
    exact passes_handle user name
  · rw [same]
    exact passes_response ⟨status, .empty⟩ (by simp [Forbidden]) (.inl rfl)

/-- With a session the first query can fail, and without one the request gets to its route. -/
theorem passes_auth : Passes (Web.authMiddleware (Web.dispatch state urlencoded request) cookies) := by
  cases found : cookies.get "session_id".toList with
  | none =>
    simp only [Web.authMiddleware, Method.bind_apply, Method.read_apply, Program.done_bind, found]
    exact passes_dispatch none
  | some session =>
    intro before
    refine ⟨(.panic, cookies), before, ?_, .inr ?_⟩
    · simp only [Web.authMiddleware, Method.bind_apply, Method.read_apply, Program.done_bind, found]
      exact .call (show webServes (.getSessionTokenById session) before (.error "busy") before from rfl) (.done _ _)
    · intro response answered
      rcases answered with answered | answered <;> cases answered

/-- A request from another origin that the safe methods do not excuse is rejected
if and only if it is not a POST: the list has POST in the place of OPTIONS. -/
theorem cross_origin_rejected (crossOrigin : CrossOrigin request) (unsafe_ : request.method ∉ safeMethods) :
    Rejected state urlencoded request ↔ request.method ≠ .post := by
  constructor
  · intro rejected post
    have passed : Web.checkCrossOrigin request = .ok () := by
      simp only [Web.checkCrossOrigin, post]
    let before : WebDb := ⟨.new, [], []⟩
    obtain ⟨result, after, ends, other⟩ := @passes_auth request.cookies state urlencoded request before
    have finished : ∃ answer, (Web.makeRouter state urlencoded request).Ends webServes before answer after ∧
        ∀ response, answer.1 = some response → result.1 = .ok response ∨ result.1 = .err response := by
      obtain ⟨outcome, cookies⟩ := result
      simp only [Web.makeRouter, Web.crossOriginCheckMiddleware, passed]
      cases outcome with
      | ok response => exact ⟨_, ends.bind (.done _ _), fun _ same => .inl (congrArg _ (Option.some.inj same))⟩
      | err response => exact ⟨_, ends.bind (.done _ _), fun _ same => .inr (congrArg _ (Option.some.inj same))⟩
      | panic => exact ⟨_, ends.bind (.done _ _), fun _ same => by cases same⟩
    obtain ⟨answer, ends, same⟩ := finished
    obtain ⟨⟨response, answered, forbidden⟩, unchanged⟩ := rejected _ _ _ ends
    rcases other with started | other
    · rw [unchanged] at started
      omega
    · exact other response (same response answered) forbidden
  · intro other before result after ends
    have refused : ∃ response, Web.checkCrossOrigin request = .error response ∧ Forbidden response := by
      simp only [safeMethods, List.mem_cons, List.not_mem_nil, or_false, not_or] at unsafe_
      unfold Web.checkCrossOrigin
      unfold CrossOrigin at crossOrigin
      split
      next same => exact (unsafe_.1 same).elim
      next same => exact (unsafe_.2.1 same).elim
      next same => exact (other same).elim
      next =>
        cases site : request.secFetchSite with
        | some value =>
          rw [site] at crossOrigin
          simp only [crossOrigin, or_self, if_false]
          exact ⟨_, rfl, .inl rfl⟩
        | none =>
          rw [site] at crossOrigin
          obtain ⟨origin, present⟩ := Option.ne_none_iff_exists'.mp crossOrigin
          simp only [present]
          exact ⟨_, rfl, .inr rfl⟩
    obtain ⟨response, refused, forbidden⟩ := refused
    simp only [Web.makeRouter, Web.crossOriginCheckMiddleware, refused, Method.ofOutcome_apply,
      Program.done_bind] at ends
    cases ends
    exact ⟨⟨response, rfl, forbidden⟩, rfl⟩

end

def anyEncoding : UrlEncoding := ⟨fun token redirectTo => token ++ redirectTo, fun _ => none⟩

/-- A request that a page of another site makes a browser send, with the cookie of alice's session. -/
def crossSite (method : HttpMethod) (path : Text) : HttpRequest where
  method := method
  path := path
  secFetchSite := some "cross-site".toList
  origin := some "https://evil.example.com".toList
  cookies := [("session_id".toList, "s".toList)]
  bearer := .error 400
  query := fun _ => .error 400
  form := fun _ => .ok "ABCD-EFGH".toList
  json := fun _ => .error 415

private theorem crossSite_crossOrigin (method : HttpMethod) (path : Text) : CrossOrigin (crossSite method path) := by
  refine ⟨?_, ?_⟩ <;> decide

theorem delete_rejected :
    Rejected ⟨[], [], false⟩ anyEncoding (crossSite .delete "/login/device/authorize".toList) := by
  have unsafe_ : (crossSite .delete "/login/device/authorize".toList).method ∉ safeMethods := by decide
  exact (cross_origin_rejected (crossSite_crossOrigin _ _) unsafe_).mpr (by decide)

/-- A device of alice, and the handlers that have started. -/
def device (state : TokenState) (userId : Text) (started : List HandlerName) : WebDb where
  db := { users := [⟨"alice".toList, "alice@mail".toList, none⟩], userDomains := [], authTokens := [],
          deviceTokens := [⟨"device".toList, "ABCD-EFGH".toList, state, userId, 5000, 5, 900000⟩] }
  sessions := [⟨"s".toList, "alice".toList⟩]
  started := started

private theorem approval_ends : (Web.makeRouter ⟨[], [], false⟩ anyEncoding
    (crossSite .post "/login/device/authorize".toList)).Ends webServes (device .pending [] [])
      (some (Web.page .done), [("session_id".toList, "s".toList)])
      (device .approved "alice".toList [.postApproveDevice]) := by
  let token : DeviceToken := ⟨"device".toList, "ABCD-EFGH".toList, .pending, [], 5000, 5, 900000⟩
  let begun := device .pending [] [.postApproveDevice]
  let history : History := ⟨begun.db, [], [], []⟩
  let approved : History := ⟨(device .approved "alice".toList []).db,
    [("device".toList, .approve "alice".toList)], [], []⟩
  refine .call (show webServes (.getSessionTokenById "s".toList) (device .pending [] [])
    (.ok (some ⟨"s".toList, "alice".toList⟩)) (device .pending [] []) from ⟨rfl, rfl⟩) ?_
  refine .call (show webServes (.getUserById "alice".toList) (device .pending [] [])
    (.ok (some ⟨⟨"alice".toList, "alice@mail".toList, none⟩, []⟩)) (device .pending [] []) from ⟨rfl, rfl⟩) ?_
  refine .call (show webServes (.starts .postApproveDevice) (device .pending [] []) () begun from rfl) ?_
  refine .call (show webServes (.getDeviceTokenByUserCode "ABCD-EFGH".toList) begun (.ok (some token)) begun
    from ⟨rfl, rfl⟩) ?_
  refine .call (show webServes (.device (.getDeviceTokenByDeviceCode "device".toList)) begun (.ok (some token)) begun
    from ⟨history, ⟨rfl, rfl⟩, rfl⟩) ?_
  refine .call (show webServes (.device (.updateDeviceToken (.decide (.approve "alice".toList))
    { token with state := .approved, approvedByUserId := "alice".toList })) begun (.ok ())
    (device .approved "alice".toList [.postApproveDevice]) from ⟨approved, ⟨_, rfl, rfl⟩, rfl⟩) ?_
  exact .done _ _

/-- A form on another site approves a device in alice's name. -/
theorem forged_approval : CrossOrigin (crossSite .post "/login/device/authorize".toList) ∧
    (crossSite .post "/login/device/authorize".toList).method ∉ safeMethods ∧
    ¬ Rejected ⟨[], [], false⟩ anyEncoding (crossSite .post "/login/device/authorize".toList) := by
  refine ⟨crossSite_crossOrigin _ _, by decide, fun rejected => ?_⟩
  have unchanged := (rejected _ _ _ approval_ends).2
  have states := congrArg (fun state : WebDb => state.db.deviceTokens.map DeviceToken.state) unchanged
  exact absurd states (by decide)

end Pos2.Tunnel
