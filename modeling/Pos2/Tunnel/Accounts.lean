import Mathlib.Data.List.Nodup
import Pos2.Calls.Journal
import Pos2.Tunnel.CrossOrigin

/-! The database of the web server with a journal of all its calls. Any number of requests
are served at once; every row of a table goes back to the call that wrote it, and every
row that names a user names one who is there. -/

namespace Pos2.Tunnel
open Calls

/-- A request and the task that serves it, and no other request. -/
structure Caller (ι : Type) where
  task : ι
  request : HttpRequest

abbrev WebEntry (ι : Type) := Entry WebCalls (Caller ι)

abbrev WebJournal (ι : Type) := Journal WebCalls (Caller ι)

section
variable {ι : Type}

def CreatedUser (user : User) : WebJournal ι → Prop := Journal.Once fun entry _ =>
  ∃ caller, entry = ⟨caller, .createUser user.email user.githubUserId, .ok ⟨user, []⟩⟩

def HasUser (userId : Text) (journal : WebJournal ι) : Prop := ∃ user, CreatedUser user journal ∧ user.id = userId

/-- The session was created and not deleted since. -/
def OpenSession (session : Session) : WebJournal ι → Prop :=
  Journal.Since (fun entry => ∀ caller, entry ≠ ⟨caller, .deleteSessionToken session.id, .ok ()⟩) fun entry _ =>
    ∃ caller, entry = ⟨caller, .createSessionToken session.userId, .ok session⟩

def Issued (token : AuthToken) : WebJournal ι → Prop := Journal.Once fun entry _ =>
  ∃ caller code, entry = ⟨caller, .device (.createAuthToken code token.userId), .ok token⟩

def RegisteredDomain (row : UserDomain) : WebJournal ι → Prop := Journal.Once fun entry _ =>
  ∃ caller, entry = ⟨caller, .registerUserDomain row.userId row.domain, .ok ()⟩

/-- A device got these two codes. -/
def HandedOut (deviceCode userCode : Text) : WebJournal ι → Prop := Journal.Once fun entry _ =>
  ∃ caller token, entry = ⟨caller, .device (.insertDeviceToken token), .ok ()⟩ ∧
    token.deviceCode = deviceCode ∧ token.userCode = userCode

def Approved (deviceCode userId : Text) : WebJournal ι → Prop := Journal.Once fun entry _ =>
  ∃ caller token, entry = ⟨caller, .device (.updateDeviceToken (.decide (.approve userId)) token), .ok ()⟩ ∧
    token.deviceCode = deviceCode

end

/-- The primary keys and the unique indexes. -/
structure WebDb.Unique (web : WebDb) : Prop where
  userIds : (web.db.users.map User.id).Nodup
  emails : (web.db.users.map User.email).Nodup
  githubUsers : (web.db.users.filterMap User.githubUserId).Nodup
  sessions : (web.sessions.map Session.id).Nodup
  authTokens : (web.db.authTokens.map AuthToken.id).Nodup
  domains : (web.db.userDomains.map UserDomain.domain).Nodup
  deviceCodes : (web.db.deviceTokens.map DeviceToken.deviceCode).Nodup
  userCodes : (web.db.deviceTokens.map DeviceToken.userCode).Nodup

def WebDb.Knows (web : WebDb) (userId : Text) : Prop := ∃ user ∈ web.db.users, user.id = userId

/-- Whoever is named in a row is there. The schema has no foreign keys. -/
structure WebDb.Referential (web : WebDb) : Prop where
  sessions : ∀ session ∈ web.sessions, web.Knows session.userId
  authTokens : ∀ token ∈ web.db.authTokens, web.Knows token.userId
  domains : ∀ row ∈ web.db.userDomains, web.Knows row.userId
  approvers : ∀ row ∈ web.db.deviceTokens, row.state = .approved ∨ row.state = .exchanged →
    web.Knows row.approvedByUserId

/-- Every row goes back to the call that wrote it. -/
structure WebDb.Recorded {ι : Type} (web : WebDb) (journal : WebJournal ι) : Prop where
  users : ∀ user, user ∈ web.db.users ↔ CreatedUser user journal
  sessions : ∀ session, session ∈ web.sessions ↔ OpenSession session journal
  authTokens : ∀ token, token ∈ web.db.authTokens ↔ Issued token journal
  domains : ∀ row, row ∈ web.db.userDomains ↔ RegisteredDomain row journal
  codes : ∀ row ∈ web.db.deviceTokens, HandedOut row.deviceCode row.userCode journal
  approvals : ∀ row ∈ web.db.deviceTokens, row.state = .approved ∨ row.state = .exchanged →
    Approved row.deviceCode row.approvedByUserId journal

structure WebDb.Sound {ι : Type} (web : WebDb) (journal : WebJournal ι) : Prop where
  unique : web.Unique
  referential : web.Referential
  recorded : web.Recorded journal

section
variable {ι : Type}

/-- The session that the cookie of the caller names was found. -/
def Authenticated (caller : Caller ι) (session : Session) : WebJournal ι → Prop := Journal.Once fun entry _ =>
  ∃ cookie, Cookies.get caller.request.cookies "session_id".toList = some cookie ∧
    entry = ⟨caller, .getSessionTokenById cookie, .ok (some session)⟩

/-- The auth token of the caller was found. -/
def Presented (caller : Caller ι) (token : AuthToken) : WebJournal ι → Prop := Journal.Once fun entry _ =>
  ∃ bearer, caller.request.bearer = .ok bearer ∧ entry = ⟨caller, .getAuthTokenById bearer, .ok (some token)⟩

/-- The caller sent the user code of a device. -/
def Typed (caller : Caller ι) (deviceCode : Text) : WebJournal ι → Prop := Journal.Once fun entry _ =>
  ∃ userCode row, caller.request.form "user_code".toList = .ok userCode ∧
    entry = ⟨caller, .getDeviceTokenByUserCode userCode, .ok (some row)⟩ ∧ row.deviceCode = deviceCode

/-- GitHub told who the code of the caller is for. -/
def Vouched (caller : Caller ι) (github : GithubUserInfo) : WebJournal ι → Prop := Journal.Once fun entry _ =>
  ∃ code, caller.request.query "code".toList = .ok code ∧ entry = ⟨caller, .githubUser code, .ok github⟩

/-- The caller polled with a device code that was approved. -/
def PolledApproved (caller : Caller ι) (deviceCode userId : Text) : WebJournal ι → Prop := Journal.Once fun entry _ =>
  ∃ row, caller.request.form "device_code".toList = .ok deviceCode ∧
    entry = ⟨caller, .device (.getDeviceTokenByDeviceCode deviceCode), .ok (some row)⟩ ∧
    row.state = .approved ∧ row.approvedByUserId = userId

def Exchanging (caller : Caller ι) (deviceCode userId : Text) : WebJournal ι → Prop := Journal.Once fun entry _ =>
  ∃ row, entry = ⟨caller, .device (.updateDeviceToken .exchange row), .ok ()⟩ ∧
    row.deviceCode = deviceCode ∧ row.approvedByUserId = userId

/-- A request for one of the routes of a handler. -/
def Addressed (request : HttpRequest) (name : HandlerName) : Prop :=
  ∃ method, (request.path, method, name) ∈ Web.routes ∧
    (method = request.method ∨ method = .get ∧ request.method = .head)

/-- The callback bears the state that the login in the same browser began with. -/
def SameState (urlencoded : UrlEncoding) (request : HttpRequest) : Prop :=
  ∃ cookie token redirectTo, Cookies.get request.cookies "github_oauth2_state".toList = some cookie ∧
    urlencoded.decode cookie = some (token, redirectTo) ∧ request.query "state".toList = .ok token

variable (state : ServerState) (urlencoded : UrlEncoding)

/-- A login by way of GitHub, or of the test login where there is one. -/
inductive LogsIn (caller : Caller ι) (userId : Text) (journal : WebJournal ι) : Prop where
  | github {user : User} {github : GithubUserInfo} (addressed : Addressed caller.request .loginCallback)
      (same : SameState urlencoded caller.request) (vouched : Vouched caller github journal)
      (created : CreatedUser user journal) (named : user.id = userId) (is : user.githubUserId = some github.id) :
      LogsIn caller userId journal
  | test {user : User} (addressed : Addressed caller.request .loginTest) (enabled : state.enableTestLogin = true)
      (created : CreatedUser user journal) (named : user.id = userId)
      (asked : caller.request.json "email".toList = .ok user.email) : LogsIn caller userId journal

/-- What a request has before it makes a call. -/
def WebCall.Needs (caller : Caller ι) (call : WebCall) (journal : WebJournal ι) : Prop :=
  match call with
  | .createSessionToken userId => LogsIn state urlencoded caller userId journal
  | .githubUser _ => SameState urlencoded caller.request
  | .createUser email githubUserId => match githubUserId with
    | some id => Vouched caller ⟨id, email⟩ journal
    | none => state.enableTestLogin = true
  | .getUserById userId => HasUser userId journal
  | .deleteSessionToken id => Addressed caller.request .logout ∧
    ∃ session, Authenticated caller session journal ∧ session.id = id
  | .registerUserDomain userId domain => Addressed caller.request .apiRegisterDomain ∧
    caller.request.json "domain".toList = .ok domain ∧ (∃ suffix ∈ state.availableSuffixes, suffix <:+ domain) ∧
    ∃ token, Presented caller token journal ∧ token.userId = userId ∧ HasUser userId journal
  | .device (.insertDeviceToken token) => token.state = .pending
  | .device (.updateDeviceToken (.decide (.approve userId)) token) => token.approvedByUserId = userId ∧
    Addressed caller.request .postApproveDevice ∧ Typed caller token.deviceCode journal ∧
    ∃ session, Authenticated caller session journal ∧ session.userId = userId ∧ HasUser userId journal
  | .device (.updateDeviceToken (.decide .reject) token) => token.state = .rejected ∧
    Addressed caller.request .postRejectDevice ∧ Typed caller token.deviceCode journal
  | .device (.updateDeviceToken .exchange token) =>
    PolledApproved caller token.deviceCode token.approvedByUserId journal ∧
      Approved token.deviceCode token.approvedByUserId journal ∧ HasUser token.approvedByUserId journal
  | .device (.createAuthToken code userId) => Exchanging caller code userId journal ∧ HasUser userId journal
  | _ => True

/-- What an answer tells. -/
def WebCall.Tells (call : WebCall) (reply : call.Reply) (journal : WebJournal ι) : Prop :=
  match call with
  | .getSessionTokenById id => ∀ session, reply = .ok (some session) →
    session.id = id ∧ OpenSession session journal ∧ HasUser session.userId journal
  | .getUserById id => ∀ user, reply = .ok user → ∃ info, user = some info ∧ info.user.id = id ∧
    ∀ domain ∈ info.domains, RegisteredDomain ⟨id, domain⟩ journal
  | .getUserByGithubUserId id => ∀ info, reply = .ok (some info) →
    CreatedUser info.user journal ∧ info.user.githubUserId = some id
  | .getUserByEmail email => ∀ info, reply = .ok (some info) → CreatedUser info.user journal ∧ info.user.email = email
  | .createUser email githubUserId => ∀ info, reply = .ok info → ∃ id, info = ⟨⟨id, email, githubUserId⟩, []⟩
  | .getAuthTokenById id => ∀ token, reply = .ok (some token) →
    token.id = id ∧ Issued token journal ∧ HasUser token.userId journal
  | .getDeviceTokenByUserCode code => ∀ row, reply = .ok (some row) → HandedOut row.deviceCode code journal
  | .device (.getDeviceTokenByDeviceCode code) => ∀ row, reply = .ok (some row) → row.deviceCode = code ∧
    (row.state = .approved → Approved code row.approvedByUserId journal ∧ HasUser row.approvedByUserId journal)
  | .device (.createAuthToken _ userId) => ∀ token, reply = .ok token → token.userId = userId
  | _ => True

def webRules : Rules WebCalls (Caller ι) WebDb where
  needs caller call journal := call.Needs state urlencoded caller journal
  fits entry journal := entry.request.Tells entry.reply journal
  invariant web journal := web.Sound journal

end

section
variable {ι : Type} {caller : Caller ι} {journal longer : WebJournal ι} {entry : WebEntry ι}

theorem HasUser.later {userId : Text} (has : HasUser userId journal) (grown : journal <:+ longer) :
    HasUser userId longer := by
  obtain ⟨user, created, named⟩ := has
  exact ⟨user, Journal.Once.later created grown, named⟩

theorem LogsIn.later {state : ServerState} {urlencoded : UrlEncoding} {userId : Text}
    (logsIn : LogsIn state urlencoded caller userId journal) (grown : journal <:+ longer) :
    LogsIn state urlencoded caller userId longer := by
  cases logsIn with
  | github addressed same vouched created named is =>
    exact .github addressed same (Journal.Once.later vouched grown) (Journal.Once.later created grown) named is
  | test addressed enabled created named asked =>
    exact .test addressed enabled (Journal.Once.later created grown) named asked

theorem LogsIn.hasUser {state : ServerState} {urlencoded : UrlEncoding} {userId : Text}
    (logsIn : LogsIn state urlencoded caller userId journal) : HasUser userId journal := by
  cases logsIn with
  | github _ _ _ created named _ => exact ⟨_, created, named⟩
  | test _ _ created named _ => exact ⟨_, created, named⟩

theorem WebCall.Needs.later {state : ServerState} {urlencoded : UrlEncoding} {call : WebCall}
    (needs : call.Needs state urlencoded caller journal) (grown : journal <:+ longer) :
    call.Needs state urlencoded caller longer := by
  cases call with
  | createSessionToken userId => exact LogsIn.later needs grown
  | githubUser code => exact needs
  | createUser email githubUserId =>
    cases githubUserId with
    | none => exact needs
    | some id => exact Journal.Once.later needs grown
  | getUserById userId => exact HasUser.later needs grown
  | deleteSessionToken id =>
    obtain ⟨addressed, session, authenticated, same⟩ := needs
    exact ⟨addressed, session, Journal.Once.later authenticated grown, same⟩
  | registerUserDomain userId domain =>
    obtain ⟨addressed, asked, suffix, token, presented, same, has⟩ := needs
    exact ⟨addressed, asked, suffix, token, Journal.Once.later presented grown, same, has.later grown⟩
  | device request =>
    cases request with
    | getDeviceTokenByDeviceCode code => trivial
    | insertDeviceToken token => exact needs
    | createAuthToken code userId => exact ⟨Journal.Once.later needs.1 grown, needs.2.later grown⟩
    | updateDeviceToken purpose token =>
      match purpose, needs with
      | .decide (.approve userId), needs =>
        obtain ⟨same, addressed, typed, session, authenticated, named, has⟩ := needs
        exact ⟨same, addressed, Journal.Once.later typed grown, session, Journal.Once.later authenticated grown,
          named, has.later grown⟩
      | .decide .reject, needs => exact ⟨needs.1, needs.2.1, Journal.Once.later needs.2.2 grown⟩
      | .exchange, needs =>
        exact ⟨Journal.Once.later needs.1 grown, Journal.Once.later needs.2.1 grown, needs.2.2.later grown⟩
  | _ => trivial

private theorem createdUser_other {user : User}
    (other : ∀ caller email id user, entry ≠ ⟨caller, .createUser email id, .ok user⟩) :
    CreatedUser user (entry :: journal) ↔ CreatedUser user journal := by
  unfold CreatedUser
  rw [Journal.once_cons, or_iff_right]
  rintro ⟨caller, same⟩
  exact other _ _ _ _ same

private theorem issued_other {token : AuthToken}
    (other : ∀ caller code userId token, entry ≠ ⟨caller, .device (.createAuthToken code userId), .ok token⟩) :
    Issued token (entry :: journal) ↔ Issued token journal := by
  unfold Issued
  rw [Journal.once_cons, or_iff_right]
  rintro ⟨caller, code, same⟩
  exact other _ _ _ _ same

private theorem registeredDomain_other {row : UserDomain}
    (other : ∀ caller userId domain, entry ≠ ⟨caller, .registerUserDomain userId domain, .ok ()⟩) :
    RegisteredDomain row (entry :: journal) ↔ RegisteredDomain row journal := by
  unfold RegisteredDomain
  rw [Journal.once_cons, or_iff_right]
  rintro ⟨caller, same⟩
  exact other _ _ _ same

private theorem openSession_other {session : Session}
    (created : ∀ caller userId session, entry ≠ ⟨caller, .createSessionToken userId, .ok session⟩)
    (deleted : ∀ caller id, entry ≠ ⟨caller, .deleteSessionToken id, .ok ()⟩) :
    OpenSession session (entry :: journal) ↔ OpenSession session journal := by
  constructor
  · rintro (⟨caller, same⟩ | ⟨_, before⟩)
    · exact (created _ _ _ same).elim
    · exact before
  · intro before
    exact .inr ⟨fun caller => deleted caller session.id, before⟩

/-- The entry writes no user, session, auth token or domain. -/
structure Quiet (entry : WebEntry ι) : Prop where
  users : ∀ caller email id user, entry ≠ ⟨caller, .createUser email id, .ok user⟩
  sessions : ∀ caller userId session, entry ≠ ⟨caller, .createSessionToken userId, .ok session⟩
  deletions : ∀ caller id, entry ≠ ⟨caller, .deleteSessionToken id, .ok ()⟩
  authTokens : ∀ caller code userId token, entry ≠ ⟨caller, .device (.createAuthToken code userId), .ok token⟩
  domains : ∀ caller userId domain, entry ≠ ⟨caller, .registerUserDomain userId domain, .ok ()⟩

variable {web after : WebDb}

namespace WebDb

theorem Recorded.quiet (recorded : web.Recorded journal) (quiet : Quiet entry) : web.Recorded (entry :: journal) where
  users user := by rw [createdUser_other quiet.users, recorded.users]
  sessions session := by rw [openSession_other quiet.sessions quiet.deletions, recorded.sessions]
  authTokens token := by rw [issued_other quiet.authTokens, recorded.authTokens]
  domains row := by rw [registeredDomain_other quiet.domains, recorded.domains]
  codes row member := Journal.Once.next (recorded.codes row member)
  approvals row member state := Journal.Once.next (recorded.approvals row member state)

theorem Sound.quiet (sound : web.Sound journal) (quiet : Quiet entry) : web.Sound (entry :: journal) :=
  ⟨sound.unique, sound.referential, sound.recorded.quiet quiet⟩

/-- Which handlers have started does not matter. -/
theorem Sound.started (sound : web.Sound journal) (started : List HandlerName) :
    WebDb.Sound { web with started } journal :=
  ⟨⟨sound.unique.userIds, sound.unique.emails, sound.unique.githubUsers, sound.unique.sessions,
      sound.unique.authTokens, sound.unique.domains, sound.unique.deviceCodes, sound.unique.userCodes⟩,
    ⟨sound.referential.sessions, sound.referential.authTokens, sound.referential.domains, sound.referential.approvers⟩,
    ⟨sound.recorded.users, sound.recorded.sessions, sound.recorded.authTokens, sound.recorded.domains,
      sound.recorded.codes, sound.recorded.approvals⟩⟩

theorem Recorded.hasUser (recorded : web.Recorded journal) {userId : Text} :
    HasUser userId journal ↔ web.Knows userId := by
  constructor
  · rintro ⟨user, created, named⟩
    exact ⟨user, (recorded.users user).mpr created, named⟩
  · rintro ⟨user, member, named⟩
    exact ⟨user, (recorded.users user).mp member, named⟩

theorem Knows.find (knows : web.Knows userId) : ∃ info, web.db.getUserById userId = some info ∧
    info.user.id = userId ∧ ∀ domain ∈ info.domains, ⟨userId, domain⟩ ∈ web.db.userDomains := by
  obtain ⟨user, member, named⟩ := knows
  cases found : web.db.users.find? fun user => user.id = userId with
  | none =>
    have absent := List.find?_eq_none.mp found user member
    simp [named] at absent
  | some first =>
    have same : first.id = userId := by simpa using List.find?_some found
    refine ⟨_, by rw [DB.getUserById, found]; rfl, same, ?_⟩
    dsimp only
    rw [same]
    rintro domain member
    obtain ⟨row, present, rfl⟩ := List.mem_map.mp member
    obtain ⟨present, owner⟩ := List.mem_filter.mp present
    rw [← of_decide_eq_true owner]
    exact present

/-- The user behind an answer is a row. -/
theorem userWhere_some {which : User → Bool} {info : UserInfo} (nodup : (web.db.users.map User.id).Nodup)
    (found : web.userWhere which = some info) : info.user ∈ web.db.users ∧ which info.user = true := by
  obtain ⟨user, first, second⟩ := Option.bind_eq_some_iff.mp found
  obtain ⟨row, again, rfl⟩ := Option.map_eq_some_iff.mp second
  have member := List.mem_of_find?_eq_some first
  have member' := List.mem_of_find?_eq_some again
  have named := List.find?_some again
  have same : row = user := List.inj_on_of_nodup_map nodup member' member (by simpa using named)
  subst same
  exact ⟨member, List.find?_some first⟩

end WebDb

private theorem nodup_snoc {α β : Type} {f : α → β} {rows : List α} {row : α} (nodup : (rows.map f).Nodup)
    (fresh : ∀ other ∈ rows, f other ≠ f row) : ((rows ++ [row]).map f).Nodup := by
  rw [List.map_append, List.nodup_append]
  refine ⟨nodup, List.nodup_singleton _, ?_⟩
  intro key member other mine
  obtain ⟨other_row, present, rfl⟩ := List.mem_map.mp member
  rw [List.mem_singleton.mp mine]
  exact fresh other_row present

namespace WebDb

theorem Knows.mono {userId : Text} (knows : web.Knows userId) (kept : ∀ user ∈ web.db.users, user ∈ after.db.users) :
    after.Knows userId := by
  obtain ⟨user, member, named⟩ := knows
  exact ⟨user, kept user member, named⟩

theorem Sound.createUser (sound : web.Sound journal) {id email : Text} {githubUserId : Option Int} {db : DB}
    (created : web.db.createUser id email githubUserId [] = some db) :
    WebDb.Sound { web with db }
      (⟨caller, .createUser email githubUserId, .ok ⟨⟨id, email, githubUserId⟩, []⟩⟩ :: journal) := by
  have inserted : web.db.insertUser ⟨id, email, githubUserId⟩ = some db := by
    simpa only [DB.createUser, List.foldlM_nil, Option.pure_def, Option.bind_eq_bind, Option.bind_fun_some] using created
  unfold DB.insertUser at inserted
  split at inserted
  next => cases inserted
  next free =>
    cases inserted
    simp only [List.any_eq_true, decide_eq_true_eq, not_exists, not_and, not_or] at free
    have kept (user : User) (member : user ∈ web.db.users) :
        user ∈ web.db.users ++ [⟨id, email, githubUserId⟩] := List.mem_append_left _ member
    refine ⟨⟨?_, ?_, ?_, sound.unique.sessions, sound.unique.authTokens, sound.unique.domains,
      sound.unique.deviceCodes, sound.unique.userCodes⟩, ⟨?_, ?_, ?_, ?_⟩, ⟨?_, ?_, ?_, ?_, ?_, ?_⟩⟩
    · exact nodup_snoc sound.unique.userIds fun other member => (free other member).1
    · exact nodup_snoc sound.unique.emails fun other member => (free other member).2.1
    · rw [List.filterMap_append]
      cases githubUserId with
      | none => simpa using sound.unique.githubUsers
      | some github =>
        refine List.nodup_append.mpr ⟨sound.unique.githubUsers, List.nodup_singleton _, ?_⟩
        intro key member other mine
        obtain ⟨user, present, named⟩ := List.mem_filterMap.mp member
        obtain rfl : other = github := by simpa using mine
        rintro rfl
        exact (free user present).2.2 (by simp) named
    · exact fun session member => (sound.referential.sessions session member).mono kept
    · exact fun token member => (sound.referential.authTokens token member).mono kept
    · exact fun row member => (sound.referential.domains row member).mono kept
    · exact fun row member state => (sound.referential.approvers row member state).mono kept
    · intro user
      unfold CreatedUser
      rw [Journal.once_cons, List.mem_append, sound.recorded.users, or_comm]
      refine or_congr ?_ Iff.rfl
      constructor
      · intro member
        rw [List.mem_singleton.mp member]
        exact ⟨caller, rfl⟩
      · obtain ⟨userId, address, github⟩ := user
        rintro ⟨_, same⟩
        cases same
        exact List.mem_singleton_self _
    · exact fun session => by rw [openSession_other (by simp) (by simp), sound.recorded.sessions]
    · exact fun token => by rw [issued_other (by simp), sound.recorded.authTokens]
    · exact fun row => by rw [registeredDomain_other (by simp), sound.recorded.domains]
    · exact fun row member => .next (sound.recorded.codes row member)
    · exact fun row member state => .next (sound.recorded.approvals row member state)

theorem Sound.createSession (sound : web.Sound journal) {session : Session}
    (fresh : ∀ other ∈ web.sessions, other.id ≠ session.id) (knows : web.Knows session.userId) :
    WebDb.Sound { web with sessions := web.sessions ++ [session] }
      (⟨caller, .createSessionToken session.userId, .ok session⟩ :: journal) := by
  refine ⟨⟨sound.unique.userIds, sound.unique.emails, sound.unique.githubUsers, nodup_snoc sound.unique.sessions fresh,
    sound.unique.authTokens, sound.unique.domains, sound.unique.deviceCodes, sound.unique.userCodes⟩,
    ⟨?_, sound.referential.authTokens, sound.referential.domains, sound.referential.approvers⟩, ⟨?_, ?_, ?_, ?_, ?_, ?_⟩⟩
  · intro other member
    rcases List.mem_append.mp member with present | new
    · exact sound.referential.sessions other present
    · rw [List.mem_singleton.mp new]
      exact knows
  · exact fun user => by rw [createdUser_other (by simp), sound.recorded.users]
  · intro other
    rw [List.mem_append, sound.recorded.sessions]
    constructor
    · rintro (before | new)
      · exact .inr ⟨by simp, before⟩
      · rw [List.mem_singleton.mp new]
        exact .inl ⟨caller, rfl⟩
    · obtain ⟨id, userId⟩ := other
      obtain ⟨mine, owner⟩ := session
      rintro (⟨_, same⟩ | ⟨_, before⟩)
      · cases same
        exact .inr (List.mem_singleton_self _)
      · exact .inl before
  · exact fun token => by rw [issued_other (by simp), sound.recorded.authTokens]
  · exact fun row => by rw [registeredDomain_other (by simp), sound.recorded.domains]
  · exact fun row member => .next (sound.recorded.codes row member)
  · exact fun row member state => .next (sound.recorded.approvals row member state)

theorem Sound.deleteSession (sound : web.Sound journal) (id : Text) :
    WebDb.Sound { web with sessions := web.sessions.filter fun session => session.id ≠ id }
      (⟨caller, .deleteSessionToken id, .ok ()⟩ :: journal) := by
  refine ⟨⟨sound.unique.userIds, sound.unique.emails, sound.unique.githubUsers,
    sound.unique.sessions.sublist (List.filter_sublist.map _),
    sound.unique.authTokens, sound.unique.domains, sound.unique.deviceCodes, sound.unique.userCodes⟩,
    ⟨?_, sound.referential.authTokens, sound.referential.domains, sound.referential.approvers⟩, ⟨?_, ?_, ?_, ?_, ?_, ?_⟩⟩
  · exact fun session member => sound.referential.sessions session (List.mem_filter.mp member).1
  · exact fun user => by rw [createdUser_other (by simp), sound.recorded.users]
  · intro session
    rw [List.mem_filter, sound.recorded.sessions]
    constructor
    · rintro ⟨before, other⟩
      refine .inr ⟨fun _ same => ?_, before⟩
      cases same
      simp at other
    · rintro (⟨_, impossible⟩ | ⟨kept, before⟩)
      · cases impossible
      · refine ⟨before, decide_eq_true fun same => ?_⟩
        exact kept caller (by rw [same])
  · exact fun token => by rw [issued_other (by simp), sound.recorded.authTokens]
  · exact fun row => by rw [registeredDomain_other (by simp), sound.recorded.domains]
  · exact fun row member => .next (sound.recorded.codes row member)
  · exact fun row member state => .next (sound.recorded.approvals row member state)

theorem Sound.registerDomain (sound : web.Sound journal) {userId domain : Text} {db : DB}
    (registered : web.db.registerUserDomain userId domain = some db) (knows : web.Knows userId) :
    WebDb.Sound { web with db } (⟨caller, .registerUserDomain userId domain, .ok ()⟩ :: journal) := by
  unfold DB.registerUserDomain at registered
  split at registered
  next => cases registered
  next free =>
    cases registered
    simp only [List.any_eq_true, decide_eq_true_eq, not_exists, not_and] at free
    refine ⟨⟨sound.unique.userIds, sound.unique.emails, sound.unique.githubUsers, sound.unique.sessions,
      sound.unique.authTokens, nodup_snoc sound.unique.domains free, sound.unique.deviceCodes, sound.unique.userCodes⟩,
      ⟨sound.referential.sessions, sound.referential.authTokens, ?_, sound.referential.approvers⟩,
      ⟨?_, ?_, ?_, ?_, ?_, ?_⟩⟩
    · intro row member
      rcases List.mem_append.mp member with present | new
      · exact sound.referential.domains row present
      · rw [List.mem_singleton.mp new]
        exact knows
    · exact fun user => by rw [createdUser_other (by simp), sound.recorded.users]
    · exact fun session => by rw [openSession_other (by simp) (by simp), sound.recorded.sessions]
    · exact fun token => by rw [issued_other (by simp), sound.recorded.authTokens]
    · intro row
      unfold RegisteredDomain
      rw [Journal.once_cons, List.mem_append, sound.recorded.domains, or_comm]
      refine or_congr ?_ Iff.rfl
      constructor
      · intro member
        rw [List.mem_singleton.mp member]
        exact ⟨caller, rfl⟩
      · rintro ⟨_, same⟩
        cases same
        exact List.mem_singleton_self _
    · exact fun row member => .next (sound.recorded.codes row member)
    · exact fun row member state => .next (sound.recorded.approvals row member state)

theorem Sound.createAuthToken (sound : web.Sound journal) {id code userId : Text} {token : AuthToken} {db : DB}
    (created : web.db.createAuthToken id userId = some (token, db)) (knows : web.Knows userId) :
    token.userId = userId ∧
      WebDb.Sound { web with db } (⟨caller, .device (.createAuthToken code userId), .ok token⟩ :: journal) := by
  unfold DB.createAuthToken at created
  split at created
  next => cases created
  next free =>
    cases created
    simp only [List.any_eq_true, decide_eq_true_eq, not_exists, not_and] at free
    refine ⟨rfl, ⟨sound.unique.userIds, sound.unique.emails, sound.unique.githubUsers, sound.unique.sessions,
      nodup_snoc sound.unique.authTokens free, sound.unique.domains, sound.unique.deviceCodes, sound.unique.userCodes⟩,
      ⟨sound.referential.sessions, ?_, sound.referential.domains, sound.referential.approvers⟩, ⟨?_, ?_, ?_, ?_, ?_, ?_⟩⟩
    · intro other member
      rcases List.mem_append.mp member with present | new
      · exact sound.referential.authTokens other present
      · rw [List.mem_singleton.mp new]
        exact knows
    · exact fun user => by rw [createdUser_other (by simp), sound.recorded.users]
    · exact fun session => by rw [openSession_other (by simp) (by simp), sound.recorded.sessions]
    · intro other
      unfold Issued
      rw [Journal.once_cons, List.mem_append, sound.recorded.authTokens, or_comm]
      refine or_congr ?_ Iff.rfl
      constructor
      · intro member
        rw [List.mem_singleton.mp member]
        exact ⟨caller, code, rfl⟩
      · obtain ⟨tokenId, owner⟩ := other
        rintro ⟨_, _, same⟩
        cases same
        exact List.mem_singleton_self _
    · exact fun row => by rw [registeredDomain_other (by simp), sound.recorded.domains]
    · exact fun row member => .next (sound.recorded.codes row member)
    · exact fun row member state => .next (sound.recorded.approvals row member state)

theorem Sound.insertDevice (sound : web.Sound journal) {token : DeviceToken} {db : DB}
    (inserted : web.db.insertDeviceToken token = some db) (pending : token.state = .pending) :
    WebDb.Sound { web with db } (⟨caller, .device (.insertDeviceToken token), .ok ()⟩ :: journal) := by
  unfold DB.insertDeviceToken at inserted
  split at inserted
  next => cases inserted
  next free =>
    cases inserted
    simp only [List.any_eq_true, decide_eq_true_eq, not_exists, not_and, not_or] at free
    refine ⟨⟨sound.unique.userIds, sound.unique.emails, sound.unique.githubUsers, sound.unique.sessions,
      sound.unique.authTokens, sound.unique.domains, nodup_snoc sound.unique.deviceCodes fun other member =>
        (free other member).1, nodup_snoc sound.unique.userCodes fun other member => (free other member).2⟩,
      ⟨sound.referential.sessions, sound.referential.authTokens, sound.referential.domains, ?_⟩,
      ⟨?_, ?_, ?_, ?_, ?_, ?_⟩⟩
    · intro row member state
      rcases List.mem_append.mp member with present | new
      · exact sound.referential.approvers row present state
      · rw [List.mem_singleton.mp new, pending] at state
        simp at state
    · exact fun user => by rw [createdUser_other (by simp), sound.recorded.users]
    · exact fun session => by rw [openSession_other (by simp) (by simp), sound.recorded.sessions]
    · exact fun token => by rw [issued_other (by simp), sound.recorded.authTokens]
    · exact fun row => by rw [registeredDomain_other (by simp), sound.recorded.domains]
    · intro row member
      rcases List.mem_append.mp member with present | new
      · exact .next (sound.recorded.codes row present)
      · rw [List.mem_singleton.mp new]
        exact .here ⟨caller, token, rfl, rfl, rfl⟩
    · intro row member state
      rcases List.mem_append.mp member with present | new
      · exact .next (sound.recorded.approvals row present state)
      · rw [List.mem_singleton.mp new, pending] at state
        simp at state

/-- An update keeps the codes, and leaves an approver only where there was an approval. -/
theorem Sound.updateDevice (sound : web.Sound journal) {purpose : Purpose} {token : DeviceToken} {db : DB}
    (updated : web.db.updateDeviceToken token = some db)
    (approved : token.state = .approved ∨ token.state = .exchanged → web.Knows token.approvedByUserId ∧
      Approved token.deviceCode token.approvedByUserId
        (⟨caller, .device (.updateDeviceToken purpose token), .ok ()⟩ :: journal)) :
    WebDb.Sound { web with db } (⟨caller, .device (.updateDeviceToken purpose token), .ok ()⟩ :: journal) := by
  unfold DB.updateDeviceToken at updated
  split at updated
  next =>
    cases updated
    have codes (rows : List DeviceToken) : (rows.map fun other => if other.deviceCode = token.deviceCode then
        { token with userCode := other.userCode } else other).map DeviceToken.deviceCode =
          rows.map DeviceToken.deviceCode := by
      rw [List.map_map]
      refine List.map_congr_left fun row _ => ?_
      by_cases same : row.deviceCode = token.deviceCode
      · simp [same]
      · simp [same]
    have userCodes (rows : List DeviceToken) : (rows.map fun other => if other.deviceCode = token.deviceCode then
        { token with userCode := other.userCode } else other).map DeviceToken.userCode =
          rows.map DeviceToken.userCode := by
      rw [List.map_map]
      refine List.map_congr_left fun row _ => ?_
      by_cases same : row.deviceCode = token.deviceCode
      · simp [same]
      · simp [same]
    refine ⟨⟨sound.unique.userIds, sound.unique.emails, sound.unique.githubUsers, sound.unique.sessions,
      sound.unique.authTokens, sound.unique.domains, (codes _).symm ▸ sound.unique.deviceCodes,
        (userCodes _).symm ▸ sound.unique.userCodes⟩,
      ⟨sound.referential.sessions, sound.referential.authTokens, sound.referential.domains, ?_⟩,
      ⟨?_, ?_, ?_, ?_, ?_, ?_⟩⟩
    · intro row member state
      obtain ⟨old, present, rfl⟩ := List.mem_map.mp member
      by_cases same : old.deviceCode = token.deviceCode
      · rw [if_pos same] at state ⊢
        exact (approved state).1
      · rw [if_neg same] at state ⊢
        exact sound.referential.approvers old present state
    · exact fun user => by rw [createdUser_other (by simp), sound.recorded.users]
    · exact fun session => by rw [openSession_other (by simp) (by simp), sound.recorded.sessions]
    · exact fun token => by rw [issued_other (by simp), sound.recorded.authTokens]
    · exact fun row => by rw [registeredDomain_other (by simp), sound.recorded.domains]
    · intro row member
      obtain ⟨old, present, rfl⟩ := List.mem_map.mp member
      have handed := sound.recorded.codes old present
      split
      next same => exact .next (same ▸ handed)
      next => exact .next handed
    · intro row member state
      obtain ⟨old, present, rfl⟩ := List.mem_map.mp member
      by_cases same : old.deviceCode = token.deviceCode
      · rw [if_pos same] at state ⊢
        exact (approved state).2
      · rw [if_neg same] at state ⊢
        exact .next (sound.recorded.approvals old present state)
  next => cases updated

end WebDb
end

end Pos2.Tunnel
