import Pos2.Calls.Method
import Pos2.Tunnel.Device

/-! The routes of `tunnel/src/web.rs`. A handler is a method of the cookies of its
request, and a program of its database calls. -/

namespace Pos2.Tunnel
open Calls

inductive HttpMethod where
  | get
  | head
  | post
  | put
  | delete
  | options
  | connect
  | patch
  | trace
  | extension (name : Text)
  deriving DecidableEq

/-- A request. Where the query, a form or a JSON body does not have what a handler asks for,
the extractor answers itself, with this status. -/
structure HttpRequest where
  method : HttpMethod
  path : Text
  secFetchSite : Option Text
  origin : Option Text
  cookies : List (Text × Text)
  bearer : Except Nat Text
  query : Text → Except Nat Text
  form : Text → Except Nat Text
  json : Text → Except Nat Text

inductive Page where
  | index (user : Option UserInfo)
  | typeCode
  | found (name userCode deviceCode : Text)
  | done
  | login (redirectTo : Text)

inductive Body where
  | empty
  | extractor
  | text (message : String)
  | html (page : Page)
  | redirect (location : Text)
  | deviceAuthorization (deviceCode userCode verificationUri : Text) (expiresIn interval : Int)
  | deviceToken (accessToken : Text) (expiresIn : Nat)
  | oauth2Error (error : String)
  | apiTest (email : Text) (domains availableSuffixes : List Text)
  | apiRegisterDomain
  | success

structure Response where
  status : Nat
  body : Body

structure Session where
  id : Text
  userId : Text
  deriving DecidableEq

structure GithubUserInfo where
  id : Int
  email : Text

structure ServerState where
  availableSuffixes : List Text
  webBaseUrl : Text
  enableTestLogin : Bool

/-- How the state of a GitHub login lies in its cookie. -/
structure UrlEncoding where
  encode : Text → Text → Text
  decode : Text → Option (Text × Text)

/-- `UserInfo` of `web.rs` -/
structure LoggedIn where
  user : UserInfo
  session : Session

inductive HandlerName where
  | index
  | oauth2DeviceCode
  | oauth2DeviceToken
  | getLoginDevice
  | postLoginDevice
  | postApproveDevice
  | postRejectDevice
  | login
  | logout
  | loginGithub
  | loginCallback
  | loginTest
  | apiTest
  | apiRegisterDomain
  deriving DecidableEq

/-- What a request makes happen: a handler starts, or it calls the database, the
clock, the random numbers or GitHub. -/
inductive WebCall where
  | starts (handler : HandlerName)
  | device (request : DbRequest)
  | getDeviceTokenByUserCode (code : Text)
  | getSessionTokenById (id : Text)
  | createSessionToken (userId : Text)
  | deleteSessionToken (id : Text)
  | getUserById (userId : Text)
  | getUserByGithubUserId (githubUserId : Int)
  | getUserByEmail (email : Text)
  | createUser (email : Text) (githubUserId : Option Int)
  | getAuthTokenById (token : Text)
  | registerUserDomain (userId domain : Text)
  | randomCodes
  | now
  | authorizeUrl
  | githubUser (code : Text)

abbrev WebCall.Reply : WebCall → Type
  | .starts _ => Unit
  | .device request => Except String request.Value
  | .getDeviceTokenByUserCode _ => Except String (Option DeviceToken)
  | .getSessionTokenById _ => Except String (Option Session)
  | .createSessionToken _ => Except String Session
  | .deleteSessionToken _ | .registerUserDomain _ _ => Except String Unit
  | .getUserById _ | .getUserByGithubUserId _ | .getUserByEmail _ => Except String (Option UserInfo)
  | .createUser _ _ => Except String UserInfo
  | .getAuthTokenById _ => Except String (Option AuthToken)
  | .randomCodes => Text × Text
  | .now => Int
  -- the URL and the token that is a part of it
  | .authorizeUrl => Text × Text
  | .githubUser _ => Except String GithubUserInfo

abbrev WebCalls : Interface := ⟨WebCall, WebCall.Reply⟩

abbrev Cookies := List (Text × Text)

namespace Cookies

def get (cookies : Cookies) (name : Text) : Option Text :=
  (cookies.find? fun cookie => cookie.1 = name).map Prod.snd

def remove (name : Text) (cookies : Cookies) : Cookies := cookies.filter fun cookie => cookie.1 ≠ name

def add (name value : Text) (cookies : Cookies) : Cookies := (name, value) :: remove name cookies

end Cookies

/-- A handler with the cookies of its request. It may answer early, or panic. -/
abbrev Serve (α : Type) := Method WebCalls Response Cookies α

namespace Web

def ask (call : WebCall) : Serve call.Reply := fun cookies => .call call fun reply => .done (.ok reply, cookies)

/-- `Result::unwrap` -/
def unwrap {α : Type} : Except String α → Serve α
  | .ok value => pure value
  | .error _ => Method.ofOutcome .panic

/-- `Option::expect` -/
def expect {α : Type} : Option α → Serve α
  | some value => pure value
  | none => Method.ofOutcome .panic

def field : Except Nat Text → Serve Text
  | .ok value => pure value
  | .error status => Method.ofOutcome (.err ⟨status, .extractor⟩)

/-- A method of `Storage` with the calls of its own interface. -/
def ofStorage {α : Type} : Program DbCalls α → Serve α
  | .done value => pure value
  | .call request next => fun cookies => .call (.device request) fun reply => ofStorage (next reply) cookies

def page (page : Page) : Response := ⟨200, .html page⟩

def redirect (location : Text) : Response := ⟨303, .redirect location⟩

section
variable (state : ServerState)

def getUserForSession (session : Text) : Serve (Except String (Option LoggedIn)) := do
  match ← ask (.getSessionTokenById session) with
  | .error error => return .error error
  | .ok none => return .ok none
  | .ok (some session) =>
    match ← ask (.getUserById session.userId) with
    | .error error => return .error error
    | .ok user => return .ok (some ⟨← expect user, session⟩)

def getDeviceToken (challengeString : Text) : Serve (Except String DeviceToken) := do
  match ← ask (.getDeviceTokenByUserCode challengeString) with
  | .error error => return .error error
  | .ok none => return .error "missing token"
  | .ok (some token) => return .ok token

def getAuthToken (authTokenId : Text) : Serve (Except String (AuthToken × UserInfo)) := do
  match ← ask (.getAuthTokenById authTokenId) with
  | .error error => return .error error
  | .ok none => return .error "missing token"
  | .ok (some token) =>
    match ← ask (.getUserById token.userId) with
    | .error error => return .error error
    | .ok none => return .error "missing user"
    | .ok (some user) => return .ok (token, user)

def indexHandler (user : Option LoggedIn) : Serve Response :=
  return page (.index (user.map LoggedIn.user))

def oauth2DeviceCodeHandler : Serve Response := do
  let (deviceCode, userCode) ← ask .randomCodes
  let created ← ask .now
  let token ← unwrap (← ofStorage (Storage.createDeviceToken deviceCode userCode created))
  let now ← ask .now
  return ⟨200, .deviceAuthorization token.deviceCode token.userCode (state.webBaseUrl ++ "/login/device".toList)
    ((token.expiresAt - now).tdiv 1000) token.intervalSeconds⟩

def oauth2DeviceTokenHandler (deviceCode : Text) : Serve Response := do
  let (deviceToken, authToken) ← unwrap (← ofStorage (Storage.pollDeviceToken deviceCode))
  match authToken with
  | some authToken => return ⟨200, .deviceToken authToken.id (60 * 60 * 24 * 365 * 10)⟩
  | none =>
    let error := match deviceToken with
      | some deviceToken => match deviceToken.state with
        | .pending => "authorization_pending"
        | .rejected => "access_denied"
        | _ => "bad_request"
      | none => "invalid_grant"
    return ⟨400, .oauth2Error error⟩

def getLoginDeviceHandler (user : Option LoggedIn) : Serve Response :=
  match user with
  | none => return redirect "/login?redirect_to=%2Flogin%2Fdevice".toList
  | some _ => return page .typeCode

def postLoginDeviceHandler (user : Option LoggedIn) (userCode : Text) : Serve Response := do
  let token ← unwrap (← getDeviceToken userCode)
  if token.state ≠ .pending then Method.ofOutcome .panic else
  let name := match user with
    | some user => user.user.user.email
    | none => "unknown???".toList
  return page (.found name token.userCode token.deviceCode)

def postApproveDeviceHandler (user : Option LoggedIn) (userCode : Text) : Serve Response := do
  let token ← unwrap (← getDeviceToken userCode)
  let user ← expect user
  unwrap (← ofStorage (Storage.approveDeviceToken token.deviceCode user.user.user.id))
  return page .done

def postRejectDeviceHandler (userCode : Text) : Serve Response := do
  let token ← unwrap (← getDeviceToken userCode)
  unwrap (← ofStorage (Storage.rejectDeviceToken token.deviceCode))
  return page .done

def loginHandler (redirectTo : Text) : Serve Response := return page (.login redirectTo)

def logoutHandler (user : Option LoggedIn) : Serve Response := do
  match user with
  | some user => unwrap (← ask (.deleteSessionToken user.session.id))
  | none => pure ()
  Method.modify (Cookies.remove "session_id".toList)
  return redirect "/".toList

/-- The cookie holds the token and where to go then, URL-encoded. -/
def loginGithubHandler (encode : Text → Text → Text) (redirectTo : Text) : Serve Response := do
  let (url, token) ← ask .authorizeUrl
  Method.modify (Cookies.add "github_oauth2_state".toList (encode token redirectTo))
  return redirect url

/-- The session that both logins end with. -/
def logIn (user : UserInfo) : Serve Unit := do
  let session ← unwrap (← ask (.createSessionToken user.user.id))
  Method.modify (Cookies.add "session_id".toList session.id)

def loginCallbackHandler (decode : Text → Option (Text × Text)) (code oauth2State : Text) : Serve Response := do
  let cookies ← Method.read
  let cookie ← expect (cookies.get "github_oauth2_state".toList)
  let (token, redirectTo) ← expect (decode cookie)
  Method.modify (Cookies.remove "github_oauth2_state".toList)
  if oauth2State ≠ token then Method.ofOutcome .panic else
  let github ← unwrap (← ask (.githubUser code))
  let user ← match ← unwrap (← ask (.getUserByGithubUserId github.id)) with
    | some user => pure user
    | none => unwrap (← ask (.createUser github.email (some github.id)))
  logIn user
  return redirect redirectTo

def loginTestHandler (email : Text) : Serve Response := do
  if !state.enableTestLogin then
    return ⟨403, .text "test login not enabled"⟩
  let user ← match ← unwrap (← ask (.getUserByEmail email)) with
    | some user => pure user
    | none => unwrap (← ask (.createUser email none))
  logIn user
  return ⟨200, .success⟩

def apiTestHandler (bearer : Text) : Serve Response := do
  let (_, user) ← unwrap (← getAuthToken bearer)
  return ⟨200, .apiTest user.user.email user.domains state.availableSuffixes⟩

/-- `api_register_domain_handler` behind its extractors -/
def apiRegisterDomain (bearer domain : Text) : Serve Response := do
  let (_, user) ← unwrap (← getAuthToken bearer)
  if !state.availableSuffixes.any fun suffix => suffix.isSuffixOf domain then Method.ofOutcome .panic else
  unwrap (← ask (.registerUserDomain user.user.id domain))
  return ⟨200, .apiRegisterDomain⟩

end

section
variable (state : ServerState) (urlencoded : UrlEncoding)

/-- A handler runs once its extractors have found what it asks for. -/
def handle (request : HttpRequest) (user : Option LoggedIn) (name : HandlerName) : Serve Response :=
  match name with
  | .index => do
    ask (.starts name)
    indexHandler user
  | .oauth2DeviceCode => do
    ask (.starts name)
    oauth2DeviceCodeHandler state
  | .oauth2DeviceToken => do
    let deviceCode ← field (request.form "device_code".toList)
    ask (.starts name)
    oauth2DeviceTokenHandler deviceCode
  | .getLoginDevice => do
    ask (.starts name)
    getLoginDeviceHandler user
  | .postLoginDevice => do
    let userCode ← field (request.form "user_code".toList)
    ask (.starts name)
    postLoginDeviceHandler user userCode
  | .postApproveDevice => do
    let userCode ← field (request.form "user_code".toList)
    ask (.starts name)
    postApproveDeviceHandler user userCode
  | .postRejectDevice => do
    let userCode ← field (request.form "user_code".toList)
    ask (.starts name)
    postRejectDeviceHandler userCode
  | .login => do
    let redirectTo ← field (request.query "redirect_to".toList)
    ask (.starts name)
    loginHandler redirectTo
  | .logout => do
    ask (.starts name)
    logoutHandler user
  | .loginGithub => do
    let redirectTo ← field (request.query "redirect_to".toList)
    ask (.starts name)
    loginGithubHandler urlencoded.encode redirectTo
  | .loginCallback => do
    let code ← field (request.query "code".toList)
    let oauth2State ← field (request.query "state".toList)
    ask (.starts name)
    loginCallbackHandler urlencoded.decode code oauth2State
  | .loginTest => do
    let email ← field (request.json "email".toList)
    ask (.starts name)
    loginTestHandler state email
  | .apiTest => do
    let bearer ← field request.bearer
    ask (.starts name)
    apiTestHandler state bearer
  | .apiRegisterDomain => do
    let bearer ← field request.bearer
    let domain ← field (request.json "domain".toList)
    ask (.starts name)
    apiRegisterDomain state bearer domain

/-- The routes of `make_router`, each for `get` or `post`. -/
def routes : List (Text × HttpMethod × HandlerName) := [
  ("/".toList, .get, .index),
  ("/login/device/code".toList, .post, .oauth2DeviceCode),
  ("/login/oauth/access_token".toList, .post, .oauth2DeviceToken),
  ("/login/device".toList, .get, .getLoginDevice),
  ("/login/device".toList, .post, .postLoginDevice),
  ("/login/device/authorize".toList, .post, .postApproveDevice),
  ("/login/device/reject".toList, .post, .postRejectDevice),
  ("/login".toList, .get, .login),
  ("/logout".toList, .post, .logout),
  ("/login/github".toList, .get, .loginGithub),
  ("/login/callback".toList, .get, .loginCallback),
  ("/login/test".toList, .post, .loginTest),
  ("/api/test".toList, .get, .apiTest),
  ("/api/domain/register".toList, .get, .apiRegisterDomain)]

/-- axum's dispatch: `get` routes take HEAD as well. -/
def dispatch (request : HttpRequest) (user : Option LoggedIn) : Serve Response :=
  match routes.filter fun route => route.1 = request.path with
  | [] => return ⟨404, .empty⟩
  | here =>
    match here.find? fun route =>
        route.2.1 = request.method ∨ (route.2.1 = .get ∧ request.method = .head) with
    | some route => handle state urlencoded request user route.2.2
    | none => return ⟨405, .empty⟩

def checkCrossOrigin (request : HttpRequest) : Except Response Unit :=
  match request.method with
  -- safe methods are always allowed
  | .get | .head | .post => .ok ()
  | _ =>
    match request.secFetchSite with
    | some value =>
      if value = "same-origin".toList ∨ value = "none".toList then .ok ()
      else .error ⟨403, .text "forbidden cross-origin request"⟩
    | none =>
      match request.origin with
      | some _ => .error ⟨403, .text "please update your browser: got origin header but not sec-fetch-site"⟩
      | none => .ok ()

def crossOriginCheckMiddleware (request : HttpRequest) (next : Serve Response) : Serve Response := do
  match checkCrossOrigin request with
  | .ok () => next
  | .error response => Method.ofOutcome (.err response)

def authMiddleware (next : Option LoggedIn → Serve Response) : Serve Response := do
  let cookies ← Method.read
  match cookies.get "session_id".toList with
  | none => next none
  | some session =>
    match ← unwrap (← getUserForSession session) with
    | some user => next (some user)
    | none =>
      Method.modify (Cookies.remove "session_id".toList)
      next none

/-- The response and the cookies as they then are, or no response after a panic. -/
def makeRouter (request : HttpRequest) : Program WebCalls (Option Response × Cookies) :=
  (crossOriginCheckMiddleware request (authMiddleware (dispatch state urlencoded request)) request.cookies).bind fun
    | (.ok response, cookies) => .done (some response, cookies)
    | (.err response, cookies) => .done (some response, cookies)
    | (.panic, cookies) => .done (none, cookies)

end
end Web

/-- The database with its sessions, and the handlers that have started. -/
structure WebDb where
  db : DB
  sessions : List Session
  started : List HandlerName

/-- What a query answers; one that fails leaves everything alone, as do all others but those that write. -/
def Answers {α : Type} (value : α) (before : WebDb) : Except String α → WebDb → Prop
  | .ok answer, after => answer = value ∧ after = before
  | .error _, after => after = before

/-- A call that writes. One that fails is taken to have written nothing. -/
def Writes {α : Type} (written : α → WebDb → Prop) (before : WebDb) : Except String α → WebDb → Prop
  | .ok answer, after => written answer after
  | .error _, after => after = before

def WebDb.userWhere (state : WebDb) (which : User → Bool) : Option UserInfo :=
  (state.db.users.find? which).bind fun user => state.db.getUserById user.id

def WebCall.Serves (call : WebCall) (before : WebDb) (reply : call.Reply) (after : WebDb) : Prop :=
  match call with
  | .starts handler => after = { before with started := before.started ++ [handler] }
  | .device request => ∃ history, serves request ⟨before.db, [], [], []⟩ reply history ∧
      after = { before with db := history.db }
  | .getDeviceTokenByUserCode code =>
    Answers (before.db.deviceTokens.find? fun token => token.userCode = code) before reply after
  | .getSessionTokenById id => Answers (before.sessions.find? fun session => session.id = id) before reply after
  | .createSessionToken userId => Writes (fun session after => session.userId = userId ∧
      (∀ other ∈ before.sessions, other.id ≠ session.id) ∧
      after = { before with sessions := before.sessions ++ [session] }) before reply after
  | .deleteSessionToken id => Writes (fun _ after =>
      after = { before with sessions := before.sessions.filter fun session => session.id ≠ id }) before reply after
  | .getUserById userId => Answers (before.db.getUserById userId) before reply after
  | .getUserByGithubUserId id => Answers (before.userWhere fun user => user.githubUserId = some id) before reply after
  | .getUserByEmail email => Answers (before.userWhere fun user => user.email = email) before reply after
  | .createUser email githubUserId => Writes (fun user after => ∃ id db,
      before.db.createUser id email githubUserId [] = some db ∧ user = ⟨⟨id, email, githubUserId⟩, []⟩ ∧
      after = { before with db }) before reply after
  | .getAuthTokenById token => Answers (before.db.getAuthTokenById token) before reply after
  | .registerUserDomain userId domain => Writes (fun _ after => ∃ db,
      before.db.registerUserDomain userId domain = some db ∧ after = { before with db }) before reply after
  | .randomCodes | .now | .authorizeUrl | .githubUser _ => after = before

def webServes : Calls.Handler WebCalls WebDb := fun call => call.Serves

end Pos2.Tunnel
