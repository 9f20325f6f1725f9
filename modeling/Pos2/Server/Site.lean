import Pos2.Calls.Fallible
import Pos2.Calls.Raising
import Pos2.Server.Installs
import Pos2.Server.Listing

/-! The web server of `server/src/main.rs`, with its registry and the queries of
`models.rs`. A handler that panics answers nothing; the reason tells which `unwrap` it was. -/

namespace Pos2.Server
open Calls

structure UserModel where
  id : Int
  name : Text
  deriving DecidableEq

structure UserSessionModel where
  id : Text
  userId : Int
  deriving DecidableEq

inductive Panic where
  /-- A call gave an error. -/
  | failed (error : String)
  /-- `QueryReturnedNoRows` -/
  | noRows
  /-- The error of `name_to_path`. -/
  | badName
  /-- There is no last version. -/
  | noVersions
  /-- Nothing came through a filter. -/
  | notFound
  /-- There is no id of a user. -/
  | nobody
  deriving DecidableEq

inductive ServerCall where
  | listUsers
  | getUserById (id : Int)
  | getSession (id : Text)
  | insertSession (id : Text) (userId : Int)
  | deleteSession (id : Text)
  | listUserAppsByUserId (userId : Int)
  | insertUserApp (app : UserAppModel)
  | updateUserApp (app : UserAppModel)
  | listRegistryApps
  | insertRegistryApp (name version ociReference : Text)
  | intoValues (apps : List RegistryApp)
  | randomSessionId
  | sendFetch
  | receiveFetch
  | downloadApp (ociReference : Text)
  | createParent (path : Text)
  | run (path : Text)

/-- A row that is not there is `none`. The path of a download is that of the wasm file. -/
abbrev ServerCall.Value : ServerCall → Type
  | .listUsers => List UserModel
  | .getUserById _ => Option UserModel
  | .getSession _ => Option UserSessionModel
  | .listUserAppsByUserId _ => List UserAppModel
  | .listRegistryApps => List RegistryAppModel
  | .insertRegistryApp _ _ _ => Int
  | .intoValues _ => List RegistryApp
  | .randomSessionId | .downloadApp _ | .run _ => Text
  | _ => Unit

abbrev ServerCalls : Interface := Interface.fallible ServerCall ServerCall.Value

abbrev Handled (α : Type) := Raising ServerCalls Panic α

inductive Route where
  | index (host : Text)
  | run (path : Text)
  | install (path version : Text)
  | update (path version : Text)
  | login (userId : Int)
  | logout
  | registry
  | publish (name version ociReference : Text)
  deriving DecidableEq

/-- The cookie is that of the session. -/
structure Request where
  cookie : Option Text
  route : Route
  deriving DecidableEq

structure UserInfo where
  name : Option Text
  sessionId : Option Text
  id : Option Int

deriving instance DecidableEq for Operation

structure Link where
  operation : Operation
  path : Text
  version : Text
  deriving DecidableEq

structure InstalledApp where
  path : Text
  name : Text
  version : Text
  deriving DecidableEq

structure AvailableApp where
  name : Text
  version : Text
  link : Option Link
  deriving DecidableEq

/-- What is available is shown to users only. -/
structure IndexPage where
  host : Text
  userName : Option Text
  installed : List InstalledApp
  available : Option (List AvailableApp)
  users : List UserModel
  deriving DecidableEq

inductive Body where
  | html (text : Text)
  | page (page : IndexPage)
  | apps (apps : List RegistryApp)
  | id (id : Int)
  | badRequest
  | redirect (location : Text)
  deriving DecidableEq

/-- What a handler does to the cookie jar. A removal is sent only where the request had the cookie. -/
inductive SetCookie where
  | session (id : Text)
  | removed
  deriving DecidableEq

structure Response where
  body : Body
  cookies : List SetCookie
  deriving DecidableEq

namespace Site

/-- A call whose `Result` is unwrapped here or by those who get it. -/
def ask (call : ServerCall) : Handled call.Value := do
  let result ← Raising.ask (I := ServerCalls) call
  Raising.raise (result.mapError Panic.failed)

def orPanic {α : Type} (reason : Panic) : Option α → Except Panic α
  | some value => .ok value
  | none => .error reason

/-- `name_to_path(..).unwrap()` -/
def pathOf (name : Text) : Except Panic Text := (nameToPath name).mapError fun _ => .badName

/-- The first item whose name has the path. -/
def selectByPath {α : Type} (name : α → Text) (path : Text) : List α → Except Panic α
  | [] => .error .notFound
  | item :: rest =>
    match pathOf (name item) with
    | .error reason => .error reason
    | .ok here => if here = path then .ok item else selectByPath name path rest

/-! ### Queries of several calls -/

def getUserById (id : Int) : Handled UserModel := do
  let found ← ask (.getUserById id)
  Raising.raise (orPanic .noRows found)

def getUserForSession (sessionId : Text) : Handled (Option (UserSessionModel × UserModel)) := do
  match ← ask (.getSession sessionId) with
  | none => return none
  | some session =>
    let user ← getUserById session.userId
    return some (session, user)

def registryIndexHandler : Handled (List RegistryApp) := do
  let rows ← ask .listRegistryApps
  let apps ← ask (.intoValues (appsMap rows))
  return sortApps apps

/-- `fetch_apps` of the registry of the same server, which does not answer where its
handler panics. -/
def fetchApps : Handled (List RegistryApp) := do
  ask .sendFetch
  let apps ← tryCatch registryIndexHandler fun _ => throw (.failed "connection closed before message completed")
  ask .receiveFetch
  return apps

/-! ### Handlers -/

/-- The second value tells that the cookie is to be removed. -/
def authMiddleware (cookie : Option Text) : Handled (UserInfo × Bool) :=
  match cookie with
  | none => return (⟨none, none, none⟩, false)
  | some cookie => do
    match ← getUserForSession cookie with
    | some (session, user) => return (⟨some user.name, some session.id, some user.id⟩, false)
    | none => return (⟨none, none, none⟩, true)

def runHandler (path : Text) (user : UserInfo) : Handled Response := do
  let userId ← Raising.raise (orPanic .nobody user.id)
  let apps ← ask (.listUserAppsByUserId userId)
  let userApp ← Raising.raise (selectByPath UserAppModel.name path apps)
  let text ← ask (.run userApp.path)
  return ⟨.html text, []⟩

def installApp (app : RegistryApp) (version : RegistryAppVersion) (userId : Int) : Handled Unit := do
  let wasmPath ← ask (.downloadApp version.ociReference)
  let dbPath ← Raising.raise ((dbPath userId app.name).mapError fun _ => .badName)
  ask (.createParent dbPath)
  ask (.insertUserApp ⟨userId, app.name, version.version, wasmPath⟩)

def updateApp (app : RegistryApp) (version : RegistryAppVersion) (userId : Int) : Handled Unit := do
  let wasmPath ← ask (.downloadApp version.ociReference)
  ask (.updateUserApp ⟨userId, app.name, version.version, wasmPath⟩)

/-- `install_handler` and `update_handler`, which differ in what they do with the app. -/
def withApp (work : RegistryApp → RegistryAppVersion → Int → Handled Unit) (path version : Text) (user : UserInfo) :
    Handled Response := do
  let apps ← fetchApps
  let app ← Raising.raise (selectByPath RegistryApp.name path apps)
  let appVersion ← Raising.raise (orPanic .notFound (app.versions.find? fun here => here.version = version))
  let userId ← Raising.raise (orPanic .nobody user.id)
  work app appVersion userId
  return ⟨.redirect "/".toList, []⟩

def installHandler : Text → Text → UserInfo → Handled Response := withApp installApp

def updateHandler : Text → Text → UserInfo → Handled Response := withApp updateApp

def loginHandler (userId : Int) : Handled Response := do
  let user ← getUserById userId
  let sessionId ← ask .randomSessionId
  ask (.insertSession sessionId user.id)
  return ⟨.redirect "/".toList, [.session sessionId]⟩

def loginUrl : Text := "https://laptop.pos2.jelle.dev".toList

def deleteSession : Option Text → Handled Unit
  | none => return
  | some sessionId => do ask (.deleteSession sessionId)

def logoutHandler (user : UserInfo) : Handled Response := do
  deleteSession user.sessionId
  return ⟨.redirect loginUrl, [.removed]⟩

def listUserApps : Option Int → Handled (List UserAppModel)
  | none => return []
  | some userId => do ask (.listUserAppsByUserId userId)

def withLatest (apps : List RegistryApp) : Except Panic (List (RegistryApp × RegistryAppVersion)) :=
  apps.mapM fun app => do
    let version ← orPanic .noVersions app.versions.getLast?
    return (app, version)

/-- The last of the user's apps of a name is the one in the hash map. -/
def linkFor (userApps : List UserAppModel) (app : RegistryApp) (version : RegistryAppVersion) :
    Except Panic (Option Link) :=
  match userApps.reverse.find? fun installed => installed.name = app.name with
  | some installed =>
    if installed.version = version.version then .ok none
    else (pathOf app.name).map fun path => some ⟨.updateApp, path, version.version⟩
  | none => (pathOf app.name).map fun path => some ⟨.installApp, path, version.version⟩

def installedApps (userApps : List UserAppModel) : Except Panic (List InstalledApp) :=
  userApps.mapM fun app => do
    let path ← pathOf app.name
    return ⟨path, app.name, app.version⟩

def availableApps (userApps : List UserAppModel) (latest : List (RegistryApp × RegistryAppVersion)) :
    Except Panic (List AvailableApp) :=
  latest.mapM fun (app, version) => do
    let link ← linkFor userApps app version
    return ⟨app.name, version.version, link⟩

def availableTo (userName : Option Text) (userApps : List UserAppModel) (latest : List (RegistryApp × RegistryAppVersion)) :
    Except Panic (Option (List AvailableApp)) :=
  match userName with
  | none => .ok none
  | some _ => (availableApps userApps latest).map some

def indexHandler (host : Text) (user : UserInfo) : Handled Response := do
  let apps ← fetchApps
  let users ← ask .listUsers
  let userApps ← listUserApps user.id
  let latest ← Raising.raise (withLatest apps)
  let installed ← Raising.raise (installedApps userApps)
  let available ← Raising.raise (availableTo user.name userApps latest)
  return ⟨.page ⟨host, user.name, installed, available, users⟩, []⟩

def registryPublishHandler (name version ociReference : Text) : Handled Response :=
  if !checkName name then return ⟨.badRequest, []⟩
  else do
    let id ← ask (.insertRegistryApp name version ociReference)
    return ⟨.id id, []⟩

def dispatch (user : UserInfo) : Route → Handled Response
  | .index host => indexHandler host user
  | .run path => runHandler path user
  | .install path version => installHandler path version user
  | .update path version => updateHandler path version user
  | .login userId => loginHandler userId
  | .logout => logoutHandler user
  | .registry => do
    let apps ← registryIndexHandler
    return ⟨.apps apps, []⟩
  | .publish name version ociReference => registryPublishHandler name version ociReference

def handle (request : Request) : Handled Response := do
  let (user, removed) ← authMiddleware request.cookie
  let response ← dispatch user request.route
  return { response with cookies := response.cookies ++ if removed then [.removed] else [] }

end Site

/-! ### The database -/

/-- Wasm files come from references; which of them came from which is kept here only. -/
structure ServerDb where
  users : List UserModel
  sessions : List UserSessionModel
  userApps : List UserAppModel
  registryApps : List RegistryAppModel
  downloads : List (Text × Text)

/-- A query, which changes nothing. -/
def Queried {α : Type} (holds : α → Prop) (before : ServerDb) (reply : Except String α) (after : ServerDb) : Prop :=
  after = before ∧ ∀ value, reply = .ok value → holds value

/-- A change, made whole or not at all. -/
def Changed {α : Type} (change : α → ServerDb → Prop) (before : ServerDb) (reply : Except String α) (after : ServerDb) : Prop :=
  match reply with
  | .ok value => change value after
  | .error _ => after = before

/-- `ORDER BY name, version` -/
def RegistryAppModel.Before (first second : RegistryAppModel) : Prop :=
  first.name < second.name ∨ first.name = second.name ∧ first.version ≤ second.version

def siteServes : Handler ServerCalls ServerDb
  | .listUsers, before, reply, after => Queried (fun users => users.Perm before.users) before reply after
  | .getUserById id, before, reply, after =>
    Queried (fun user => user = before.users.find? fun user => user.id = id) before reply after
  | .getSession id, before, reply, after =>
    Queried (fun session => session = before.sessions.find? fun session => session.id = id) before reply after
  | .insertSession id userId, before, reply, after =>
    Changed (fun _ after => (∀ session ∈ before.sessions, session.id ≠ id) ∧
      after = { before with sessions := before.sessions ++ [⟨id, userId⟩] }) before reply after
  | .deleteSession id, before, reply, after =>
    Changed (fun _ after => after = { before with sessions := before.sessions.filter fun session => session.id ≠ id })
      before reply after
  | .listUserAppsByUserId userId, before, reply, after =>
    Queried (fun apps => apps.Perm (before.userApps.filter fun app => app.userId = userId)) before reply after
  | .insertUserApp app, before, reply, after =>
    Changed (fun _ after => ∃ rows, insertUserApp app before.userApps = some rows ∧ after = { before with userApps := rows })
      before reply after
  | .updateUserApp app, before, reply, after =>
    Changed (fun _ after => after = { before with userApps := updateUserApp app before.userApps }) before reply after
  | .listRegistryApps, before, reply, after =>
    Queried (fun rows => rows.Perm before.registryApps ∧ rows.Pairwise RegistryAppModel.Before) before reply after
  | .insertRegistryApp name version ociReference, before, reply, after =>
    Changed (fun id after => (∀ row ∈ before.registryApps, row.id ≠ id) ∧
      after = { before with registryApps := before.registryApps ++ [⟨id, name, version, ociReference⟩] }) before reply after
  | .intoValues apps, before, reply, after => after = before ∧ ∃ values, reply = .ok values ∧ values.Perm apps
  | .downloadApp ociReference, before, reply, after =>
    Changed (fun path after => after = { before with downloads := (ociReference, path) :: before.downloads }) before reply after
  | .randomSessionId, before, _, after | .sendFetch, before, _, after | .receiveFetch, before, _, after
  | .createParent _, before, _, after | .run _, before, _, after => after = before

end Pos2.Server
