import Pos2.Text

/-! The tables of `tunnel/src/db.rs` and the queries on them. A query that
breaks a primary key or a unique index fails and leaves the tables alone. -/

namespace Pos2.Tunnel

structure User where
  id : Text
  email : Text
  githubUserId : Option Int
  deriving DecidableEq

structure UserDomain where
  userId : Text
  domain : Text
  deriving DecidableEq

structure AuthToken where
  id : Text
  userId : Text
  deriving DecidableEq

inductive TokenState where
  | pending
  | approved
  | rejected
  | exchanged
  deriving DecidableEq, Repr

/-- Times are counted in milliseconds. -/
structure DeviceToken where
  deviceCode : Text
  userCode : Text
  state : TokenState
  approvedByUserId : Text
  nextPollAt : Int
  intervalSeconds : Int
  expiresAt : Int
  deriving DecidableEq

structure DB where
  users : List User
  userDomains : List UserDomain
  authTokens : List AuthToken
  deviceTokens : List DeviceToken

/-- What `get_user_by_id` answers: the row and the user's domains. -/
structure UserInfo where
  user : User
  domains : List Text

namespace DB

def new : DB := ⟨[], [], [], []⟩

/-- `INSERT INTO users`, under the primary key and the indexes on the email and
on the GitHub user, where there is one. -/
def insertUser (db : DB) (user : User) : Option DB :=
  if db.users.any fun other => other.id = user.id ∨ other.email = user.email ∨
      (user.githubUserId ≠ none ∧ other.githubUserId = user.githubUserId)
  then none
  else some { db with users := db.users ++ [user] }

/-- `INSERT INTO user_domains`; `idx_user_domains_domain` makes the domain unique. -/
def registerUserDomain (db : DB) (userId domain : Text) : Option DB :=
  if db.userDomains.any fun other => other.domain = domain
  then none
  else some { db with userDomains := db.userDomains ++ [⟨userId, domain⟩] }

/-- One transaction: the user with its domains, or nothing. -/
def createUser (db : DB) (id email : Text) (githubUserId : Option Int) (domains : List Text) : Option DB := do
  let db ← db.insertUser ⟨id, email, githubUserId⟩
  domains.foldlM (fun db domain => db.registerUserDomain id domain) db

def getUserById (db : DB) (userId : Text) : Option UserInfo :=
  (db.users.find? fun user => user.id = userId).map fun user =>
    ⟨user, (db.userDomains.filter fun row => row.userId = user.id).map UserDomain.domain⟩

def createAuthToken (db : DB) (id userId : Text) : Option (AuthToken × DB) :=
  if db.authTokens.any fun other => other.id = id
  then none
  else some (⟨id, userId⟩, { db with authTokens := db.authTokens ++ [⟨id, userId⟩] })

def getAuthTokenById (db : DB) (tokenId : Text) : Option AuthToken :=
  db.authTokens.find? fun token => token.id = tokenId

def getDeviceTokenByDeviceCode (db : DB) (code : Text) : Option DeviceToken :=
  db.deviceTokens.find? fun token => token.deviceCode = code

/-- `INSERT INTO device_tokens`, with unique device and user codes. -/
def insertDeviceToken (db : DB) (token : DeviceToken) : Option DB :=
  if db.deviceTokens.any fun other => other.deviceCode = token.deviceCode ∨ other.userCode = token.userCode
  then none
  else some { db with deviceTokens := db.deviceTokens ++ [token] }

/-- Every column but the user code is written, from the caller's copy of the row. -/
def updateDeviceToken (db : DB) (token : DeviceToken) : Option DB :=
  if db.deviceTokens.any fun other => other.deviceCode = token.deviceCode
  then some { db with deviceTokens := db.deviceTokens.map fun other =>
    if other.deviceCode = token.deviceCode then { token with userCode := other.userCode } else other }
  else none

theorem getDeviceToken_code {db : DB} {code : Text} {row : DeviceToken}
    (found : db.getDeviceTokenByDeviceCode code = some row) : row.deviceCode = code := by
  have same := List.find?_some found
  simpa using same

theorem insertDeviceToken_rows {db after : DB} {token : DeviceToken}
    (inserted : db.insertDeviceToken token = some after) (code : Text) :
    db.getDeviceTokenByDeviceCode token.deviceCode = none ∧
    after.getDeviceTokenByDeviceCode code =
      if code = token.deviceCode then some token else db.getDeviceTokenByDeviceCode code := by
  unfold insertDeviceToken at inserted
  split at inserted
  next => cases inserted
  next free =>
    cases inserted
    have absent : db.getDeviceTokenByDeviceCode token.deviceCode = none := by
      refine List.find?_eq_none.mpr ?_
      intro row member same
      simp only [List.any_eq_true, decide_eq_true_eq, not_exists, not_and, not_or] at free same
      exact (free row member).1 same
    refine ⟨absent, ?_⟩
    simp only [getDeviceTokenByDeviceCode, List.find?_append] at absent ⊢
    by_cases same : code = token.deviceCode
    · subst same
      simp [absent]
    · simp [same, Ne.symm same]

/-- An update changes one row, and only if there is one. -/
theorem updateDeviceToken_rows {db after : DB} {token : DeviceToken}
    (updated : db.updateDeviceToken token = some after) (code : Text) :
    after.getDeviceTokenByDeviceCode code =
      if code = token.deviceCode
      then (db.getDeviceTokenByDeviceCode code).map fun row => { token with userCode := row.userCode }
      else db.getDeviceTokenByDeviceCode code := by
  unfold updateDeviceToken at updated
  split at updated
  next =>
    cases updated
    simp only [getDeviceTokenByDeviceCode]
    induction db.deviceTokens with
    | nil => simp
    | cons row rest ih =>
      by_cases here : row.deviceCode = token.deviceCode
      · by_cases same : code = token.deviceCode
        · subst same
          simp [here]
        · have other : ¬ token.deviceCode = code := Ne.symm same
          simpa [here, other, same] using ih
      · by_cases found : row.deviceCode = code
        · have other : ¬ code = token.deviceCode := fun same => here (found.trans same)
          simp [found, other]
        · simpa [here, found] using ih
  next => cases updated

theorem createAuthToken_rows {db after : DB} {id userId : Text} {token : AuthToken}
    (created : db.createAuthToken id userId = some (token, after)) :
    token.userId = userId ∧ ∀ code, after.getDeviceTokenByDeviceCode code = db.getDeviceTokenByDeviceCode code := by
  unfold createAuthToken at created
  split at created
  next => cases created
  next =>
    cases created
    exact ⟨rfl, fun _ => rfl⟩

end DB
end Pos2.Tunnel
