import Mathlib.Logic.Relation
import Pos2.Tunnel.Db

/-! Who may write which DNS name. Domains are registered in
`tunnel/src/web.rs`, and `Authorizer::can_write` of `tunnel/src/dnsserver.rs`
reads them. -/

namespace Pos2.Tunnel

def ACME : Text := "_acme-challenge.".toList
def WILDCARD : Text := "*.".toList

/-- The registered domain a name is checked against. -/
def checkedDomain (domain : Text) : Text :=
  match domain.stripPrefix ACME with
  | some trimmed => trimmed
  | none =>
    match domain.stripPrefix WILDCARD with
    | some trimmed => trimmed
    | none => domain

/-- `Authorizer::can_write` -/
def canWrite (db : DB) (token domain : Text) : Except String Unit :=
  match db.getAuthTokenById token with
  | none => .error "missing token"
  | some token =>
    match db.getUserById token.userId with
    | none => .error "missing user"
    | some user =>
      match domain.stripSuffix ".".toList with
      | none => .error "should end in ."
      | some domain => if checkedDomain domain ∈ user.domains then .ok () else .error "not allowed"

/-- `api_register_domain_handler`; a panic registers nothing. -/
def apiRegisterDomainHandler (availableSuffixes : List Text) (db : DB) (token domain : Text) : Option DB := do
  let token ← db.getAuthTokenById token
  let user ← db.getUserById token.userId
  if availableSuffixes.any fun suffix => suffix.isSuffixOf domain then
    db.registerUserDomain user.user.id domain
  else none

/-- A registration of `domain` by `user` that is to be allowed. -/
abbrev Policy := DB → Text → Text → Prop

def unrestricted : Policy := fun _ _ _ => True

/-- What happens to users, domains and auth tokens. -/
inductive Step (availableSuffixes : List Text) (policy : Policy) : DB → DB → Prop where
  | createUser {db after id email githubUserId} (created : db.createUser id email githubUserId [] = some after) :
      Step availableSuffixes policy db after
  | createAuthToken {db id userId token after} (created : db.createAuthToken id userId = some (token, after)) :
      Step availableSuffixes policy db after
  | registerDomain {db token user domain after} (owner : db.getAuthTokenById token = some user)
      (allowed : policy db user.userId domain)
      (registered : apiRegisterDomainHandler availableSuffixes db token domain = some after) :
      Step availableSuffixes policy db after

abbrev Reachable (availableSuffixes : List Text) (policy : Policy) : DB → Prop :=
  Relation.ReflTransGen (Step availableSuffixes policy) DB.new

end Pos2.Tunnel
