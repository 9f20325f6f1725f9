import Mathlib.Logic.Function.Basic
import Pos2.Tunnel.Dns

/-! The routing table of `tunnel/src/server.rs`. Each task of `handle_client` has
one QUIC connection, so `ι` names both. The table is locked for each of the two
blocks that change it; everything else of a task may be interleaved. -/

namespace Pos2.Tunnel

structure ClientHello where
  domain : Text
  token : Text
  deriving DecidableEq

/-- What a task of `handle_client` is about to do. -/
inductive Phase where
  | accept
  | readHello
  | getToken (hello : ClientHello)
  | getUser (hello : ClientHello) (token : AuthToken)
  | sendHello (hello : ClientHello)
  | register (domain : Text)
  | waitClosed (domain : Text)
  | cleanUp (domain : Text)
  | cleaned (domain : Text)
  | failed
  deriving DecidableEq

namespace Phase

/-- The time-out of the handshake drops it before any of its calls; each can also fail. -/
def handshake : Phase → Bool
  | .accept | .readHello | .getToken _ | .getUser _ _ | .sendHello _ => true
  | _ => false

/-- The task has a connection. -/
def connected : Phase → Bool
  | .accept | .cleaned _ | .failed => false
  | _ => true

end Phase

/-- A task with its connection and what the client said on it. -/
structure Client where
  phase : Phase
  stableId : Nat
  closed : Bool
  hello : Option ClientHello

/-- `registered` keeps the order of the registrations. -/
structure Routes (ι : Type) where
  db : DB
  clients : ι → Client
  conns : Text → Option ι
  registered : List (Text × ι)

namespace Routes
variable {ι : Type} [DecidableEq ι]

def initial (db : DB) : Routes ι where
  db := db
  clients := fun _ => ⟨.accept, 0, false, none⟩
  conns := fun _ => none
  registered := []

def set (routes : Routes ι) (i : ι) (client : Client) : Routes ι :=
  { routes with clients := Function.update routes.clients i client }

/-- The task `i` goes on. -/
def enter (routes : Routes ι) (i : ι) (phase : Phase) : Routes ι :=
  routes.set i { routes.clients i with phase := phase }

def close (routes : Routes ι) (i : ι) : Routes ι :=
  routes.set i { routes.clients i with closed := true }

def accept (routes : Routes ι) (i : ι) (stableId : Nat) : Routes ι :=
  routes.set i { routes.clients i with phase := .readHello, stableId := stableId }

def readHello (routes : Routes ι) (i : ι) (hello : ClientHello) : Routes ι :=
  routes.set i { routes.clients i with phase := .getToken hello, hello := some hello }

/-- `get_auth_token_by_id(&hello.token).await?.context("need token")?` -/
def getToken (routes : Routes ι) (i : ι) (hello : ClientHello) : Routes ι :=
  match routes.db.getAuthTokenById hello.token with
  | some token => routes.enter i (.getUser hello token)
  | none => routes.enter i .failed

/-- `get_user_by_id(&token.user_id).await?.context("need user")?` and the check of the domain -/
def getUser (routes : Routes ι) (i : ι) (hello : ClientHello) (token : AuthToken) : Routes ι :=
  match routes.db.getUserById token.userId with
  | some user => routes.enter i (if hello.domain ∈ user.domains then .sendHello hello else .failed)
  | none => routes.enter i .failed

/-- The first locked block: a connection with the same domain is closed and replaced. -/
def register (routes : Routes ι) (i : ι) (domain : Text) : Routes ι :=
  let closing := match routes.conns domain with
    | some prev => routes.close prev
    | none => routes
  { closing.enter i (.waitClosed domain) with
    conns := Function.update routes.conns domain (some i)
    registered := routes.registered ++ [(domain, i)] }

/-- The second locked block, once the connection is closed. -/
def cleanUp (routes : Routes ι) (i : ι) (domain : Text) : Routes ι :=
  match routes.conns domain with
  | some curConn =>
    if (routes.clients curConn).stableId = (routes.clients i).stableId
    then { routes.enter i (.cleaned domain) with conns := Function.update routes.conns domain none }
    else routes.enter i (.cleaned domain)
  | none => routes.enter i (.cleaned domain)

/-- `TunnelServer::handle` looks the connection for a server name up. -/
def handle (routes : Routes ι) (serverName : Text) : Option ι := routes.conns serverName

/-- One step of the task `i`. -/
inductive ClientStep (i : ι) : Routes ι → Routes ι → Prop where
  | accept {routes} (stableId : Nat) (phase : (routes.clients i).phase = .accept)
      (distinct : ∀ j, (routes.clients j).phase.connected = true → (routes.clients j).stableId ≠ stableId) :
      ClientStep i routes (routes.accept i stableId)
  | readHello {routes} (hello : ClientHello) (phase : (routes.clients i).phase = .readHello) :
      ClientStep i routes (routes.readHello i hello)
  | getToken {routes hello} (phase : (routes.clients i).phase = .getToken hello) :
      ClientStep i routes (routes.getToken i hello)
  | getUser {routes hello token} (phase : (routes.clients i).phase = .getUser hello token) :
      ClientStep i routes (routes.getUser i hello token)
  | sendHello {routes hello} (phase : (routes.clients i).phase = .sendHello hello) :
      ClientStep i routes (routes.enter i (.register hello.domain))
  | fail {routes} (phase : (routes.clients i).phase.handshake = true) :
      ClientStep i routes (routes.enter i .failed)
  | register {routes domain} (phase : (routes.clients i).phase = .register domain) :
      ClientStep i routes (routes.register i domain)
  | closed {routes domain} (phase : (routes.clients i).phase = .waitClosed domain)
      (closed : (routes.clients i).closed = true) :
      ClientStep i routes (routes.enter i (.cleanUp domain))
  | cleanUp {routes domain} (phase : (routes.clients i).phase = .cleanUp domain) :
      ClientStep i routes (routes.cleanUp i domain)

/-- A task goes on, a connection is lost, or accounts and domains change. -/
inductive Step (availableSuffixes : List Text) : Routes ι → Routes ι → Prop where
  | client {routes after} (i : ι) (step : ClientStep i routes after) : Step availableSuffixes routes after
  | lost {routes} (i : ι) : Step availableSuffixes routes (routes.close i)
  | account {routes db} (step : Tunnel.Step availableSuffixes unrestricted routes.db db) :
      Step availableSuffixes routes { routes with db := db }

abbrev Reachable (availableSuffixes : List Text) (db : DB) : Routes ι → Prop :=
  Relation.ReflTransGen (Step availableSuffixes) (initial db)

end Routes
end Pos2.Tunnel
