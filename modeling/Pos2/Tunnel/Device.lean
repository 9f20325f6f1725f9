import Pos2.Calls.Safety
import Pos2.Tunnel.Db

/-! Device tokens of `tunnel/src/web.rs`. Each method of `Storage` is a program
whose database calls are atomic and may fail; no transaction encloses them. -/

namespace Pos2.Tunnel
open Calls

/-- A decision of a user on a device token. -/
inductive Decision where
  | approve (userId : Text)
  | reject
  deriving DecidableEq

/-- Why a row is written back. The database sees the row only. -/
inductive Purpose where
  | decide (decision : Decision)
  | exchange
  deriving DecidableEq

/-- The state a method has checked before it writes the row. -/
def Purpose.checked : Purpose → TokenState
  | .decide _ => .pending
  | .exchange => .approved

/-- The database calls, with the device code that an auth token is created for. -/
inductive DbRequest where
  | getDeviceTokenByDeviceCode (code : Text)
  | insertDeviceToken (token : DeviceToken)
  | updateDeviceToken (purpose : Purpose) (token : DeviceToken)
  | createAuthToken (code userId : Text)

abbrev DbRequest.Value : DbRequest → Type
  | .getDeviceTokenByDeviceCode _ => Option DeviceToken
  | .insertDeviceToken _ => Unit
  | .updateDeviceToken _ _ => Unit
  | .createAuthToken _ _ => AuthToken

abbrev DbCalls : Interface := ⟨DbRequest, fun request => Except String request.Value⟩

namespace Storage

/-- The row that `create_device_token` inserts, with random codes. -/
def newDeviceToken (deviceCode userCode : Text) (now : Int) : DeviceToken where
  deviceCode := deviceCode
  userCode := userCode
  state := .pending
  approvedByUserId := []
  nextPollAt := now + 5000
  intervalSeconds := 5
  expiresAt := now + 15 * 60 * 1000

def createDeviceToken (deviceCode userCode : Text) (now : Int) : Program DbCalls (Except String DeviceToken) :=
  .call (.insertDeviceToken (newDeviceToken deviceCode userCode now)) fun
    | .ok () => .done (.ok (newDeviceToken deviceCode userCode now))
    | .error error => .done (.error error)

def approveDeviceToken (deviceCode userId : Text) : Program DbCalls (Except String Unit) :=
  .call (.getDeviceTokenByDeviceCode deviceCode) fun
    | .ok (some token) =>
      if token.state ≠ .pending then .done (.error "not pending") else
      .call (.updateDeviceToken (.decide (.approve userId))
        { token with state := .approved, approvedByUserId := userId }) .done
    | .ok none => .done (.error "missing token")
    | .error error => .done (.error error)

def rejectDeviceToken (deviceCode : Text) : Program DbCalls (Except String Unit) :=
  .call (.getDeviceTokenByDeviceCode deviceCode) fun
    | .ok (some token) =>
      if token.state ≠ .pending then .done (.error "not pending") else
      .call (.updateDeviceToken (.decide .reject) { token with state := .rejected }) .done
    | .ok none => .done (.error "missing token")
    | .error error => .done (.error error)

def pollDeviceToken (deviceCode : Text) :
    Program DbCalls (Except String (Option DeviceToken × Option AuthToken)) :=
  .call (.getDeviceTokenByDeviceCode deviceCode) fun
    | .ok (some token) =>
      if token.state ≠ .approved then .done (.ok (some token, none)) else
      .call (.updateDeviceToken .exchange { token with state := .exchanged }) fun
        | .ok () =>
          .call (.createAuthToken token.deviceCode token.approvedByUserId) fun
            | .ok authToken => .done (.ok (none, some authToken))
            | .error error => .done (.error error)
        | .error error => .done (.error error)
    | .ok none => .done (.ok (none, none))
    | .error error => .done (.error error)

end Storage

/-- The database with what was done to it: the decisions that were written, the
auth tokens that were created, and the codes for which creating one failed. -/
structure History where
  db : DB
  decided : List (Text × Decision)
  issued : List (Text × AuthToken)
  unissued : List Text

namespace History

def new : History := ⟨.new, [], [], []⟩

def row (history : History) (code : Text) : Option DeviceToken := history.db.getDeviceTokenByDeviceCode code

def decisionsOn (history : History) (code : Text) : List Decision :=
  (history.decided.filter fun entry => entry.1 = code).map Prod.snd

def issuedFor (history : History) (code : Text) : List AuthToken :=
  (history.issued.filter fun entry => entry.1 = code).map Prod.snd

end History

/-- A call that succeeds. -/
def DbRequest.Succeeds : (request : DbRequest) → History → request.Value → History → Prop
  | .getDeviceTokenByDeviceCode code, before, value, after => value = before.row code ∧ after = before
  | .insertDeviceToken token, before, _, after =>
    ∃ db, before.db.insertDeviceToken token = some db ∧ after = { before with db }
  | .updateDeviceToken (.decide decision) token, before, _, after =>
    ∃ db, before.db.updateDeviceToken token = some db ∧
      after = { before with db, decided := before.decided ++ [(token.deviceCode, decision)] }
  | .updateDeviceToken .exchange token, before, _, after =>
    ∃ db, before.db.updateDeviceToken token = some db ∧ after = { before with db }
  | .createAuthToken code userId, before, value, after =>
    ∃ id db, before.db.createAuthToken id userId = some (value, db) ∧
      after = { before with db, issued := before.issued ++ [(code, value)] }

/-- A call that fails is taken to leave the database alone. (An insert or update that writes its row and then fails to
read it back is left out.) -/
def DbRequest.Fails : DbRequest → History → History → Prop
  | .createAuthToken code _, before, after => after = { before with unissued := before.unissued ++ [code] }
  | _, before, after => after = before

def serves : Handler DbCalls History := fun request before reply after =>
  match reply with
  | .ok value => request.Succeeds before value after
  | .error _ => request.Fails before after

/-- How a method of `Storage` ended. -/
inductive Ended where
  | created (result : Except String DeviceToken)
  | decided (deviceCode : Text) (decision : Decision) (result : Except String Unit)
  | polled (deviceCode : Text) (result : Except String (Option DeviceToken × Option AuthToken))

abbrev Task := Program DbCalls (Option Ended)

/-- Any caller may start any method at any time. -/
inductive Tasks {ι : Type} : ι → Option Ended → Task → Prop where
  | create {i : ι} {last : Option Ended} (deviceCode userCode : Text) (now : Int) :
      Tasks i last ((Storage.createDeviceToken deviceCode userCode now).bind fun result =>
        .done (some (.created result)))
  | approve {i : ι} {last : Option Ended} (deviceCode userId : Text) :
      Tasks i last ((Storage.approveDeviceToken deviceCode userId).bind fun result =>
        .done (some (.decided deviceCode (.approve userId) result)))
  | reject {i : ι} {last : Option Ended} (deviceCode : Text) :
      Tasks i last ((Storage.rejectDeviceToken deviceCode).bind fun result =>
        .done (some (.decided deviceCode .reject result)))
  | poll {i : ι} {last : Option Ended} (deviceCode : Text) :
      Tasks i last ((Storage.pollDeviceToken deviceCode).bind fun result =>
        .done (some (.polled deviceCode result)))

abbrev Tokens (ι : Type) := Pool DbCalls History ι (Option Ended)

def Tokens.initial {ι : Type} : Tokens ι := ⟨.new, fun _ => .done none⟩

/-- A condition on an answered call. -/
abbrev Meets := (request : DbRequest) → History → Except String request.Value → Prop

def anyStep : Meets := fun _ _ _ => True

/-- The database, where every answered call meets the condition. -/
def servesUnder (meets : Meets) : Handler DbCalls History := fun request before reply after =>
  meets request before reply ∧ serves request before reply after

abbrev Tokens.Step {ι : Type} [DecidableEq ι] (meets : Meets) :=
  Pool.Step (ι := ι) (servesUnder meets) Tasks

abbrev Tokens.Reachable {ι : Type} [DecidableEq ι] (meets : Meets) (tokens : Tokens ι) : Prop :=
  Pool.Runs (servesUnder meets) Tasks Tokens.initial tokens

namespace Tokens
variable {ι : Type} [DecidableEq ι] {meets : Meets} {tokens : Tokens ι}

theorem Reachable.call (reachable : Reachable meets tokens) (i : ι) {request next}
    (waiting : tokens.threads i = .call request next) (reply : Except String request.Value) (after : History)
    (met : meets request tokens.shared reply) (served : serves request tokens.shared reply after) :
    Reachable meets ⟨after, Function.update tokens.threads i (next reply)⟩ :=
  .tail reachable ⟨i, .call reply after waiting ⟨met, served⟩⟩

theorem Reachable.start (reachable : Reachable meets tokens) (i : ι) {last : Option Ended} {task : Task}
    (idle : tokens.threads i = .done last) (started : Tasks i last task) :
    Reachable meets ⟨tokens.shared, Function.update tokens.threads i task⟩ :=
  .tail reachable ⟨i, .start task idle started⟩

end Tokens
end Pos2.Tunnel
