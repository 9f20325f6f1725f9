import Mathlib.Data.Char
import Mathlib.Data.List.Lex
import Mathlib.Logic.Relation
import Pos2.Calls.Embed
import Pos2.Tunnel.Certs

/-! How a certificate is ordered, renewed and served, in `tunnel/src/cert.rs`. One task
does all of it, call by call; each process begins again with what it finds on disk. A loop
has as many turns as it is given, and a panic ends the task as an error does. -/

namespace Pos2.Tunnel
open Calls Fallible

/-- What is read of PEM files and made of it. -/
structure Pem (δ κ ι : Type) where
  certificates : Chunk → List (Except String δ)
  privateKey : Chunk → Except String κ
  certificateId : δ → Except String ι
  fromDer : List δ → κ → Except String Unit

/-- The chain and the key that a handshake is answered with. -/
structure CertifiedKey (δ κ : Type) where
  certs : List δ
  key : κ

/-- Times in nanoseconds. -/
structure CertificateInfo where
  renewAt : Int
  updateRenewInfoAt : Int
  deriving DecidableEq

inductive AuthorizationStatus where
  | pending
  | valid
  | other
  deriving DecidableEq

/-- The identifier is missing where it is no name; the value is that of the challenge by
DNS, where there is one. -/
structure Authorization where
  status : AuthorizationStatus
  dns : Option Text
  dnsValue : Option Text

inductive OrderStatus where
  | pending
  | ready
  | processing
  | valid
  | invalid
  deriving DecidableEq

inductive CertCall (δ κ γ ι : Type) where
  | file (call : FileCall)
  | createDirAll (path : Text)
  | fromCredentials (credentials : γ)
  | createAccount
  | newOrder (domains : List Text) (replaces : Option ι)
  | nextAuthorization (order : Nat)
  | addTxtRecord (name value : Text)
  | setReady (order : Nat) (dns value : Text)
  | pollReady (order : Nat)
  | finalize (order : Nat)
  | certificate (order : Nat)
  | sleep
  | renewalInfo (id : ι)
  | now
  | randomRange (count : Nat)
  | selectSleep (renewAt updateAt : Int)
  | setKey (key : CertifiedKey δ κ)

/-- An order goes by its number. `selectSleep` tells whether the first time has come. -/
abbrev CertCall.Value {δ κ γ ι : Type} : CertCall δ κ γ ι → Type
  | .file call => call.Value
  | .createAccount => γ
  | .newOrder _ _ => Nat
  | .nextAuthorization _ => Option Authorization
  | .pollReady _ => OrderStatus
  | .finalize _ => Text
  | .certificate _ => Option Text
  | .renewalInfo _ => Int × Int
  | .now => Int
  | .randomRange _ => Nat
  | .selectSleep _ _ => Bool
  | _ => Unit

abbrev CertCalls (δ κ γ ι : Type) := Interface.fallible (CertCall δ κ γ ι) CertCall.Value

abbrev Certs (δ κ γ ι α : Type) := Fallible (CertCalls δ κ γ ι) α

namespace Acme
variable {δ κ γ ι : Type}

def call (call : CertCall δ κ γ ι) : Certs δ κ γ ι call.Value := ask call

/-- A function that uses files only. -/
def files {α : Type} (function : Filed α) : Certs δ κ γ ι α :=
  Program.embed (J := CertCalls δ κ γ ι) CertCall.file (fun _ reply => reply) function

def panics {α : Type} : Certs δ κ γ ι α := Fallible.fail "panicked"

/-- A loop that is looked at no further. -/
def goesOn {α : Type} : Certs δ κ γ ι α := Fallible.fail "still running"

/-- `getaccount` -/
def getaccount (accounts : Json γ) (env : Environment) : Certs δ κ γ ι Unit := do
  let credentialsPath := env.joinPath "acme/credentials.json".toList
  match ← files (readOptionalJsonFile accounts credentialsPath) with
  | some credentials => call (.fromCredentials credentials)
  | none =>
    let credentials ← call .createAccount
    let printed ← ofExcept (accounts.toStringPretty credentials)
    files (writeFile credentialsPath printed.utf8)

variable (pem : Pem δ κ ι)

/-- `get_certificate_id` -/
def getCertificateId (certificate : Text) : Except String ι :=
  match (pem.certificates certificate.utf8).head? with
  | none => .error "missing certificate"
  | some (.error error) => .error error
  | some (.ok certificate) => pem.certificateId certificate

def second : Int := 1000000000

/-- `get_renewal_info` -/
def getRenewalInfo (cert : Text) : Certs δ κ γ ι CertificateInfo := do
  let id ← ofExcept (getCertificateId pem cert)
  let (start, stop) ← call (.renewalInfo id)
  let now ← call .now
  let checkNext := now + 3600 * second
  let checkNext := checkNext - checkNext % second
  let diff := (stop - start).tdiv second
  -- the range is empty
  if diff ≤ 0 then panics else
  let offset ← call (.randomRange diff.toNat)
  return ⟨start + offset * second, checkNext⟩

/-- The challenges of `ordercert`. -/
def answerChallenges (order : Nat) : Nat → Certs δ κ γ ι Unit
  | 0 => goesOn
  | turns + 1 => do
    match ← call (.nextAuthorization order) with
    | none => return
    | some authz =>
      match authz.status with
      | .valid => answerChallenges order turns
      | .other => panics
      | .pending =>
        match authz.dnsValue with
        | none => Fallible.fail "no dns01 challenge found"
        | some value =>
          match authz.dns with
          | none => panics
          | some dns =>
            call (.addTxtRecord ("_acme-challenge.".toList ++ dns ++ ".".toList) value)
            call (.setReady order dns value)
            answerChallenges order turns

/-- The loop for the certificate in `ordercert`. -/
def awaitCertificate (order : Nat) : Nat → Certs δ κ γ ι Text
  | 0 => goesOn
  | turns + 1 => do
    match ← call (.certificate order) with
    | some chain => return chain
    | none =>
      call .sleep
      awaitCertificate order turns

variable (json : Json CertificateInfo) (env : Environment)

/-- What an order is to replace. -/
def replaced (previous : Option (LoadedCertificate CertificateInfo)) : Certs δ κ γ ι (Option ι) :=
  match previous with
  | none => return none
  | some previous => do
    let id ← ofExcept (getCertificateId pem previous.cert)
    return some id

/-- `ordercert` -/
def ordercert (turns : Nat) (name : Text) (domains : List Text) (previous : Option (LoadedCertificate CertificateInfo)) :
    Certs δ κ γ ι (LoadedCertificate CertificateInfo) := do
  let replaces ← replaced pem previous
  let order ← call (.newOrder domains replaces)
  answerChallenges order turns
  let status ← call (.pollReady order)
  if status ≠ .ready then Fallible.fail "unexpected order status" else
  let key ← call (.finalize order)
  let chain ← awaitCertificate order turns
  let info ← getRenewalInfo pem chain
  let packed : LoadedCertificate CertificateInfo := ⟨info, chain, key⟩
  files (writeCerts json env name packed)
  return packed

/-- `parse_cert_and_key` -/
def parseCertAndKey (info : LoadedCertificate CertificateInfo) : Except String (List δ × κ) := do
  let certs ← (pem.certificates info.cert.utf8).mapM id
  let key ← pem.privateKey info.key.utf8
  return (certs, key)

/-- What `update_key` makes of the files. -/
def certifiedKey (info : LoadedCertificate CertificateInfo) : Except String (CertifiedKey δ κ) := do
  let (certs, key) ← parseCertAndKey pem info
  pem.fromDer certs key
  return ⟨certs, key⟩

/-- `update_key` -/
def updateKey (info : LoadedCertificate CertificateInfo) : Certs δ κ γ ι Unit := do
  let key ← ofExcept (certifiedKey pem info)
  call (.setKey key)

def sortedDomains (domains : List Text) : List Text := domains.mergeSort fun first second => first ≤ second

/-- The names as they are shown, with a dash between them. A name has no character that
would be shown as another. -/
def certName (domains : List Text) : Text :=
  List.intercalate "-".toList (domains.map fun dns => "Dns(\"".toList ++ dns ++ "\")".toList)

variable (accounts : Json γ)

/-- The certificate on disk, or else a new one. -/
def loadOrOrder (turns : Nat) (name : Text) (domains : List Text) : Certs δ κ γ ι (LoadedCertificate CertificateInfo) := do
  match ← files (loadCerts json env name) with
  | some loaded => return loaded
  | none => ordercert pem json env turns name domains none

/-- `initialize` -/
def initialize_ (turns : Nat) (domains : List Text) : Certs δ κ γ ι (LoadedCertificate CertificateInfo) := do
  call (.createDirAll (env.joinPath "./acme".toList))
  getaccount accounts env
  let domains := sortedDomains domains
  let loaded ← loadOrOrder pem json env turns (certName domains) domains
  updateKey pem loaded
  return loaded

/-- The inner loop of `maintain_certs`. -/
def awaitRenewal (loaded : LoadedCertificate CertificateInfo) : Nat → Certs δ κ γ ι (LoadedCertificate CertificateInfo)
  | 0 => goesOn
  | turns + 1 => do
    if ← call (.selectSleep loaded.info.renewAt loaded.info.updateRenewInfoAt) then return loaded
    let info ← getRenewalInfo pem loaded.cert
    awaitRenewal { loaded with info } turns

/-- `maintain_certs` -/
def maintainCerts (turns : Nat) (domains : List Text) (loaded : LoadedCertificate CertificateInfo) :
    Nat → Certs δ κ γ ι Unit
  | 0 => goesOn
  | rounds + 1 => do
    let loaded ← awaitRenewal pem loaded turns
    let newinfo ← ordercert pem json env turns (certName domains) domains (some loaded)
    updateKey pem newinfo
    maintainCerts turns domains newinfo rounds

/-- What a process does for its certificate. -/
def process (turns : Nat) (domains : List Text) : Certs δ κ γ ι Unit := do
  let loaded ← initialize_ pem json env accounts turns domains
  maintainCerts pem json env turns (sortedDomains domains) loaded turns

end Acme

/-! ### What it all works on -/

/-- An order with what the server knows of it, and the certificate that was served when
it was made. -/
structure AcmeOrder (δ κ ι : Type) where
  domains : List Text
  replaces : Option ι
  serving : Option (CertifiedKey δ κ)
  answered : List (Text × Text)
  wasReady : Bool
  key : Option Text
  chain : Option Text

/-- `served` is what the resolver of the process has, if there is one. -/
structure CertWorld (δ κ ι : Type) where
  files : Files
  orders : List (AcmeOrder δ κ ι)
  txt : List (Text × Text)
  served : Option (CertifiedKey δ κ)

namespace CertWorld
variable {δ κ γ ι π : Type}

def order (world : CertWorld δ κ ι) (i : Nat) (change : AcmeOrder δ κ ι → AcmeOrder δ κ ι) : CertWorld δ κ ι :=
  { world with orders := world.orders.modify i change }

variable (pem : Pem δ κ ι) (publicKey : δ → π) (publicOf : κ → π)

/-- The text is that of a private key. -/
def KeyText (text : Text) (key : κ) : Prop := pem.privateKey text.utf8 = .ok key

/-- No order has a key of the same public key. -/
def NewKey (world : CertWorld δ κ ι) (key : κ) : Prop :=
  ∀ order ∈ world.orders, ∀ text other, order.key = some text → KeyText pem text other → publicOf other ≠ publicOf key

/-- The first certificate of the chain is for the order's key. -/
def ChainFor (order : AcmeOrder δ κ ι) (chain : Text) : Prop :=
  ∃ text key leaf rest, order.key = some text ∧ KeyText pem text key ∧
    pem.certificates chain.utf8 = .ok leaf :: rest ∧ publicKey leaf = publicOf key

/-- The disk, the server for certificates and the one for names. A call that fails has
done what it should, or a part of it, or nothing. The key of an order is made for it,
once, and its chain is for that key. -/
def answers : Handler (CertCalls δ κ γ ι) (CertWorld δ κ ι)
  | .file call, before, reply, after =>
    answersFiles call before.files reply after.files ∧ after = { before with files := after.files }
  | .newOrder domains replaces, before, reply, after =>
    (∃ error, reply = .error error) ∧ after = before ∨
      (reply = .ok before.orders.length ∨ ∃ error, reply = .error error) ∧
        after = { before with orders := before.orders ++ [⟨domains, replaces, before.served, [], false, none, none⟩] }
  | .addTxtRecord name value, before, reply, after =>
    (∃ error, reply = .error error) ∧ after = before ∨ after = { before with txt := before.txt ++ [(name, value)] }
  | .setReady i dns value, before, reply, after =>
    (∃ error, reply = .error error) ∧ after = before ∨
      after = before.order i fun order => { order with answered := order.answered ++ [(dns, value)] }
  | .pollReady i, before, reply, after =>
    reply ≠ .ok .ready ∧ after = before ∨
      after = before.order i fun order => { order with wasReady := true }
  | .finalize i, before, reply, after =>
    (∃ error, reply = .error error) ∧ after = before ∨
      ∃ text key, (reply = .ok text ∨ ∃ error, reply = .error error) ∧ KeyText pem text key ∧ NewKey pem publicOf before key ∧
        (∀ order, before.orders[i]? = some order → order.key = none) ∧
        after = before.order i fun order => { order with key := some text }
  | .certificate i, before, reply, after =>
    (reply = .ok none ∨ ∃ error, reply = .error error) ∧ after = before ∨
      ∃ chain order, reply = .ok (some chain) ∧ before.orders[i]? = some order ∧
        ChainFor pem publicKey publicOf order chain ∧ (order.chain = none ∨ order.chain = some chain) ∧
        after = before.order i fun order => { order with chain := some chain }
  | .setKey key, before, reply, after => reply = .ok () ∧ after = { before with served := some key }
  | _, before, _, after => after = before

variable (json : Json CertificateInfo) (env : Environment) (accounts : Json γ) (domains : List Text)

/-- A process, which begins with nothing to serve and stops anywhere. -/
def Lives (before after : CertWorld δ κ ι) : Prop :=
  ∃ turns, (Acme.process pem json env accounts turns domains).Leaves
    (answers pem publicKey publicOf) { before with served := none } after

/-- One process after the other. -/
def Leads (before after : CertWorld δ κ ι) : Prop :=
  Relation.ReflTransGen (Lives pem publicKey publicOf json env accounts domains) before after

end CertWorld
end Pos2.Tunnel
