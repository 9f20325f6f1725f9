import Pos2.Tunnel.Issuance

/-! The functions of a process, call by call: what each keeps, and what it has got when
it ends. -/

namespace Pos2.Tunnel
open Calls Fallible

namespace CertWorld

section
variable {δ κ γ ι π α β : Type} (pem : Pem δ κ ι) (publicKey : δ → π) (publicOf : κ → π) (domains : List Text)

/-- How far a function has come that leaves files and what is served alone. -/
def Kept (before after : CertWorld δ κ ι) : Prop := Books pem publicKey publicOf domains after ∧ Stays before after

def Keeps (function : Certs δ κ γ ι α) (post : α → CertWorld δ κ ι → Prop) (world : CertWorld δ κ ι) : Prop :=
  function.Along (answers pem publicKey publicOf) (Kept pem publicKey publicOf domains) post world

variable {pem publicKey publicOf domains} {before after world : CertWorld δ κ ι}

private theorem kept_course : Course (Kept pem publicKey publicOf domains) where
  trans one two := ⟨two.1, one.2.trans two.2⟩
  stays one := ⟨one.1, .refl _⟩

theorem Kept.here (books : Books pem publicKey publicOf domains world) : Kept pem publicKey publicOf domains world world :=
  ⟨books, .refl _⟩

theorem Keeps.bind {middle : α → CertWorld δ κ ι → Prop} {post : β → CertWorld δ κ ι → Prop} {first : Certs δ κ γ ι α}
    {rest : α → Certs δ κ γ ι β} (keeps : Keeps pem publicKey publicOf domains first middle world)
    (then_ : ∀ value after, Kept pem publicKey publicOf domains world after → middle value after →
      Keeps pem publicKey publicOf domains (rest value) post after) :
    Keeps pem publicKey publicOf domains (first >>= rest) post world :=
  Along.bind kept_course keeps then_

theorem Keeps.call (books : Books pem publicKey publicOf domains world) (request : CertCall δ κ γ ι)
    (allowed : Allowed pem domains world request) :
    Keeps pem publicKey publicOf domains (Acme.call request)
      (fun value after => answers pem publicKey publicOf request world (.ok value) after) world := by
  intro reply after answered
  have kept := books.answers allowed answered
  refine ⟨kept, ?_⟩
  cases reply with
  | ok value => exact ⟨kept, answered⟩
  | error error => exact kept

theorem Keeps.ofExcept (books : Books pem publicKey publicOf domains world) (result : Except String α) :
    Keeps (γ := γ) pem publicKey publicOf domains (Fallible.ofExcept result) (fun value _ => result = .ok value) world :=
  Along.ofExcept (.here books) fun _ same => same

/-! ### Along the orders -/

theorem getRenewalInfo_keeps (books : Books pem publicKey publicOf domains world) (cert : Text) :
    Keeps (γ := γ) pem publicKey publicOf domains (Acme.getRenewalInfo pem cert) (fun _ _ => True) world := by
  refine (Keeps.ofExcept books _).bind fun id first kept _ => ?_
  refine (Keeps.call kept.1 (.renewalInfo id) trivial).bind fun window second kept _ => ?_
  refine (Keeps.call kept.1 .now trivial).bind fun now third kept _ => ?_
  dsimp only
  split
  · exact .fail _ (.here kept.1)
  · refine (Keeps.call kept.1 (.randomRange _) trivial).bind fun offset last kept _ => ?_
    exact .pure (.here kept.1) trivial

/-- Each challenge is answered only after its record was added. -/
theorem answerChallenges_keeps (books : Books pem publicKey publicOf domains world) (order turns : Nat) :
    Keeps pem publicKey publicOf domains (Acme.answerChallenges order turns : Certs δ κ γ ι Unit) (fun _ _ => True) world := by
  induction turns generalizing world with
  | zero => exact .fail _ (.here books)
  | succ turns ih =>
    refine (Keeps.call books (.nextAuthorization order) trivial).bind fun authz first kept _ => ?_
    cases authz with
    | none => exact .pure (.here kept.1) trivial
    | some authz =>
      obtain ⟨status, dns, value⟩ := authz
      cases status with
      | valid => exact ih kept.1
      | other => exact .fail _ (.here kept.1)
      | pending =>
        cases value with
        | none => exact .fail _ (.here kept.1)
        | some value =>
          cases dns with
          | none => exact .fail _ (.here kept.1)
          | some dns =>
            refine (Keeps.call kept.1 (.addTxtRecord (challengeName dns) value) trivial).bind fun _ second kept added => ?_
            obtain ⟨⟨error, impossible⟩, _⟩ | rfl := added
            · cases impossible
            have there : (challengeName dns, value) ∈ first.txt ++ [(challengeName dns, value)] := by simp
            exact (Keeps.call kept.1 (.setReady order dns value) there).bind fun _ last kept _ => ih kept.1

private theorem awaitCertificate_keeps (books : Books pem publicKey publicOf domains world) (order turns : Nat) :
    Keeps pem publicKey publicOf domains (Acme.awaitCertificate order turns : Certs δ κ γ ι Text)
      (fun chain after => after.Chain order chain) world := by
  induction turns generalizing world with
  | zero => exact .fail _ (.here books)
  | succ turns ih =>
    refine (Keeps.call books (.certificate order) trivial).bind fun answer first kept answered => ?_
    cases answer with
    | none =>
      exact (Keeps.call kept.1 .sleep trivial).bind fun _ second kept _ => ih kept.1
    | some chain =>
      obtain ⟨impossible | ⟨error, impossible⟩, _⟩ | ⟨issued, made, same, there, _, _, rfl⟩ := answered
      · cases impossible
      · cases impossible
      cases same
      exact .pure (.here kept.1) ⟨{ made with chain := some chain }, by simp [CertWorld.order, there], rfl⟩

end

end CertWorld

/-! ### With the files -/

section
variable {γ : Type} {path : Text} {start : Files}

def FileCall.Reads (call : FileCall) : Prop := ∃ path, call = .readToString path

/-- A function that only reads gets what it gets when nothing interrupts it. -/
theorem reads_alone {α : Type} {function : Filed α} (reads : function.Uses FileCall.Reads fun _ => True)
    (stops : Stops function) (start : Files) :
    function.Alone answersFiles (fun _ after => after = start) (fun after => after = start)
      (fun value after => after = start ∧ (function.run Disk.serve ⟨start, 0⟩).1 = .ok value) start := by
  induction function with
  | done result =>
    cases result with
    | ok value => exact ⟨rfl, rfl⟩
    | error error => exact (rfl : start = start)
  | call request next ih =>
    obtain ⟨⟨path, rfl⟩, uses⟩ := reads
    intro reply after answered
    obtain ⟨same, rfl⟩ := answered
    refine ⟨rfl, ?_⟩
    obtain rfl | ⟨error, rfl⟩ := same
    · cases read : textAt after path with
      | ok value =>
        simp only [Fallible.run, Program.run_call, Disk.serve, read]
        exact ih (.ok value) (uses _) (stops.2 value)
      | error error =>
        obtain ⟨error', ends⟩ := stops.1 error
        rw [ends]
        exact (rfl : after = after)
    · obtain ⟨error', ends⟩ := stops.1 error
      rw [ends]
      exact (rfl : after = after)

private theorem readOptionalFile_reads (path : Text) :
    (readOptionalFile path).Uses FileCall.Reads fun _ => True :=
  ⟨⟨path, rfl⟩, fun _ _ _ => trivial⟩

variable {ν : Type} (json : Json ν)

private theorem readOptionalJsonFile_reads (path : Text) :
    (readOptionalJsonFile json path).Uses FileCall.Reads fun _ => True := by
  refine (readOptionalFile_reads path).bind fun contents _ => ?_
  cases contents with
  | none => exact .pure trivial
  | some contents => exact (Uses.ofExcept _).bind fun _ _ => .pure trivial

private theorem readOptionalJsonFile_stops (path : Text) : Stops (readOptionalJsonFile json path) := by
  refine Stops.bind (Stops.ask _) fun contents => ?_
  cases contents with
  | none => exact trivial
  | some contents => exact Stops.bind (Stops.ofExcept _) fun _ => trivial

theorem loadCerts_alone (env : Environment) (name : Text) (start : Files) :
    (loadCerts json env name).Alone answersFiles (fun _ after => after = start) (fun after => after = start)
      (fun value after => after = start ∧ loaded json env name start = .ok value) start := by
  have reads : (loadCerts json env name).Uses FileCall.Reads fun _ => True := by
    refine (readOptionalJsonFile_reads json _).bind fun info _ => ?_
    cases info with
    | none => exact .pure trivial
    | some info =>
      refine (readOptionalFile_reads _).bind fun cert _ => ?_
      cases cert with
      | none => exact .pure trivial
      | some cert =>
        refine (readOptionalFile_reads _).bind fun key _ => ?_
        cases key <;> exact .pure trivial
  have stops : Stops (loadCerts json env name) := by
    refine Stops.bind (readOptionalJsonFile_stops json _) fun info => ?_
    cases info with
    | none => exact trivial
    | some info =>
      refine Stops.bind (Stops.ask _) fun cert => ?_
      cases cert with
      | none => exact trivial
      | some cert =>
        refine Stops.bind (Stops.ask _) fun key => ?_
        cases key <;> exact trivial
  exact reads_alone reads stops start

/-- What is loaded is what the two files hold. -/
theorem loaded_files {json : Json ν} {env : Environment} {name : Text} {files : Files} {triple : LoadedCertificate ν}
    (loads : loaded json env name files = .ok (some triple)) :
    files (certFileName env name) = some triple.cert.utf8 ∧ files (keyFileName env name) = some triple.key.utf8 := by
  have there {path text : Text} (read : textAt files path = .ok (some text)) : files path = some text.utf8 := by
    cases at_ : files path with
    | none => simp [textAt, at_] at read
    | some bytes => rw [(textAt_some at_).mp read]
  cases infoAt : textAt files (infoFileName env name) with
  | error error => simp [loaded, loadCerts, readOptionalJsonFile, readOptionalFile_run, run_bind, infoAt] at loads
  | ok text =>
    cases text with
    | none => simp [loaded, loadCerts, readOptionalJsonFile, readOptionalFile_run, run_bind, infoAt] at loads
    | some text =>
      cases parsed : json.fromReader text with
      | error error =>
        simp [loaded, loadCerts, readOptionalJsonFile, readOptionalFile_run, run_bind, infoAt, parsed] at loads
      | ok info =>
        rw [loaded_dated (there infoAt) parsed] at loads
        rcases certAt : textAt files (certFileName env name) with error | _ | cert
        · simp [certAt] at loads
        · simp [certAt] at loads
        · rcases keyAt : textAt files (keyFileName env name) with error | _ | key
          · simp [certAt, keyAt] at loads
          · simp [certAt, keyAt] at loads
          · simp only [certAt, keyAt, Except.ok.injEq, Option.some.injEq] at loads
            subst loads
            exact ⟨there certAt, there keyAt⟩

end

namespace CertWorld

section
variable {δ κ γ ι π α β : Type} {pem : Pem δ κ ι} {publicKey : δ → π} {publicOf : κ → π}

/-- Nothing but files has changed. -/
def OnlyFiles (before after : CertWorld δ κ ι) : Prop := after = { before with files := after.files }

theorem OnlyFiles.trans {first before after : CertWorld δ κ ι} (one : OnlyFiles first before) (two : OnlyFiles before after) :
    OnlyFiles first after := by
  rw [OnlyFiles, two, one]

/-- A function that uses files does there what it does on its own. -/
theorem files_alone {function : Filed α} {step lost : Files → Prop} {post : α → Files → Prop} {world : CertWorld δ κ ι}
    (alone : function.Alone answersFiles (fun _ after => step after) lost post world.files) :
    (Acme.files function : Certs δ κ γ ι α).Alone (answers pem publicKey publicOf)
      (fun _ after => step after.files ∧ OnlyFiles world after) (fun after => lost after.files ∧ OnlyFiles world after)
      (fun value after => post value after.files ∧ OnlyFiles world after) world := by
  have served : ∀ {asked : FileCall} {before : CertWorld δ κ ι} {answer : Except String asked.Value}
      {after : CertWorld δ κ ι}, answers (γ := γ) pem publicKey publicOf (.file asked) before answer after →
      answersFiles asked before.files answer after.files ∧ OnlyFiles before after := fun served => served
  have within := Program.Alone.embed (J := CertCalls δ κ γ ι) CertCall.file (fun _ reply => reply) CertWorld.files OnlyFiles
    OnlyFiles.trans served alone (rfl : OnlyFiles world world)
  refine Program.Alone.mono within ?_
  rintro result after ⟨outcome, framed⟩
  cases result with
  | ok value => exact ⟨outcome, framed⟩
  | error error => exact ⟨outcome, framed⟩

/-- One that only reads leaves the whole as it is. -/
theorem reads_only {function : Filed α} {world : CertWorld δ κ ι} {known : α → Prop} {holds : CertWorld δ κ ι → Prop}
    (alone : function.Alone answersFiles (fun _ after => after = world.files) (fun after => after = world.files)
      (fun value after => after = world.files ∧ known value) world.files) (here : holds world) :
    (Acme.files function : Certs δ κ γ ι α).Alone (answers pem publicKey publicOf) (fun _ after => holds after) holds
      (fun value after => after = world ∧ known value) world := by
  have same {after : CertWorld δ κ ι} (read : after.files = world.files ∧ OnlyFiles world after) : after = world := by
    rw [read.2, read.1]
  refine (files_alone alone).weaken ?_ ?_ ?_
  · intro _ after read
    rw [same read]
    exact here
  · intro after read
    rw [same read]
    exact here
  · intro _ after read
    exact ⟨same ⟨read.1.1, read.2⟩, read.1.2⟩

end

end CertWorld

/-! ### The credentials -/

theorem joinPath_relative_inj {env : Environment} {first second : Text} (one : first.head? ≠ some '/')
    (two : second.head? ≠ some '/') (same : env.joinPath first = env.joinPath second) : first = second := by
  simp only [Environment.joinPath, if_neg one, if_neg two] at same
  split at same
  · exact List.append_cancel_left same
  · exact (List.cons.inj (List.append_cancel_left same)).2

def credentialsPath (env : Environment) : Text := env.joinPath "acme/credentials.json".toList

private theorem of_credentials {env : Environment} {name ending : Text}
    (same : env.joinPath ("acme/".toList ++ name ++ ending) = credentialsPath env) :
    ending <:+ "acme/credentials.json".toList :=
  ⟨"acme/".toList ++ name, joinPath_relative_inj (by simp) (by simp) same⟩

theorem cert_ne_credentials (env : Environment) (name : Text) : certFileName env name ≠ credentialsPath env :=
  fun same => absurd (of_credentials same) (by decide)

theorem key_ne_credentials (env : Environment) (name : Text) : keyFileName env name ≠ credentialsPath env :=
  fun same => absurd (of_credentials same) (by decide)

theorem info_ne_credentials (env : Environment) (name : Text) : infoFileName env name ≠ credentialsPath env :=
  fun same => absurd (of_credentials same) (by decide)

namespace CertWorld

section
variable {δ κ γ ι π : Type} {pem : Pem δ κ ι} {publicKey : δ → π} {publicOf : κ → π} {env : Environment}
  {first before after : CertWorld δ κ ι}

/-- Nothing but the credentials has changed. -/
def LoggedIn (env : Environment) (before after : CertWorld δ κ ι) : Prop :=
  OnlyFiles before after ∧ ∀ path, path ≠ credentialsPath env → after.files path = before.files path

theorem LoggedIn.refl (world : CertWorld δ κ ι) : LoggedIn env world world := ⟨rfl, fun _ _ => rfl⟩

/-- A call that changes nothing. -/
theorem quiet_alone (request : CertCall δ κ γ ι) {holds : CertWorld δ κ ι → Prop} {world : CertWorld δ κ ι}
    (same : ∀ reply after, answers pem publicKey publicOf request world reply after → after = world) (here : holds world) :
    (Acme.call request).Alone (answers pem publicKey publicOf) (fun _ after => holds after) holds
      (fun _ after => after = world) world := by
  intro reply after answered
  cases same reply after answered
  refine ⟨here, ?_⟩
  cases reply with
  | ok => rfl
  | error => exact here

theorem getaccount_alone (accounts : Json γ) (world : CertWorld δ κ ι) :
    (Acme.getaccount accounts env : Certs δ κ γ ι Unit).Alone (answers pem publicKey publicOf)
      (fun _ after => LoggedIn env world after) (LoggedIn env world) (fun _ after => LoggedIn env world after) world := by
  have here : LoggedIn env world world := .refl world
  refine Alone.bind (reads_only (reads_alone (readOptionalJsonFile_reads accounts (credentialsPath env))
    (readOptionalJsonFile_stops accounts _) world.files) here) fun credentials after read => ?_
  obtain rfl := read.1.symm
  cases credentials with
  | some credentials =>
    refine (quiet_alone (.fromCredentials credentials) (fun _ _ same => same) here).mono (fun _ lost => lost) ?_
    intro _ after same
    obtain rfl := same.symm
    exact here
  | none =>
    refine Alone.bind (quiet_alone .createAccount (fun _ _ same => same) here) fun credentials after same => ?_
    obtain rfl := same.symm
    have printed : (Fallible.ofExcept (accounts.toStringPretty credentials) : Certs δ κ γ ι Text).Alone
        (answers pem publicKey publicOf) (fun _ after => LoggedIn env world after) (LoggedIn env world)
        (fun _ after => after = world) world := Alone.ofExcept here fun _ _ => rfl
    refine printed.bind fun printed after same => ?_
    obtain rfl := same.symm
    have wrote {after : CertWorld δ κ ι} {bytes : Chunk}
        (went : Overwrites (credentialsPath env) bytes world.files after.files ∧ OnlyFiles world after) :
        LoggedIn env world after := ⟨went.2, went.1.1⟩
    refine (files_alone (writeFile_alone (credentialsPath env) printed.utf8 world.files)).weaken (fun _ _ => wrote)
      (fun _ => wrote) ?_
    intro _ after placed
    exact wrote ⟨placed.1.overwrites, placed.2⟩

end

/-! ### The order and its files -/

section
variable {δ κ γ ι π α β : Type} (pem : Pem δ κ ι) (publicKey : δ → π) (publicOf : κ → π) (env : Environment)
  (domains : List Text)

/-- The books are kept, and the files are those of orders. -/
structure Inv (world : CertWorld δ κ ι) : Prop where
  books : Books pem publicKey publicOf domains world
  disk : Disk env (Acme.certName (Acme.sortedDomains domains)) world world.orders.length

/-- A function through which that holds. -/
def Safely (function : Certs δ κ γ ι α) (post : α → CertWorld δ κ ι → Prop) (world : CertWorld δ κ ι) : Prop :=
  function.Alone (answers pem publicKey publicOf) (fun _ after => Inv pem publicKey publicOf env domains after)
    (Inv pem publicKey publicOf env domains) (fun value after => Inv pem publicKey publicOf env domains after ∧ post value after)
    world

/-- The certificate that is served, if one is, is the one that was loaded. -/
def Serves (world : CertWorld δ κ ι) : Option (LoadedCertificate CertificateInfo) → Prop
  | none => world.served = none
  | some loaded => ∃ key, world.served = some key ∧ Acme.certifiedKey pem loaded = .ok key

variable {pem publicKey publicOf env domains} {world before after : CertWorld δ κ ι}

theorem Safely.bind {middle : α → CertWorld δ κ ι → Prop} {post : β → CertWorld δ κ ι → Prop} {first : Certs δ κ γ ι α}
    {rest : α → Certs δ κ γ ι β} (safely : Safely pem publicKey publicOf env domains first middle world)
    (then_ : ∀ value after, Inv pem publicKey publicOf env domains after → middle value after →
      Safely pem publicKey publicOf env domains (rest value) post after) :
    Safely pem publicKey publicOf env domains (first >>= rest) post world :=
  Alone.bind safely fun value after holds => then_ value after holds.1 holds.2

theorem Safely.pure {post : α → CertWorld δ κ ι → Prop} {value : α} (inv : Inv pem publicKey publicOf env domains world)
    (holds : post value world) :
    Safely (γ := γ) pem publicKey publicOf env domains (Pure.pure value) post world := ⟨inv, holds⟩

theorem Safely.fail {post : α → CertWorld δ κ ι → Prop} (inv : Inv pem publicKey publicOf env domains world)
    (error : String) : Safely (γ := γ) pem publicKey publicOf env domains (Fallible.fail error) post world := inv

theorem Kept.inv (kept : Kept pem publicKey publicOf domains before after) (inv : Inv pem publicKey publicOf env domains before) :
    Inv pem publicKey publicOf env domains after :=
  ⟨kept.1, inv.disk.stays kept.2 kept.2.longer⟩

private theorem Keeps.safely {function : Certs δ κ γ ι α} {post : α → CertWorld δ κ ι → Prop}
    (keeps : Keeps pem publicKey publicOf domains function post world) (inv : Inv pem publicKey publicOf env domains world) :
    Safely pem publicKey publicOf env domains function (fun value after => Stays world after ∧ post value after) world := by
  have went : Keeps pem publicKey publicOf domains function (fun value after => Stays world after ∧ post value after) world :=
    Along.mono keeps fun _ _ kept holds => ⟨kept.2, holds⟩
  exact Along.keeps went (fun _ _ inv kept => ⟨kept.inv inv, kept.inv inv⟩) inv

/-! ### What is loaded and shown -/

theorem bind_ok {first : Except String α} {rest : α → Except String β} {value : β} (ends : first >>= rest = .ok value) :
    ∃ middle, first = .ok middle ∧ rest middle = .ok value := by
  cases first with
  | error error => cases ends
  | ok middle => exact ⟨middle, rfl, ends⟩

private theorem certifiedKey_ok {loaded : LoadedCertificate CertificateInfo} {key : CertifiedKey δ κ}
    (made : Acme.certifiedKey pem loaded = .ok key) :
    (pem.certificates loaded.cert.utf8).mapM id = .ok key.certs ∧ pem.privateKey loaded.key.utf8 = .ok key.key ∧
      pem.fromDer key.certs key.key = .ok () := by
  obtain ⟨pair, parsed, made⟩ := bind_ok made
  obtain ⟨certs, reads, parsed⟩ := bind_ok parsed
  obtain ⟨key', read, parsed⟩ := bind_ok parsed
  cases parsed
  obtain ⟨_, goes, made⟩ := bind_ok made
  cases made
  exact ⟨reads, read, goes⟩

/-- The first of all the certificates. -/
theorem mapM_head {certificates : List (Except String δ)} {certs : List δ} {leaf : δ} {rest : List δ}
    (reads : certificates.mapM id = .ok certs) (first : certs = leaf :: rest) :
    ∃ more, certificates = .ok leaf :: more := by
  subst first
  cases certificates with
  | nil => cases reads
  | cons result more =>
    rw [List.mapM_cons] at reads
    cases result with
    | error error => cases reads
    | ok first =>
      obtain ⟨_, same, reads⟩ := bind_ok reads
      cases same
      obtain ⟨others, _, same⟩ := bind_ok reads
      cases same
      exact ⟨more, rfl⟩

/-- A part of the chain of one order does not go with a part of the key of another. -/
theorem unusable (documented : pem.Documented publicKey publicOf) (books : Books pem publicKey publicOf domains world)
    {i j : Nat} {chain text : Text} (apart : i ≠ j) (issued : world.Chain i chain) (keyed : world.Key j text)
    {loaded : LoadedCertificate CertificateInfo} (within : loaded.cert.utf8 <+: chain.utf8)
    (inside : loaded.key.utf8 <+: text.utf8) (shown : CertifiedKey δ κ) : Acme.certifiedKey pem loaded ≠ .ok shown := by
  intro made
  obtain ⟨reads, read, goes⟩ := certifiedKey_ok made
  obtain ⟨leaf, rest, first, same⟩ := documented.fromDer _ _ goes
  obtain ⟨more, begins⟩ := mapM_head reads first
  obtain ⟨order, there, issued⟩ := issued
  obtain ⟨text', own, leaf', rest', made', read', begins', same'⟩ := books.chains i order chain there issued
  -- the certificate would go with its own order's key and with the other one
  obtain ⟨more', begins''⟩ := documented.leaf _ _ leaf more within begins
  rw [begins''] at begins'
  cases begins'
  exact apart (books.keys i j text' text own shown.key ⟨order, there, made'⟩ keyed read'
    (documented.key _ _ _ inside read) (same'.symm.trans same))

/-- What the files give is of one order, or is none. -/
theorem Disk.shown (documented : pem.Documented publicKey publicOf) {name : Text} {count : Nat}
    (books : Books pem publicKey publicOf domains world) (disk : Disk env name world count)
    {loaded : LoadedCertificate CertificateInfo} (cert : world.files (certFileName env name) = some loaded.cert.utf8)
    (key : world.files (keyFileName env name) = some loaded.key.utf8) {shown : CertifiedKey δ κ}
    (made : Acme.certifiedKey pem loaded = .ok shown) : ∃ i, Of pem world i shown := by
  cases disk with
  | nothing missing _ =>
    rw [missing] at cert
    cases cert
  | cert _ _ _ _ missing =>
    rw [missing] at key
    cases key
  | mixed apart _ _ issued keyed within inside cert' key' =>
    cases cert'.symm.trans cert
    cases key'.symm.trans key
    exact (unusable documented books apart issued keyed within inside shown made).elim
  | @whole i chain text piece _ issued keyed inside cert' key' =>
    obtain ⟨reads, read, _⟩ := certifiedKey_ok made
    cases key'.symm.trans key
    obtain rfl := Text.utf8_inj (Option.some.inj (cert'.symm.trans cert))
    exact ⟨i, loaded.cert, text, issued, keyed, reads, documented.key _ _ _ inside read⟩

/-! ### Function by function -/

/-- The certificate whose identifier is read is the first of those served. -/
theorem certificateId_first {loaded : LoadedCertificate CertificateInfo} {key : CertifiedKey δ κ} {found : ι}
    (documented : pem.Documented publicKey publicOf) (made : Acme.certifiedKey pem loaded = .ok key)
    (read : Acme.getCertificateId pem loaded.cert = .ok found) : Replaces pem (some key) (some found) := by
  obtain ⟨reads, _, goes⟩ := certifiedKey_ok made
  obtain ⟨leaf, rest, first, _⟩ := documented.fromDer _ _ goes
  obtain ⟨more, begins⟩ := mapM_head reads first
  simp only [Acme.getCertificateId, begins, List.head?_cons] at read
  exact ⟨leaf, rest, found, first, read, rfl⟩

variable {json : Json CertificateInfo} {accounts : Json γ}

variable (env domains) in
/-- An order that is there, with the files of orders before it. -/
def Newest (i : Nat) (world : CertWorld δ κ ι) : Prop :=
  i < world.orders.length ∧ Disk env (Acme.certName (Acme.sortedDomains domains)) world i

theorem Newest.stays {i : Nat} (newest : Newest env domains i before) (stays : Stays before after) :
    Newest env domains i after :=
  ⟨Nat.lt_of_lt_of_le newest.1 stays.longer, newest.2.stays stays (le_refl i)⟩

/-- The files of an order as they are written. -/
theorem writeCerts_safely {i : Nat} (packed : LoadedCertificate CertificateInfo)
    (inv : Inv pem publicKey publicOf env domains world) (newest : Newest env domains i world)
    (issued : world.Chain i packed.cert) (made : world.Key i packed.key) :
    Safely (γ := γ) pem publicKey publicOf env domains
      (Acme.files (writeCerts json env (Acme.certName (Acme.sortedDomains domains)) packed))
      (fun _ after => OnlyFiles world after) world := by
  have kept {after : CertWorld δ κ ι}
      (writing : Writing env (Acme.certName (Acme.sortedDomains domains)) packed world.files after.files ∧
        OnlyFiles world after) : Inv pem publicKey publicOf env domains after := by
    obtain ⟨writing, framed⟩ := writing
    rw [framed]
    refine ⟨inv.books.files _, ?_⟩
    exact (newest.2.writing issued made writing).moves (fun _ _ issued => issued) (fun _ _ made => made) rfl rfl newest.1
  refine (files_alone (writeCerts_alone json env _ packed world.files)).weaken (fun _ _ => kept) (fun _ => kept) ?_
  intro _ after placed
  exact ⟨kept ⟨.key List.prefix_rfl placed.1.1 placed.1.2, placed.2⟩, placed.2⟩

private theorem replaced_keeps (documented : pem.Documented publicKey publicOf)
    (books : Books pem publicKey publicOf domains world)
    {previous : Option (LoadedCertificate CertificateInfo)} (serves : Serves pem world previous) :
    Keeps (γ := γ) pem publicKey publicOf domains (Acme.replaced pem previous)
      (fun replaces _ => Replaces pem world.served replaces) world := by
  cases previous with
  | none =>
    rw [Serves] at serves
    exact .pure (.here books) (by rw [serves]; exact rfl)
  | some loaded =>
    obtain ⟨key, served, made⟩ := serves
    refine (Keeps.ofExcept books _).bind fun found after kept read => ?_
    exact .pure (.here kept.1) (by rw [served]; exact certificateId_first documented made read)

private theorem ordercert_safely (documented : pem.Documented publicKey publicOf) (turns : Nat)
    (previous : Option (LoadedCertificate CertificateInfo)) (inv : Inv pem publicKey publicOf env domains world)
    (serves : Serves pem world previous) :
    Safely (γ := γ) pem publicKey publicOf env domains (Acme.ordercert pem json env turns
      (Acme.certName (Acme.sortedDomains domains)) (Acme.sortedDomains domains) previous)
      (fun packed after => ∃ i, after.Chain i packed.cert ∧ after.Key i packed.key) world := by
  refine ((replaced_keeps documented inv.books serves).safely inv).bind fun replaces first inv goes => ?_
  obtain ⟨stays, goes⟩ := goes
  rw [← stays.served] at goes
  refine ((Keeps.call inv.books (.newOrder (Acme.sortedDomains domains) replaces) ⟨rfl, goes⟩).safely inv).bind
    fun i ordered inv' made => ?_
  obtain ⟨stays, ⟨⟨error, impossible⟩, _⟩ | ⟨same, rfl⟩⟩ := made
  · cases impossible
  obtain rfl : i = first.orders.length := by
    obtain same | ⟨error, impossible⟩ := same
    · exact Except.ok.inj same
    · cases impossible
  have newest : Newest env domains first.orders.length { first with orders := first.orders ++
      [⟨Acme.sortedDomains domains, replaces, first.served, [], false, none, none⟩] } :=
    ⟨by simp, inv.disk.stays stays (le_refl _)⟩
  generalize first.orders.length = i at newest
  refine ((answerChallenges_keeps inv'.books i turns).safely inv').bind fun _ second inv answered => ?_
  replace newest := newest.stays answered.1
  refine ((Keeps.call inv.books (.pollReady i) trivial).safely inv).bind fun status third inv polled => ?_
  replace newest := newest.stays polled.1
  split
  · exact .fail inv _
  rename_i ready
  have wasReady : ∀ order, third.orders[i]? = some order → order.wasReady = true := by
    intro order there
    obtain ⟨other, _⟩ | rfl := polled.2
    · exact (other (congrArg Except.ok (not_ne_iff.mp ready))).elim
    · obtain ⟨apart, _⟩ | ⟨_, old, _, rfl⟩ := order_at there
      · exact (apart rfl).elim
      · rfl
  refine ((Keeps.call inv.books (.finalize i) wasReady).safely inv).bind fun key fourth inv finalized => ?_
  have made : fourth.Key i key := by
    obtain ⟨_, ⟨⟨error, impossible⟩, _⟩ | ⟨text, _, same, _, _, _, rfl⟩⟩ := finalized
    · cases impossible
    obtain same | ⟨error, impossible⟩ := same
    · cases same
      obtain ⟨old, there⟩ : ∃ old, third.orders[i]? = some old := ⟨_, List.getElem?_eq_getElem newest.1⟩
      exact ⟨{ old with key := some key }, by simp [CertWorld.order, there], rfl⟩
    · cases impossible
  replace newest := newest.stays finalized.1
  refine ((awaitCertificate_keeps inv.books i turns).safely inv).bind fun chain fifth inv awaited => ?_
  refine ((getRenewalInfo_keeps inv.books chain).safely inv).bind fun info sixth inv renewed => ?_
  have issued := awaited.2.stays renewed.1
  replace made := (made.stays awaited.1).stays renewed.1
  replace newest := (newest.stays awaited.1).stays renewed.1
  refine (writeCerts_safely ⟨info, chain, key⟩ inv newest issued made).bind fun _ last inv framed => ?_
  refine .pure inv ?_
  rw [framed]
  exact ⟨i, issued, made⟩

/-- What is shown is of an order, and then it is what is served. -/
theorem updateKey_safely {loaded : LoadedCertificate CertificateInfo} (inv : Inv pem publicKey publicOf env domains world)
    (shown : ∀ key, Acme.certifiedKey pem loaded = .ok key → ∃ i, Of pem world i key) :
    Safely (γ := γ) pem publicKey publicOf env domains (Acme.updateKey pem loaded)
      (fun _ after => Serves pem after (some loaded)) world := by
  have made : (Fallible.ofExcept (Acme.certifiedKey pem loaded) : Certs δ κ γ ι (CertifiedKey δ κ)).Alone
      (answers pem publicKey publicOf) (fun _ after => Inv pem publicKey publicOf env domains after)
      (Inv pem publicKey publicOf env domains)
      (fun key after => after = world ∧ Acme.certifiedKey pem loaded = .ok key) world :=
    Alone.ofExcept inv fun _ same => ⟨rfl, same⟩
  refine made.bind fun key after known => ?_
  obtain ⟨same, known⟩ := known
  obtain rfl := same.symm
  intro reply after answered
  obtain ⟨rfl, rfl⟩ := answered
  have served : Inv pem publicKey publicOf env domains { world with served := some key } := by
    refine ⟨⟨inv.books.proper, inv.books.chains, inv.books.keys, inv.books.serving, ?_⟩,
      inv.disk.moves (fun _ _ issued => issued) (fun _ _ made => made) rfl rfl (le_refl _)⟩
    intro other same
    cases same
    exact shown key known
  exact ⟨served, served, key, rfl, known⟩

private theorem awaitRenewal_keeps (books : Books pem publicKey publicOf domains world)
    (loaded : LoadedCertificate CertificateInfo) (turns : Nat) :
    Keeps (γ := γ) pem publicKey publicOf domains (Acme.awaitRenewal pem loaded turns)
      (fun later _ => later.cert = loaded.cert ∧ later.key = loaded.key) world := by
  induction turns generalizing world loaded with
  | zero => exact .fail _ (.here books)
  | succ turns ih =>
    refine (Keeps.call books (.selectSleep _ _) trivial).bind fun due first kept _ => ?_
    split
    · exact .pure (.here kept.1) ⟨rfl, rfl⟩
    · exact (getRenewalInfo_keeps kept.1 loaded.cert).bind fun info second kept _ => ih kept.1 { loaded with info }

private theorem certifiedKey_same {first second : LoadedCertificate CertificateInfo} (cert : first.cert = second.cert)
    (key : first.key = second.key) : Acme.certifiedKey pem first = Acme.certifiedKey pem second := by
  simp only [Acme.certifiedKey, Acme.parseCertAndKey, cert, key]

/-- What an order has given is shown as it is. -/
theorem shown_of {i : Nat} {packed : LoadedCertificate CertificateInfo} (issued : world.Chain i packed.cert)
    (made : world.Key i packed.key) {key : CertifiedKey δ κ} (shown : Acme.certifiedKey pem packed = .ok key) :
    Of pem world i key := by
  obtain ⟨reads, read, _⟩ := certifiedKey_ok shown
  exact ⟨packed.cert, packed.key, issued, made, reads, read⟩

theorem maintainCerts_safely (documented : pem.Documented publicKey publicOf) (turns rounds : Nat)
    {loaded : LoadedCertificate CertificateInfo} (inv : Inv pem publicKey publicOf env domains world)
    (serves : Serves pem world (some loaded)) :
    Safely (γ := γ) pem publicKey publicOf env domains
      (Acme.maintainCerts pem json env turns (Acme.sortedDomains domains) loaded rounds) (fun _ _ => True) world := by
  induction rounds generalizing world loaded with
  | zero => exact .fail inv _
  | succ rounds ih =>
    refine ((awaitRenewal_keeps inv.books loaded turns).safely inv).bind fun later first inv awaited => ?_
    obtain ⟨stays, cert, key⟩ := awaited
    have serves : Serves pem first (some later) := by
      obtain ⟨shown, served, made⟩ := serves
      exact ⟨shown, stays.served.trans served, (certifiedKey_same cert key).trans made⟩
    refine (ordercert_safely documented turns (some later) inv serves).bind fun packed second inv ordered => ?_
    obtain ⟨i, issued, made⟩ := ordered
    exact (updateKey_safely inv fun _ shown => ⟨i, shown_of issued made shown⟩).bind fun _ third inv serves => ih inv serves

private theorem loadOrOrder_safely (documented : pem.Documented publicKey publicOf) (turns : Nat)
    (inv : Inv pem publicKey publicOf env domains world) (none_ : world.served = none) :
    Safely (γ := γ) pem publicKey publicOf env domains (Acme.loadOrOrder pem json env turns
      (Acme.certName (Acme.sortedDomains domains)) (Acme.sortedDomains domains))
      (fun loaded after => ∀ key, Acme.certifiedKey pem loaded = .ok key → ∃ i, Of pem after i key) world := by
  refine Alone.bind (reads_only (loadCerts_alone json env _ world.files) inv) fun found after read => ?_
  obtain ⟨same, read⟩ := read
  obtain rfl := same.symm
  cases found with
  | some found =>
    obtain ⟨cert, key⟩ := loaded_files read
    exact Safely.pure inv fun _ made => inv.disk.shown documented inv.books cert key made
  | none =>
    refine (ordercert_safely documented turns none inv none_).mono (fun _ lost => lost) ?_
    intro packed after ordered
    obtain ⟨inv, i, issued, made⟩ := ordered
    exact ⟨inv, fun _ shown => ⟨i, shown_of issued made shown⟩⟩

theorem initialize_safely (documented : pem.Documented publicKey publicOf) (turns : Nat)
    (inv : Inv pem publicKey publicOf env domains world) (none_ : world.served = none) :
    Safely (γ := γ) pem publicKey publicOf env domains (Acme.initialize_ pem json env accounts turns domains)
      (fun loaded after => Serves pem after (some loaded)) world := by
  refine ((Keeps.call inv.books (.createDirAll _) trivial).safely inv).bind fun _ first inv made => ?_
  have logged {after : CertWorld δ κ ι} (went : LoggedIn env first after) : Inv pem publicKey publicOf env domains after := by
    obtain ⟨framed, files⟩ := went
    rw [framed]
    exact ⟨inv.books.files _, inv.disk.moves (fun _ _ issued => issued) (fun _ _ made => made)
      (files _ (cert_ne_credentials env _)) (files _ (key_ne_credentials env _)) (le_refl _)⟩
  have account : Safely pem publicKey publicOf env domains (Acme.getaccount accounts env)
      (fun _ after => LoggedIn env first after) first :=
    (getaccount_alone accounts first).weaken (fun _ _ => logged) (fun _ => logged) fun _ _ went => ⟨logged went, went⟩
  refine account.bind fun _ second inv went => ?_
  have idle : second.served = none := by
    rw [went.1]
    exact made.1.served.trans none_
  refine (loadOrOrder_safely documented turns inv idle).bind fun loaded third inv shown => ?_
  exact (updateKey_safely inv shown).bind fun _ last inv serves => .pure inv serves

end

end CertWorld

end Pos2.Tunnel
