import Pos2.Tunnel.Served

/-! Processes one after the other. What is served is always of one whole order; but files
of two orders are never served, nor replaced by any process. -/

namespace Pos2.Tunnel.CertWorld
open Calls Fallible

section
variable {δ κ γ ι π : Type} {pem : Pem δ κ ι} {publicKey : δ → π} {publicOf : κ → π} {json : Json CertificateInfo}
  {env : Environment} {accounts : Json γ} {domains : List Text} {first world before after next last : CertWorld δ κ ι}

/-! ### Whole orders -/

theorem Lives.inv (documented : pem.Documented publicKey publicOf)
    (lives : Lives pem publicKey publicOf json env accounts domains before after)
    (inv : Inv pem publicKey publicOf env domains before) : Inv pem publicKey publicOf env domains after := by
  obtain ⟨turns, leaves⟩ := lives
  have idle : Inv pem publicKey publicOf env domains { before with served := none } := by
    refine ⟨⟨inv.books.proper, inv.books.chains, inv.books.keys, inv.books.serving, ?_⟩,
      inv.disk.moves (fun _ _ issued => issued) (fun _ _ made => made) rfl rfl (le_refl _)⟩
    intro key impossible
    cases impossible
  have runs : Safely pem publicKey publicOf env domains (Acme.process pem json env accounts turns domains) (fun _ _ => True)
      { before with served := none } := by
    refine (initialize_safely documented turns idle rfl).bind fun loaded middle inv serves => ?_
    exact maintainCerts_safely documented turns turns inv serves
  exact Program.Alone.leaves runs idle leaves

theorem Leads.inv (documented : pem.Documented publicKey publicOf)
    (leads : Leads pem publicKey publicOf json env accounts domains before after)
    (inv : Inv pem publicKey publicOf env domains before) : Inv pem publicKey publicOf env domains after := by
  induction leads with
  | refl => exact inv
  | tail _ lives ih => exact lives.inv documented ih

/-- Nothing was ordered yet, and there is no certificate. -/
structure Unused (env : Environment) (domains : List Text) (world : CertWorld δ κ ι) : Prop where
  orders : world.orders = []
  served : world.served = none
  cert : world.files (certFileName env (Acme.certName (Acme.sortedDomains domains))) = none
  key : world.files (keyFileName env (Acme.certName (Acme.sortedDomains domains))) = none

theorem Unused.inv (unused : Unused env domains world) : Inv pem publicKey publicOf env domains world := by
  have none_ : ∀ (i : Nat) (order : AcmeOrder δ κ ι), world.orders[i]? ≠ some order := by
    intro i order
    rw [unused.orders]
    simp
  refine ⟨⟨fun i order there => (none_ i order there).elim, fun i order _ there => (none_ i order there).elim, ?_,
    fun i order _ there => (none_ i order there).elim, ?_⟩, .nothing unused.cert unused.key⟩
  · intro i j text other one two made
    obtain ⟨order, there, _⟩ := made
    exact (none_ i order there).elim
  · intro key served
    rw [unused.served] at served
    cases served

theorem served_whole (documented : pem.Documented publicKey publicOf) (unused : Unused env domains first)
    (leads : Leads pem publicKey publicOf json env accounts domains first last) :
    (∀ key, last.served = some key → ∃ i, Of pem last i key) ∧
      ∀ (i : Nat) (order : AcmeOrder δ κ ι), last.orders[i]? = some order → Proper pem domains last.txt order ∧
        ∀ key, order.serving = some key → ∃ j < i, Of pem last j key := by
  obtain ⟨books, _⟩ := leads.inv documented unused.inv
  exact ⟨books.served, fun i order there => ⟨books.proper i order there, fun key => books.serving i order key there⟩⟩

/-! ### Files of two orders -/

/-- What is loaded cannot be shown. -/
def Stuck (pem : Pem δ κ ι) (json : Json CertificateInfo) (env : Environment) (name : Text) (files : Files) : Prop :=
  ∀ found, loaded json env name files = .ok found → ∃ triple, found = some triple ∧ ∀ key, Acme.certifiedKey pem triple ≠ .ok key

private theorem loaded_congr {name : Text} {files later : Files}
    (same : ∀ path, path ≠ credentialsPath env → later path = files path) :
    loaded json env name later = loaded json env name files := by
  have read {path : Text} (apart : path ≠ credentialsPath env) : textAt later path = textAt files path := by
    simp only [textAt, same path apart]
  have info := read (info_ne_credentials env name)
  have cert := read (cert_ne_credentials env name)
  have key := read (key_ne_credentials env name)
  unfold loaded loadCerts readOptionalJsonFile
  rcases infoAt : textAt files (infoFileName env name) with error | _ | text
  · simp [readOptionalFile_run, run_bind, info, infoAt]
  · simp [readOptionalFile_run, run_bind, info, infoAt]
  cases parsed : json.fromReader text with
  | error error => simp [readOptionalFile_run, run_bind, info, infoAt, parsed]
  | ok dates =>
    rcases certAt : textAt files (certFileName env name) with error | _ | text
    · simp [readOptionalFile_run, run_bind, info, infoAt, parsed, cert, certAt]
    · simp [readOptionalFile_run, run_bind, info, infoAt, parsed, cert, certAt]
    · rcases keyAt : textAt files (keyFileName env name) with error | _ | text
      all_goals simp [readOptionalFile_run, run_bind, info, infoAt, parsed, cert, certAt, key, keyAt]

/-- A process that cannot show what is on disk stops before it orders anything. -/
theorem stuck_lives (stuck : Stuck pem json env (Acme.certName (Acme.sortedDomains domains)) before.files)
    (lives : Lives pem publicKey publicOf json env accounts domains before after) :
    LoggedIn env { before with served := none } after := by
  obtain ⟨turns, leaves⟩ := lives
  have here : LoggedIn env { before with served := none } { before with served := none } := .refl _
  have begun : (Acme.initialize_ pem json env accounts turns domains).Alone (answers pem publicKey publicOf)
      (fun _ after => LoggedIn env { before with served := none } after) (LoggedIn env { before with served := none })
      (fun _ _ => False) { before with served := none } := by
    refine (quiet_alone (.createDirAll _) (fun _ _ same => same) here).bind fun _ first same => ?_
    obtain rfl := same.symm
    refine (getaccount_alone accounts _).bind fun _ second went => ?_
    have stuck : Stuck pem json env (Acme.certName (Acme.sortedDomains domains)) second.files := by
      intro found loads
      rw [loaded_congr went.2] at loads
      exact stuck found loads
    have loads : (Acme.loadOrOrder pem json env turns (Acme.certName (Acme.sortedDomains domains))
        (Acme.sortedDomains domains) : Certs δ κ γ ι (LoadedCertificate CertificateInfo)).Alone
        (answers pem publicKey publicOf) (fun _ after => LoggedIn env { before with served := none } after)
        (LoggedIn env { before with served := none })
        (fun triple after => after = second ∧ ∀ key, Acme.certifiedKey pem triple ≠ .ok key) second := by
      refine Alone.bind (reads_only (loadCerts_alone json env _ second.files) went) fun found after read => ?_
      obtain ⟨same, read⟩ := read
      obtain ⟨triple, rfl, useless⟩ := stuck found read
      exact ⟨same, useless⟩
    refine loads.bind fun triple third useless => ?_
    obtain ⟨same, useless⟩ := useless
    obtain rfl := same.symm
    have shown : (Acme.updateKey pem triple : Certs δ κ γ ι Unit).Alone (answers pem publicKey publicOf)
        (fun _ after => LoggedIn env { before with served := none } after) (LoggedIn env { before with served := none })
        (fun _ _ => False) second := by
      cases made : Acme.certifiedKey pem triple with
      | ok key => exact (useless key made).elim
      | error error =>
        rw [Acme.updateKey, made]
        exact went
    exact shown.bind fun _ _ impossible => impossible.elim
  have runs : (Acme.process pem json env accounts turns domains).Alone (answers pem publicKey publicOf)
      (fun _ after => LoggedIn env { before with served := none } after) (LoggedIn env { before with served := none })
      (fun _ _ => False) { before with served := none } := begun.bind fun _ _ impossible => impossible.elim
  exact Program.Alone.leaves runs here leaves

/-- All that is left of the world where no process can show what is on disk. -/
structure Idle (env : Environment) (before after : CertWorld δ κ ι) : Prop where
  served : after.served = none
  orders : after.orders = before.orders
  txt : after.txt = before.txt
  files : ∀ path, path ≠ credentialsPath env → after.files path = before.files path

theorem LoggedIn.idle (went : LoggedIn env { before with served := none } after) : Idle env before after := by
  obtain ⟨framed, files⟩ := went
  rw [framed]
  exact ⟨rfl, rfl, rfl, files⟩

theorem Idle.trans (one : Idle env before after) (two : Idle env after last) : Idle env before last where
  served := two.served
  orders := two.orders.trans one.orders
  txt := two.txt.trans one.txt
  files := fun path apart => (two.files path apart).trans (one.files path apart)

theorem Stuck.idle {name : Text} (stuck : Stuck pem json env name before.files) (idle : Idle env before after) :
    Stuck pem json env name after.files := by
  intro found loads
  rw [loaded_congr idle.files] at loads
  exact stuck found loads

private theorem stuck_leads (stuck : Stuck pem json env (Acme.certName (Acme.sortedDomains domains)) before.files)
    (lives : Lives pem publicKey publicOf json env accounts domains before next)
    (leads : Leads pem publicKey publicOf json env accounts domains next last) : Idle env before last := by
  induction leads with
  | refl => exact (stuck_lives stuck lives).idle
  | tail _ lives ih => exact ih.trans (stuck_lives (stuck.idle ih) lives).idle

/-- Where all three files are there, something is loaded or nothing can be. -/
theorem loaded_there {name : Text} {files : Files} {info cert key : Chunk} (infoAt : files (infoFileName env name) = some info)
    (certAt : files (certFileName env name) = some cert) (keyAt : files (keyFileName env name) = some key) :
    loaded json env name files ≠ .ok none := by
  by_cases reads : ∃ text dates, Text.ofUtf8 info = some text ∧ json.fromReader text = .ok dates
  · obtain ⟨text, dates, decoded, parsed⟩ := reads
    cases Text.ofUtf8_eq_some.mp decoded
    exact loaded_ne_none infoAt parsed certAt keyAt
  · obtain ⟨error, fails⟩ := loaded_torn infoAt fun text decoded dates parsed => reads ⟨text, dates, decoded, parsed⟩
    simp [fails]

theorem wedged (documented : pem.Documented publicKey publicOf) (unused : Unused env domains first)
    (leads : Leads pem publicKey publicOf json env accounts domains first world) {i j : Nat} {chain text : Text}
    {dates part rest : Chunk} (apart : i ≠ j) (issued : world.Chain i chain) (made : world.Key j text)
    (info : world.files (infoFileName env (Acme.certName (Acme.sortedDomains domains))) = some dates)
    (cert : world.files (certFileName env (Acme.certName (Acme.sortedDomains domains))) = some part)
    (key : world.files (keyFileName env (Acme.certName (Acme.sortedDomains domains))) = some rest)
    (within : part <+: chain.utf8) (inside : rest <+: text.utf8)
    (lives : Lives pem publicKey publicOf json env accounts domains world next)
    (later : Leads pem publicKey publicOf json env accounts domains next last) : Idle env world last := by
  have books := (leads.inv documented unused.inv).books
  refine stuck_leads ?_ lives later
  intro found loads
  cases found with
  | none => exact (loaded_there info cert key loads).elim
  | some triple =>
    obtain ⟨certAt, keyAt⟩ := loaded_files loads
    cases cert.symm.trans certAt
    cases key.symm.trans keyAt
    exact ⟨triple, rfl, unusable documented books apart issued made within inside⟩

end

/-! ### A renewal that is cut off -/

namespace Renewed

/-- A certificate and a key are told by their first byte. -/
def pem : Pem UInt8 UInt8 UInt8 where
  certificates bytes := bytes.head?.toList.map .ok
  privateKey bytes := bytes.head?.elim (.error "no items") .ok
  certificateId := .ok
  fromDer certs key := if certs.head? = some key then .ok () else .error "inconsistent keys"

private theorem pem_documented : pem.Documented id id where
  leaf := by
    intro text part leaf rest within first
    obtain ⟨more, rfl⟩ := within
    cases part with
    | nil => cases first
    | cons byte part =>
      cases first
      exact ⟨[], rfl⟩
  key := by
    intro text part key within read
    obtain ⟨more, rfl⟩ := within
    cases part with
    | nil => cases read
    | cons byte part => exact read
  fromDer := by
    intro certs key goes
    simp only [pem] at goes
    split at goes
    case isFalse => cases goes
    case isTrue same =>
      cases certs with
      | nil => cases same
      | cons leaf rest => exact ⟨leaf, rest, rfl, Option.some.inj same⟩

def json : Json CertificateInfo where
  toStringPretty _ := .ok "dates".toList
  fromReader text := if text = "dates".toList then .ok ⟨0, 0⟩ else .error "eof"

def accounts : Json Unit where
  toStringPretty _ := .ok "account".toList
  fromReader _ := .ok ()

def env : Environment := ⟨"/data".toList⟩

def domains : List Text := ["a.example".toList]

def start : CertWorld UInt8 UInt8 UInt8 := ⟨fun _ => none, [], [], none⟩

/-- The key and the chain of an order. -/
def keyText (i : Nat) : Text := if i = 0 then "A key".toList else "B key".toList

def chainText (i : Nat) : Text := if i = 0 then "A chain".toList else "B chain".toList

def challenge : Text := "token".toList

/-- What is answered until the second key would be written. -/
def answer : (request : CertCall UInt8 UInt8 Unit UInt8) → CertWorld UInt8 UInt8 UInt8 →
    Option (Except String request.Value × CertWorld UInt8 UInt8 UInt8)
  | .file (.create path), world =>
    if path = keyFileName env (Acme.certName domains) ∧ world.orders.length = 2 then none
    else some (.ok (), { world with files := Function.update world.files path (some []) })
  | .file (.writeAll path bytes), world =>
    some (.ok (), { world with files := Function.update world.files path ((world.files path).map (· ++ bytes)) })
  | .file (.syncAll _), world => some (.ok (), world)
  | .file (.open_ _), world => some (.ok (), world)
  | .file (.readToString path), world => some (textAt world.files path, world)
  | .newOrder names replaces, world =>
    some (.ok world.orders.length, { world with orders := world.orders ++ [⟨names, replaces, world.served, [], false, none, none⟩] })
  | .nextAuthorization order, world =>
    if world.txt.length ≤ order then some (.ok (some ⟨.pending, domains.head?, some challenge⟩), world) else some (.ok none, world)
  | .addTxtRecord name value, world => some (.ok (), { world with txt := world.txt ++ [(name, value)] })
  | .setReady i dns value, world =>
    some (.ok (), world.order i fun order => { order with answered := order.answered ++ [(dns, value)] })
  | .pollReady i, world => some (.ok .ready, world.order i fun order => { order with wasReady := true })
  | .finalize i, world =>
    if i < 2 ∧ world.orders.map AcmeOrder.key = (List.range i).map (fun j => some (keyText j)) ++ [none] then
      some (.ok (keyText i), world.order i fun order => { order with key := some (keyText i) })
    else none
  | .certificate i, world =>
    if i < 2 ∧ (world.orders.map fun order => (order.key, order.chain))[i]? = some (some (keyText i), none) then
      some (.ok (some (chainText i)), world.order i fun order => { order with chain := some (chainText i) })
    else none
  | .renewalInfo _, world => some (.ok (0, 10 * Acme.second), world)
  | .now, world => some (.ok 0, world)
  | .randomRange _, world => some (.ok 3, world)
  | .selectSleep _ _, world => some (.ok true, world)
  | .setKey key, world => some (.ok (), { world with served := some key })
  | .createDirAll _, world => some (.ok (), world)
  | .fromCredentials _, world => some (.ok (), world)
  | .createAccount, world => some (.ok (), world)
  | .sleep, world => some (.ok (), world)

private theorem keyText_reads (i : Nat) : KeyText pem (keyText i) (if i = 0 then 65 else 66) := by
  unfold keyText KeyText
  split <;> decide

private theorem chainText_reads (i : Nat) : pem.certificates (chainText i).utf8 = [.ok (if i = 0 then 65 else 66)] := by
  unfold chainText
  split <;> decide

private theorem answer_served {request : CertCall UInt8 UInt8 Unit UInt8} {before after : CertWorld UInt8 UInt8 UInt8}
    {reply : Except String request.Value} (answered : answer request before = some (reply, after)) :
    answers pem id id request before reply after := by
  cases request with
  | file call =>
    cases call with
    | create path =>
      simp only [answer] at answered
      split at answered
      · cases answered
      · cases answered
        exact ⟨.inl rfl, rfl⟩
    | writeAll path bytes =>
      cases answered
      refine ⟨⟨bytes.length, ?_, fun _ => le_refl _⟩, rfl⟩
      simp
    | syncAll path | open_ path =>
      cases answered
      exact ⟨rfl, rfl⟩
    | readToString path =>
      cases answered
      exact ⟨⟨.inl rfl, rfl⟩, rfl⟩
  | newOrder names replaces =>
    cases answered
    exact .inr ⟨.inl rfl, rfl⟩
  | addTxtRecord name value | setReady i dns value | pollReady i =>
    cases answered
    exact .inr rfl
  | finalize i =>
    simp only [answer] at answered
    split at answered
    case isFalse => cases answered
    case isTrue allowed =>
      cases answered
      obtain ⟨below, keys⟩ := allowed
      refine .inr ⟨keyText i, _, .inl rfl, keyText_reads i, ?_, ?_, rfl⟩
      · intro order inside text other made read
        have among : some text ∈ before.orders.map AcmeOrder.key := List.mem_map.mpr ⟨order, inside, made⟩
        rw [keys] at among
        obtain ⟨j, under, rfl⟩ : ∃ j < i, keyText j = text := by simpa using among
        obtain ⟨rfl, rfl⟩ : i = 1 ∧ j = 0 := by omega
        cases read.unique (keyText_reads 0)
        decide
      · intro order there
        have at_ := congrArg (fun keys => keys[i]?) keys
        simpa [there] using at_
  | certificate i =>
    simp only [answer] at answered
    split at answered
    case isFalse => cases answered
    case isTrue allowed =>
      cases answered
      obtain ⟨order, there, same⟩ := Option.map_eq_some_iff.mp ((List.getElem?_map ..).symm.trans allowed.2)
      obtain ⟨made, missing⟩ := Prod.mk.inj same
      exact .inr ⟨chainText i, order, rfl, there, ⟨keyText i, _, _, [], made, keyText_reads i, chainText_reads i, rfl⟩,
        .inl missing, rfl⟩
  | nextAuthorization i =>
    simp only [answer] at answered
    split at answered <;> cases answered <;> exact rfl
  | setKey key =>
    cases answered
    exact ⟨rfl, rfl⟩
  | createDirAll _ | fromCredentials _ | createAccount | sleep | renewalInfo _ | now | randomRange _ | selectSleep _ _ =>
    cases answered
    exact rfl

/-- Where the renewal is cut off. -/
def cutWorld : CertWorld UInt8 UInt8 UInt8 := ((Acme.process pem json env accounts 3 domains).advance answer start).2

private theorem lives : Lives pem id id json env accounts domains start cutWorld :=
  ⟨3, Program.leaves_advance id answer_served _ start⟩

theorem sorted : Acme.sortedDomains domains = domains := List.mergeSort_singleton _

theorem unused : Unused env domains start := ⟨rfl, rfl, rfl, rfl⟩

/-- The first certificate is served; on disk is the second one, with the key of the first. -/
theorem cutWorld_is :
    cutWorld.served = some ⟨[65], 65⟩ ∧ cutWorld.orders.map AcmeOrder.chain = [some (chainText 0), some (chainText 1)] ∧
      cutWorld.orders.map AcmeOrder.key = [some (keyText 0), some (keyText 1)] ∧
      cutWorld.files (infoFileName env (Acme.certName domains)) = some (Text.utf8 "dates".toList) ∧
      cutWorld.files (certFileName env (Acme.certName domains)) = some (chainText 1).utf8 ∧
      cutWorld.files (keyFileName env (Acme.certName domains)) = some (keyText 0).utf8 := by
  have same : cutWorld = (((do
      let loaded ← (do
        Acme.call (.createDirAll (env.joinPath "./acme".toList))
        Acme.getaccount accounts env
        let loaded ← Acme.loadOrOrder pem json env 3 (Acme.certName domains) domains
        Acme.updateKey pem loaded
        return loaded)
      Acme.maintainCerts pem json env 3 domains loaded 3) : Certs UInt8 UInt8 Unit UInt8 Unit).advance answer start).2 := by
    simp only [cutWorld, Acme.process, Acme.initialize_, sorted]
  rw [same]
  exact ⟨rfl, rfl, rfl, rfl, rfl, rfl⟩

theorem served_whole_renewed : ∃ i, Of pem cutWorld i ⟨[65], 65⟩ :=
  (served_whole pem_documented unused (.single lives)).1 _ cutWorld_is.1

private theorem cutWorld_chain : cutWorld.Chain 1 (chainText 1) := by
  have there := congrArg (fun chains => chains[1]?) cutWorld_is.2.1
  obtain ⟨order, there, same⟩ := Option.map_eq_some_iff.mp ((List.getElem?_map ..).symm.trans there)
  exact ⟨order, there, same⟩

private theorem cutWorld_key : cutWorld.Key 0 (keyText 0) := by
  have there := congrArg (fun keys => keys[0]?) cutWorld_is.2.2.1
  obtain ⟨order, there, same⟩ := Option.map_eq_some_iff.mp ((List.getElem?_map ..).symm.trans there)
  exact ⟨order, there, same⟩

/-- Where the next process stops. -/
def stoppedWorld : CertWorld UInt8 UInt8 UInt8 :=
  ((Acme.process pem json env accounts 3 domains).advance answer { cutWorld with served := none }).2

/-- It loads the certificate and the key, and cannot put them together. -/
theorem cutWorld_stops : (Acme.process pem json env accounts 3 domains).Ends (answers pem id id)
    { cutWorld with served := none } (.error "inconsistent keys") stoppedWorld := by
  apply Program.ends_of_advance id answer_served
  simp only [cutWorld, Acme.process, Acme.initialize_, sorted]
  rfl

theorem wedged_renewed : (Acme.process pem json env accounts 3 domains).Ends (answers pem id id)
      { cutWorld with served := none } (.error "inconsistent keys") stoppedWorld ∧ Idle env cutWorld stoppedWorld := by
  obtain ⟨_, _, _, info, cert, key⟩ := cutWorld_is
  rw [← sorted] at info cert key
  have lives_ : Lives pem id id json env accounts domains cutWorld stoppedWorld := ⟨3, Program.leaves_advance id answer_served _ _⟩
  exact ⟨cutWorld_stops, wedged pem_documented unused (.single lives) (by decide : (1 : Nat) ≠ 0) cutWorld_chain cutWorld_key
    info cert key List.prefix_rfl List.prefix_rfl lives_ .refl⟩

end Renewed
end Pos2.Tunnel.CertWorld
