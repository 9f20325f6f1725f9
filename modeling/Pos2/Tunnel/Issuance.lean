import Pos2.Tunnel.Acme
import Pos2.Tunnel.Renewal

/-! What is served goes back to one whole order, wherever processes were cut off; and
where the files are of two orders no later process serves anything. -/

namespace Pos2.Tunnel
open Calls Fallible

/-! ### Files -/

section
variable {path : Text} {bytes : Chunk} {first before after : Files}

/-- Only one file has changed, and that to a part of what is written there. -/
def Overwrites (path : Text) (bytes : Chunk) (before after : Files) : Prop :=
  (∀ other, other ≠ path → after other = before other) ∧
    (after path = before path ∨ ∃ part, part <+: bytes ∧ after path = some part)

/-- The file has been written. -/
def Wrote (path : Text) (bytes : Chunk) (before after : Files) : Prop :=
  (∀ other, other ≠ path → after other = before other) ∧ after path = some bytes

theorem Wrote.overwrites (wrote : Wrote path bytes before after) : Overwrites path bytes before after :=
  ⟨wrote.1, .inr ⟨bytes, List.prefix_rfl, wrote.2⟩⟩

theorem writeFile_alone (path : Text) (bytes : Chunk) (start : Files) :
    (writeFile path bytes).Alone answersFiles (fun _ after => Overwrites path bytes start after)
      (Overwrites path bytes start) (fun _ after => Wrote path bytes start after) start := by
  intro reply emptied created
  have untouched : Overwrites path bytes start start := ⟨fun _ _ => rfl, .inl rfl⟩
  obtain rfl | ⟨⟨error, rfl⟩, rfl⟩ := created
  case inr => exact ⟨untouched, untouched⟩
  have begun : Overwrites path bytes start (Function.update start path (some [])) :=
    ⟨fun other apart => Function.update_of_ne apart _ _, .inr ⟨[], List.nil_prefix, Function.update_self _ _ _⟩⟩
  cases reply with
  | error error => exact ⟨begun, begun⟩
  | ok value =>
    refine ⟨begun, fun reply written answered => ?_⟩
    obtain ⟨count, rfl, whole⟩ := answered
    have partly : Overwrites path bytes start (Function.update (Function.update start path (some [])) path
        ((Function.update start path (some []) path).map fun content => content ++ bytes.take count)) := by
      refine ⟨fun other apart => ?_, .inr ⟨bytes.take count, List.take_prefix _ _, by simp⟩⟩
      rw [Function.update_of_ne apart, Function.update_of_ne apart]
    refine ⟨partly, ?_⟩
    cases reply with
    | error error => exact partly
    | ok value =>
      refine ⟨partly.1, ?_⟩
      simp [List.take_of_length_le (whole rfl)]

/-- A call that changes nothing. -/
theorem untouched_alone {call : FileCall} {start : Files} {lost : Files → Prop} {wide : Files → Files → Prop}
    (same : ∀ reply after, answersFiles call start reply after → after = start) (step : wide start start)
    (fails : lost start) :
    (file call).Alone answersFiles wide lost (fun _ after => after = start) start := by
  intro reply after answered
  cases same reply after answered
  refine ⟨step, ?_⟩
  cases reply with
  | ok => rfl
  | error => exact fails

private theorem writePrivateFile_alone (path : Text) (contents : Chunk) (start : Files) :
    (writePrivateFile path contents).Alone answersFiles (fun _ after => Overwrites path contents start after)
      (Overwrites path contents start) (fun _ after => Wrote path contents start after) start := by
  have same : writePrivateFile path contents = writeFile path contents >>= fun _ => file (.syncAll path) := by
    simp [writePrivateFile, writeFile]
  rw [same]
  apply (writeFile_alone path contents start).bind
  intro _ after wrote
  have synced : (file (.syncAll path)).Alone answersFiles (fun _ after => Overwrites path contents start after)
      (Overwrites path contents start) (fun _ last => last = after) after :=
    untouched_alone (fun _ _ same => same) wrote.overwrites wrote.overwrites
  apply synced.mono
  · exact fun _ lost => lost
  · rintro _ last rfl
    exact wrote

private theorem syncDir_alone {path : Text} {start : Files} {lost : Files → Prop} {wide : Files → Files → Prop}
    (step : wide start start) (fails : lost start) :
    (syncDir path).Alone answersFiles wide lost (fun _ after => after = start) start := by
  have opened : (file (.open_ path)).Alone answersFiles wide lost (fun _ after => after = start) start :=
    untouched_alone (fun _ _ same => same) step fails
  apply opened.bind
  rintro _ after rfl
  exact untouched_alone (fun _ _ same => same) step fails

end

section
variable {ν : Type} (json : Json ν) (env : Environment) (name : Text)

/-- How far `write_certs` has come with the certificate and the key. -/
inductive Writing (new : LoadedCertificate ν) (start after : Files) : Prop where
  | before (cert : after (certFileName env name) = start (certFileName env name))
      (key : after (keyFileName env name) = start (keyFileName env name))
  | cert {part : Chunk} (within : part <+: new.cert.utf8) (cert : after (certFileName env name) = some part)
      (key : after (keyFileName env name) = start (keyFileName env name))
  | key {part : Chunk} (within : part <+: new.key.utf8) (cert : after (certFileName env name) = some new.cert.utf8)
      (key : after (keyFileName env name) = some part)

/-- Both are there. -/
def Placed (new : LoadedCertificate ν) (after : Files) : Prop :=
  after (certFileName env name) = some new.cert.utf8 ∧ after (keyFileName env name) = some new.key.utf8

variable {env name} in
theorem Writing.info {new : LoadedCertificate ν} {start after : Files} {bytes : Chunk}
    (wrote : Overwrites (infoFileName env name) bytes start after) : Writing env name new start after :=
  .before (wrote.1 _ (cert_ne_info env name)) (wrote.1 _ (key_ne_info env name))

theorem writeCerts_alone (new : LoadedCertificate ν) (start : Files) :
    (writeCerts json env name new).Alone answersFiles (fun _ after => Writing env name new start after)
      (Writing env name new start) (fun _ after => Placed env name new after) start := by
  have printed : (Fallible.ofExcept (json.toStringPretty new.info) : Filed Text).Alone answersFiles
      (fun _ after => Writing env name new start after) (Writing env name new start) (fun _ after => after = start) start :=
    Alone.ofExcept (.before rfl rfl) fun _ _ => rfl
  refine printed.bind fun info first same => ?_
  subst same
  refine Alone.bind ((writeFile_alone (infoFileName env name) info.utf8 first).weaken (fun _ _ wrote => .info wrote)
    (fun _ wrote => .info wrote) (fun _ _ wrote => wrote)) fun _ dated wrote => ?_
  have cert := wrote.1 _ (cert_ne_info env name)
  have key := wrote.1 _ (key_ne_info env name)
  have certs {after : Files} (wrote : Overwrites (certFileName env name) new.cert.utf8 dated after) :
      Writing env name new first after := by
    have other := (wrote.1 _ (key_ne_cert env name)).trans key
    obtain same | ⟨part, within, same⟩ := wrote.2
    · exact .before (same.trans cert) other
    · exact .cert within same other
  refine Alone.bind ((writeFile_alone (certFileName env name) new.cert.utf8 dated).weaken (fun _ _ => certs)
    (fun _ => certs) (fun _ _ wrote => wrote)) fun _ chained wrote => ?_
  have keys {after : Files} (went : Overwrites (keyFileName env name) new.key.utf8 chained after) :
      Writing env name new first after := by
    have whole := (went.1 _ (key_ne_cert env name).symm).trans wrote.2
    obtain same | ⟨part, within, same⟩ := went.2
    · exact .cert List.prefix_rfl whole ((same.trans (wrote.1 _ (key_ne_cert env name))).trans key)
    · exact .key within whole same
  refine Alone.bind ((writePrivateFile_alone (keyFileName env name) new.key.utf8 chained).weaken (fun _ _ => keys)
    (fun _ => keys) (fun _ _ wrote => wrote)) fun _ keyed last => ?_
  have writing := keys last.overwrites
  refine (syncDir_alone writing writing).mono (fun _ lost => lost) ?_
  rintro _ _ rfl
  exact ⟨(last.1 _ (key_ne_cert env name).symm).trans wrote.2, last.2⟩

end

/-! ### Orders -/

section
variable {δ κ γ ι π : Type}

/-- What becomes of an order. -/
structure AcmeOrder.Becomes (before after : AcmeOrder δ κ ι) : Prop where
  domains : after.domains = before.domains
  replaces : after.replaces = before.replaces
  serving : after.serving = before.serving
  ready : before.wasReady = true → after.wasReady = true
  key : ∀ text, before.key = some text → after.key = some text
  chain : ∀ text, before.chain = some text → after.chain = some text

theorem AcmeOrder.Becomes.refl (order : AcmeOrder δ κ ι) : order.Becomes order :=
  ⟨rfl, rfl, rfl, fun ready => ready, fun _ same => same, fun _ same => same⟩

theorem AcmeOrder.Becomes.trans {first second third : AcmeOrder δ κ ι} (before : first.Becomes second)
    (after : second.Becomes third) : first.Becomes third where
  domains := after.domains.trans before.domains
  replaces := after.replaces.trans before.replaces
  serving := after.serving.trans before.serving
  ready := fun ready => after.ready (before.ready ready)
  key := fun text same => after.key text (before.key text same)
  chain := fun text same => after.chain text (before.chain text same)

namespace CertWorld
variable {first before after : CertWorld δ κ ι}

/-- Orders and records stay, and all else is as it was. -/
structure Stays (before after : CertWorld δ κ ι) : Prop where
  files : after.files = before.files
  served : after.served = before.served
  txt : ∀ record ∈ before.txt, record ∈ after.txt
  orders : ∀ (i : Nat) (order : AcmeOrder δ κ ι), before.orders[i]? = some order →
    ∃ later, after.orders[i]? = some later ∧ order.Becomes later

theorem Stays.refl (world : CertWorld δ κ ι) : Stays world world :=
  ⟨rfl, rfl, fun _ inside => inside, fun _ order there => ⟨order, there, .refl order⟩⟩

theorem Stays.trans (one : Stays first before) (two : Stays before after) : Stays first after where
  files := two.files.trans one.files
  served := two.served.trans one.served
  txt := fun record inside => two.txt record (one.txt record inside)
  orders := by
    intro i order there
    obtain ⟨middle, there, becomes⟩ := one.orders i order there
    obtain ⟨later, there, further⟩ := two.orders i middle there
    exact ⟨later, there, becomes.trans further⟩

theorem Stays.longer (stays : Stays before after) : before.orders.length ≤ after.orders.length := by
  by_contra shorter
  obtain ⟨later, there, _⟩ := stays.orders after.orders.length _ (List.getElem?_eq_getElem (by omega))
  rw [List.getElem?_eq_none (le_refl _)] at there
  cases there

theorem Stays.order (world : CertWorld δ κ ι) {i : Nat} {change : AcmeOrder δ κ ι → AcmeOrder δ κ ι}
    (becomes : ∀ order, world.orders[i]? = some order → order.Becomes (change order)) :
    Stays world (world.order i change) where
  files := rfl
  served := rfl
  txt := fun _ inside => inside
  orders := by
    intro j order there
    by_cases same : i = j
    · subst same
      exact ⟨change order, by simp [CertWorld.order, there], becomes order there⟩
    · exact ⟨order, by simp [CertWorld.order, same, there], .refl order⟩

theorem Stays.added (world : CertWorld δ κ ι) (order : AcmeOrder δ κ ι) :
    Stays world { world with orders := world.orders ++ [order] } where
  files := rfl
  served := rfl
  txt := fun _ inside => inside
  orders := by
    intro i old there
    have inside := (List.getElem?_eq_some_iff.mp there).1
    exact ⟨old, by rw [List.getElem?_append_left inside]; exact there, .refl old⟩

/-! ### What the files are of -/

def Chain (world : CertWorld δ κ ι) (i : Nat) (chain : Text) : Prop :=
  ∃ order, world.orders[i]? = some order ∧ order.chain = some chain

def Key (world : CertWorld δ κ ι) (i : Nat) (key : Text) : Prop :=
  ∃ order, world.orders[i]? = some order ∧ order.key = some key

theorem Chain.stays {i : Nat} {chain : Text} (there : before.Chain i chain) (stays : Stays before after) :
    after.Chain i chain := by
  obtain ⟨order, there, same⟩ := there
  obtain ⟨later, there, becomes⟩ := stays.orders i order there
  exact ⟨later, there, becomes.chain chain same⟩

theorem Key.stays {i : Nat} {key : Text} (there : before.Key i key) (stays : Stays before after) : after.Key i key := by
  obtain ⟨order, there, same⟩ := there
  obtain ⟨later, there, becomes⟩ := stays.orders i order there
  exact ⟨later, there, becomes.key key same⟩

/-- The certificate and the key on disk, of orders before a number: parts of what two
orders have given, or of the same order only where the certificate is whole. -/
inductive Disk (env : Environment) (name : Text) (world : CertWorld δ κ ι) (count : Nat) : Prop where
  | nothing (cert : world.files (certFileName env name) = none) (key : world.files (keyFileName env name) = none)
  | cert {i : Nat} {chain : Text} {part : Chunk} (below : i < count) (issued : world.Chain i chain)
      (within : part <+: chain.utf8) (cert : world.files (certFileName env name) = some part)
      (key : world.files (keyFileName env name) = none)
  | mixed {i j : Nat} {chain text : Text} {part rest : Chunk} (apart : i ≠ j) (below : i < count) (under : j < count)
      (issued : world.Chain i chain) (made : world.Key j text) (within : part <+: chain.utf8) (inside : rest <+: text.utf8)
      (cert : world.files (certFileName env name) = some part) (key : world.files (keyFileName env name) = some rest)
  | whole {i : Nat} {chain text : Text} {rest : Chunk} (below : i < count) (issued : world.Chain i chain)
      (made : world.Key i text) (inside : rest <+: text.utf8)
      (cert : world.files (certFileName env name) = some chain.utf8)
      (key : world.files (keyFileName env name) = some rest)

variable {env : Environment} {name : Text}

theorem Disk.moves {count more : Nat} (disk : Disk env name before count)
    (chains : ∀ i chain, before.Chain i chain → after.Chain i chain) (keys : ∀ i text, before.Key i text → after.Key i text)
    (cert : after.files (certFileName env name) = before.files (certFileName env name))
    (key : after.files (keyFileName env name) = before.files (keyFileName env name)) (grown : count ≤ more) :
    Disk env name after more := by
  cases disk with
  | nothing cert' key' => exact .nothing (cert.trans cert') (key.trans key')
  | cert below issued within cert' key' =>
    exact .cert (by omega) (chains _ _ issued) within (cert.trans cert') (key.trans key')
  | mixed apart below under issued made within inside cert' key' =>
    exact .mixed apart (by omega) (by omega) (chains _ _ issued) (keys _ _ made) within inside (cert.trans cert')
      (key.trans key')
  | whole below issued made inside cert' key' =>
    exact .whole (by omega) (chains _ _ issued) (keys _ _ made) inside (cert.trans cert') (key.trans key')

theorem Disk.stays {count more : Nat} (disk : Disk env name before count) (stays : Stays before after)
    (grown : count ≤ more) : Disk env name after more :=
  disk.moves (fun _ _ issued => issued.stays stays) (fun _ _ made => made.stays stays) (congrFun stays.files _)
    (congrFun stays.files _) grown

/-- The key on disk, if there is one, is a part of an order's. -/
theorem Disk.key {count : Nat} (disk : Disk env name before count) :
    before.files (keyFileName env name) = none ∨ ∃ j text rest, j < count ∧ before.Key j text ∧ rest <+: text.utf8 ∧
      before.files (keyFileName env name) = some rest := by
  cases disk with
  | nothing _ key | cert _ _ _ _ key => exact .inl key
  | mixed _ _ under _ made _ inside _ key => exact .inr ⟨_, _, _, under, made, inside, key⟩
  | whole below _ made inside _ key => exact .inr ⟨_, _, _, below, made, inside, key⟩

/-- While the files of a new order are written. -/
theorem Disk.writing {i : Nat} {new : LoadedCertificate CertificateInfo} {files : Files} (disk : Disk env name before i)
    (issued : before.Chain i new.cert) (made : before.Key i new.key) (writing : Writing env name new before.files files) :
    Disk env name { before with files } (i + 1) := by
  cases writing with
  | before cert key => exact disk.moves (fun _ _ issued => issued) (fun _ _ made => made) cert key (by omega)
  | cert within cert key =>
    obtain none_ | ⟨j, text, rest, under, made, inside, same⟩ := disk.key
    · exact .cert (by omega) issued within cert (key.trans none_)
    · exact .mixed (by omega) (by omega) (by omega) issued made within inside cert (key.trans same)
  | key within cert key => exact .whole (by omega) issued made within cert key

end CertWorld
end

/-! ### What holds of every world -/

section
variable {δ κ γ ι π : Type} (pem : Pem δ κ ι) (publicKey : δ → π) (publicOf : κ → π)

/-- What is documented of the parsers: a part of a text begins with the sections that the
whole begins with, and a chain goes with a key when its first certificate does. -/
structure Pem.Documented : Prop where
  leaf : ∀ (text part : Chunk) leaf rest, part <+: text → pem.certificates part = .ok leaf :: rest →
    ∃ more, pem.certificates text = .ok leaf :: more
  key : ∀ (text part : Chunk) key, part <+: text → pem.privateKey part = .ok key → pem.privateKey text = .ok key
  fromDer : ∀ certs key, pem.fromDer certs key = .ok () → ∃ leaf rest, certs = leaf :: rest ∧ publicKey leaf = publicOf key

namespace CertWorld

/-- The record of a challenge. -/
def challengeName (dns : Text) : Text := "_acme-challenge.".toList ++ dns ++ ".".toList

/-- What is replaced is the certificate that is served. -/
def Replaces : Option (CertifiedKey δ κ) → Option ι → Prop
  | none, replaces => replaces = none
  | some served, replaces =>
    ∃ leaf rest id, served.certs = leaf :: rest ∧ pem.certificateId leaf = .ok id ∧ replaces = some id

/-- The chain and the key are those of an order, and whole. -/
def Of (world : CertWorld δ κ ι) (i : Nat) (key : CertifiedKey δ κ) : Prop :=
  ∃ chain text, world.Chain i chain ∧ world.Key i text ∧ (pem.certificates chain.utf8).mapM id = .ok key.certs ∧
    KeyText pem text key.key

variable (domains : List Text)

/-- An order as it should be: for these domains, in place of the certificate that was
served, its challenges answered once their records were there, and its key made once it
was ready. -/
structure Proper (txt : List (Text × Text)) (order : AcmeOrder δ κ ι) : Prop where
  domains : order.domains = Acme.sortedDomains domains
  replaces : Replaces pem order.serving order.replaces
  answered : ∀ dns value, (dns, value) ∈ order.answered → (challengeName dns, value) ∈ txt
  ready : ∀ text, order.key = some text → order.wasReady = true

/-- What was served when an order was made is of an order before it. -/
structure Books (world : CertWorld δ κ ι) : Prop where
  proper : ∀ (i : Nat) (order : AcmeOrder δ κ ι), world.orders[i]? = some order → Proper pem domains world.txt order
  chains : ∀ (i : Nat) (order : AcmeOrder δ κ ι) chain, world.orders[i]? = some order → order.chain = some chain →
    ChainFor pem publicKey publicOf order chain
  keys : ∀ i j text other first second, world.Key i text → world.Key j other → KeyText pem text first →
    KeyText pem other second → publicOf first = publicOf second → i = j
  serving : ∀ (i : Nat) (order : AcmeOrder δ κ ι) key, world.orders[i]? = some order → order.serving = some key →
    ∃ j < i, Of pem world j key
  served : ∀ key, world.served = some key → ∃ j, Of pem world j key

variable {pem publicKey publicOf domains} {before after : CertWorld δ κ ι}

theorem Of.stays {i : Nat} {key : CertifiedKey δ κ} (made : Of pem before i key) (stays : Stays before after) :
    Of pem after i key := by
  obtain ⟨chain, text, issued, keyed, reads, read⟩ := made
  exact ⟨chain, text, issued.stays stays, keyed.stays stays, reads, read⟩

theorem Of.below {i : Nat} {key : CertifiedKey δ κ} (made : Of pem before i key) : i < before.orders.length := by
  obtain ⟨_, _, ⟨order, there, _⟩, _⟩ := made
  exact (List.getElem?_eq_some_iff.mp there).1

theorem Proper.more {txt txt' : List (Text × Text)} {order : AcmeOrder δ κ ι} (proper : Proper pem domains txt order)
    (kept : ∀ record ∈ txt, record ∈ txt') : Proper pem domains txt' order :=
  { proper with answered := fun dns value inside => kept _ (proper.answered dns value inside) }

theorem KeyText.unique {text : Text} {first second : κ} (one : KeyText pem text first) (two : KeyText pem text second) :
    first = second := Except.ok.inj (one.symm.trans two)

/-- Files are no part of it. -/
theorem Books.files (books : Books pem publicKey publicOf domains before) (files : Files) :
    Books pem publicKey publicOf domains { before with files } :=
  ⟨books.proper, books.chains, books.keys, books.serving, books.served⟩

/-- What is found after an order has changed. -/
theorem order_at {i j : Nat} {change : AcmeOrder δ κ ι → AcmeOrder δ κ ι} {order : AcmeOrder δ κ ι}
    (there : (before.order i change).orders[j]? = some order) :
    i ≠ j ∧ before.orders[j]? = some order ∨ i = j ∧ ∃ old, before.orders[i]? = some old ∧ order = change old := by
  by_cases same : i = j
  · subst same
    rw [CertWorld.order, List.getElem?_modify_eq] at there
    obtain ⟨old, was, rfl⟩ := Option.map_eq_some_iff.mp there
    exact .inr ⟨rfl, old, was, rfl⟩
  · rw [CertWorld.order, List.getElem?_modify_ne _ _ same] at there
    exact .inl ⟨same, there⟩

/-- An order that changes as it may. -/
theorem Books.order (books : Books pem publicKey publicOf domains before) {i : Nat}
    {change : AcmeOrder δ κ ι → AcmeOrder δ κ ι}
    (becomes : ∀ order, before.orders[i]? = some order → order.Becomes (change order))
    (proper : ∀ order, before.orders[i]? = some order → Proper pem domains before.txt (change order))
    (chains : ∀ order chain, before.orders[i]? = some order → (change order).chain = some chain →
      ChainFor pem publicKey publicOf (change order) chain)
    (keys : ∀ order text, before.orders[i]? = some order → (change order).key = some text →
      order.key = some text ∨ ∃ key, KeyText pem text key ∧ NewKey pem publicOf before key) :
    Books pem publicKey publicOf domains (before.order i change) where
  proper := by
    intro j order there
    obtain ⟨_, was⟩ | ⟨rfl, old, was, rfl⟩ := order_at there
    · exact books.proper j order was
    · exact proper old was
  chains := by
    intro j order chain there issued
    obtain ⟨_, was⟩ | ⟨rfl, old, was, rfl⟩ := order_at there
    · exact books.chains j order chain was issued
    · exact chains old chain was issued
  keys := by
    -- a key of the order that changes is an old one or new
    have old : ∀ j text, (before.order i change).Key j text → before.Key j text ∨
        j = i ∧ ∃ key, KeyText pem text key ∧ NewKey pem publicOf before key := by
      intro j text made
      obtain ⟨order, there, same⟩ := made
      obtain ⟨_, was⟩ | ⟨rfl, order, was, rfl⟩ := order_at there
      · exact .inl ⟨order, was, same⟩
      · obtain same | fresh := keys order text was same
        · exact .inl ⟨order, was, same⟩
        · exact .inr ⟨rfl, fresh⟩
    have apart : ∀ j text key, before.Key j text → KeyText pem text key → ∀ other, NewKey pem publicOf before other →
        publicOf key ≠ publicOf other := by
      intro j text key made read other fresh
      obtain ⟨order, there, same⟩ := made
      exact fresh order (List.mem_of_getElem? there) text key same read
    intro j k text other first second made made' read read' same
    obtain was | ⟨rfl, key, read'', fresh⟩ := old j text made
    · obtain was' | ⟨rfl, key, read'', fresh⟩ := old k other made'
      · exact books.keys j k text other first second was was' read read' same
      · cases read'.unique read''
        exact (apart j text first was read second fresh same).elim
    · obtain was' | ⟨rfl, _⟩ := old k other made'
      · cases read.unique read''
        exact (apart k other second was' read' first fresh same.symm).elim
      · rfl
  serving := by
    intro j order key there served
    have stays := Stays.order before becomes
    obtain ⟨_, was⟩ | ⟨rfl, old, was, rfl⟩ := order_at there
    · obtain ⟨k, below, made⟩ := books.serving j order key was served
      exact ⟨k, below, made.stays stays⟩
    · obtain ⟨k, below, made⟩ := books.serving i old key was ((becomes old was).serving ▸ served)
      exact ⟨k, below, made.stays stays⟩
  served := by
    intro key served
    obtain ⟨j, made⟩ := books.served key served
    exact ⟨j, made.stays (Stays.order before becomes)⟩

/-- An order that is added, with what is served at that time. -/
theorem Books.added (books : Books pem publicKey publicOf domains before) {replaces : Option ι}
    (goes : Replaces pem before.served replaces) :
    Books pem publicKey publicOf domains { before with orders := before.orders ++
      [⟨Acme.sortedDomains domains, replaces, before.served, [], false, none, none⟩] } := by
  have stays := Stays.added before ⟨Acme.sortedDomains domains, replaces, before.served, [], false, none, none⟩
  have cases_ : ∀ {i : Nat} {order : AcmeOrder δ κ ι}, (before.orders ++
      [(⟨Acme.sortedDomains domains, replaces, before.served, [], false, none, none⟩ : AcmeOrder δ κ ι)])[i]? = some order →
      before.orders[i]? = some order ∨ i = before.orders.length ∧
        order = ⟨Acme.sortedDomains domains, replaces, before.served, [], false, none, none⟩ := by
    intro i order there
    by_cases inside : i < before.orders.length
    · rw [List.getElem?_append_left inside] at there
      exact .inl there
    · rw [List.getElem?_append_right (by omega)] at there
      obtain ⟨last, same⟩ := List.getElem?_eq_some_iff.mp there
      simp only [List.length_singleton, Nat.lt_one_iff] at last
      refine .inr ⟨by omega, ?_⟩
      simpa [last] using same.symm
  constructor
  case proper =>
    intro i order there
    obtain was | ⟨_, rfl⟩ := cases_ there
    · exact books.proper i order was
    · exact ⟨rfl, goes, by simp, by simp⟩
  case chains =>
    intro i order chain there issued
    obtain was | ⟨_, rfl⟩ := cases_ there
    · exact books.chains i order chain was issued
    · cases issued
  case keys =>
    have old : ∀ i text, Key { before with orders := before.orders ++
        [⟨Acme.sortedDomains domains, replaces, before.served, [], false, none, none⟩] } i text → before.Key i text := by
      intro i text made
      obtain ⟨order, there, same⟩ := made
      obtain was | ⟨_, rfl⟩ := cases_ there
      · exact ⟨order, was, same⟩
      · cases same
    intro i j text other first second made made' read read' same
    exact books.keys i j text other first second (old i text made) (old j other made') read read' same
  case serving =>
    intro i order key there served
    obtain was | ⟨rfl, rfl⟩ := cases_ there
    · obtain ⟨j, below, made⟩ := books.serving i order key was served
      exact ⟨j, below, made.stays stays⟩
    · obtain ⟨j, made⟩ := books.served key served
      exact ⟨j, made.below, made.stays stays⟩
  case served =>
    intro key served
    obtain ⟨j, made⟩ := books.served key served
    exact ⟨j, made.stays stays⟩

/-- The calls that keep the books, the files and what is served. -/
def Allowed (pem : Pem δ κ ι) (domains : List Text) (world : CertWorld δ κ ι) : CertCall δ κ γ ι → Prop
  | .file _ => False
  | .newOrder names replaces => names = Acme.sortedDomains domains ∧ Replaces pem world.served replaces
  | .setReady _ dns value => (challengeName dns, value) ∈ world.txt
  | .finalize i => ∀ order, world.orders[i]? = some order → order.wasReady = true
  | .setKey _ => False
  | _ => True

theorem Books.answers (books : Books pem publicKey publicOf domains before) {request : CertCall δ κ γ ι}
    (allowed : Allowed pem domains before request) {reply : Except String request.Value}
    (answered : CertWorld.answers pem publicKey publicOf request before reply after) :
    Books pem publicKey publicOf domains after ∧ Stays before after := by
  cases request with
  | file _ | setKey _ => exact allowed.elim
  | newOrder names replaces =>
    obtain ⟨rfl, goes⟩ := allowed
    obtain ⟨_, rfl⟩ | ⟨_, rfl⟩ := answered
    · exact ⟨books, .refl _⟩
    · exact ⟨books.added goes, .added _ _⟩
  | addTxtRecord name value =>
    obtain ⟨_, rfl⟩ | rfl := answered
    · exact ⟨books, .refl _⟩
    · have kept : ∀ record ∈ before.txt, record ∈ before.txt ++ [(name, value)] :=
        fun record inside => List.mem_append_left _ inside
      exact ⟨⟨fun i order there => (books.proper i order there).more kept, books.chains, books.keys, books.serving,
        books.served⟩, rfl, rfl, kept, fun _ order there => ⟨order, there, .refl order⟩⟩
  | setReady i dns value =>
    obtain ⟨_, rfl⟩ | rfl := answered
    · exact ⟨books, .refl _⟩
    have becomes : ∀ order, before.orders[i]? = some order →
        order.Becomes { order with answered := order.answered ++ [(dns, value)] } :=
      fun _ _ => ⟨rfl, rfl, rfl, fun ready => ready, fun _ same => same, fun _ same => same⟩
    refine ⟨books.order becomes ?_ (fun order chain there issued => books.chains i order chain there issued)
      fun order text _ same => .inl same, Stays.order before becomes⟩
    intro order there
    refine { books.proper i order there with answered := fun name data inside => ?_ }
    obtain inside | same := List.mem_append.mp inside
    · exact (books.proper i order there).answered name data inside
    · cases List.mem_singleton.mp same
      exact allowed
  | pollReady i =>
    obtain ⟨_, rfl⟩ | rfl := answered
    · exact ⟨books, .refl _⟩
    have becomes : ∀ order, before.orders[i]? = some order → order.Becomes { order with wasReady := true } :=
      fun _ _ => ⟨rfl, rfl, rfl, fun _ => rfl, fun _ same => same, fun _ same => same⟩
    refine ⟨books.order becomes ?_ (fun order chain there issued => books.chains i order chain there issued)
      fun order text _ same => .inl same, Stays.order before becomes⟩
    intro order there
    exact { books.proper i order there with ready := fun _ _ => rfl }
  | finalize i =>
    obtain ⟨_, rfl⟩ | ⟨text, key, _, read, fresh, none_, rfl⟩ := answered
    · exact ⟨books, .refl _⟩
    have becomes : ∀ order, before.orders[i]? = some order → order.Becomes { order with key := some text } := by
      intro order there
      refine ⟨rfl, rfl, rfl, fun ready => ready, fun other same => ?_, fun _ same => same⟩
      rw [none_ order there] at same
      cases same
    refine ⟨books.order becomes ?_ ?_ ?_, Stays.order before becomes⟩
    · intro order there
      exact { books.proper i order there with ready := fun _ _ => allowed order there }
    · -- a chain would be for a key that was there
      intro order chain there issued
      obtain ⟨_, _, _, _, keyed, _⟩ := books.chains i order chain there issued
      rw [none_ order there] at keyed
      cases keyed
    · intro order other there same
      cases same
      exact .inr ⟨key, read, fresh⟩
  | certificate i =>
    obtain ⟨_, rfl⟩ | ⟨chain, order, _, there, goes, same, rfl⟩ := answered
    · exact ⟨books, .refl _⟩
    have becomes : ∀ other, before.orders[i]? = some other → other.Becomes { other with chain := some chain } := by
      intro other there'
      cases there.symm.trans there'
      refine ⟨rfl, rfl, rfl, fun ready => ready, fun _ same => same, fun text issued => ?_⟩
      obtain none_ | same := same
      · rw [none_] at issued
        cases issued
      · exact same.symm.trans issued
    refine ⟨books.order becomes ?_ ?_ fun _ _ _ same => .inl same, Stays.order before becomes⟩
    · intro other there'
      exact { books.proper i other there' with }
    · intro other issued there' same
      cases there.symm.trans there'
      cases same
      exact goes
  | createDirAll _ | fromCredentials _ | createAccount | nextAuthorization _ | sleep | renewalInfo _ | now | randomRange _
  | selectSleep _ _ =>
    cases answered
    exact ⟨books, .refl _⟩

end CertWorld
end

end Pos2.Tunnel
