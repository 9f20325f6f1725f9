import Pos2.Tunnel.Clients
import Pos2.Tunnel.DnsIsolation

/-! The routing table points at clients that may serve the name. Three things
hold of every state: what a client has shown so far, which connections have a
stable id of their own, and how the table follows from the registrations. -/

namespace Pos2.Tunnel
namespace Routes
variable {ι : Type} [DecidableEq ι]

@[simp] theorem set_self (routes : Routes ι) (i : ι) (client : Client) : (routes.set i client).clients i = client := by
  simp [set]

theorem set_other (routes : Routes ι) {i j : ι} (client : Client) (other : j ≠ i) :
    (routes.set i client).clients j = routes.clients j := by
  simp [set, other]

/-- Closing a connection changes nothing else. -/
theorem close_client (routes : Routes ι) (i j : ι) :
    (routes.close i).clients j = { routes.clients j with closed := decide (j = i) || (routes.clients j).closed } := by
  by_cases same : j = i
  · subst same
    simp [close]
  · simp [close, set_other _ _ same, same]

/-- The clients behind a registration, with the connection it closed. -/
theorem register_clients (routes : Routes ι) (i j : ι) (domain : Text) :
    (routes.register i domain).clients j =
      { routes.clients j with
        phase := if j = i then .waitClosed domain else (routes.clients j).phase
        closed := decide (routes.conns domain = some j) || (routes.clients j).closed } := by
  unfold register
  dsimp only
  cases routes.conns domain with
  | none =>
    by_cases same : j = i
    · subst same
      simp [enter]
    · simp [enter, set_other _ _ same, same]
  | some prev =>
    simp only [Option.some.injEq, eq_comm (a := prev)]
    by_cases same : j = i
    · subst same
      simp [enter, close_client]
    · simp [enter, set_other _ _ same, same, close_client]

private theorem cleanUp_clients (routes : Routes ι) (i : ι) (domain : Text) :
    (routes.cleanUp i domain).clients = (routes.enter i (.cleaned domain)).clients ∧
      (routes.cleanUp i domain).registered = routes.registered ∧ (routes.cleanUp i domain).db = routes.db := by
  unfold cleanUp
  split
  · split <;> exact ⟨rfl, rfl, rfl⟩
  · exact ⟨rfl, rfl, rfl⟩

private theorem getToken_eq (routes : Routes ι) (i : ι) (hello : ClientHello) :
    ∃ phase, routes.getToken i hello = routes.enter i phase ∧
      (phase = .failed ∨ ∃ token, routes.db.getAuthTokenById hello.token = some token ∧ phase = .getUser hello token) := by
  unfold getToken
  cases routes.db.getAuthTokenById hello.token with
  | none => exact ⟨_, rfl, .inl rfl⟩
  | some token => exact ⟨_, rfl, .inr ⟨token, rfl, rfl⟩⟩

private theorem getUser_eq (routes : Routes ι) (i : ι) (hello : ClientHello) (token : AuthToken) :
    ∃ phase, routes.getUser i hello token = routes.enter i phase ∧
      (phase = .failed ∨ (hello.domain ∈ routes.db.domainsOf token.userId ∧ phase = .sendHello hello)) := by
  unfold getUser
  cases found : routes.db.getUserById token.userId with
  | none => exact ⟨_, rfl, .inl rfl⟩
  | some user =>
    refine ⟨_, rfl, ?_⟩
    rw [(DB.getUserById_domains found).2]
    split
    · rename_i member
      exact .inr ⟨member, rfl⟩
    · exact .inl rfl

/-- What a step leaves of the clients: those of the other tasks stay as they are,
unless their connection is closed. -/
theorem ClientStep.others {i j : ι} {routes after : Routes ι} (step : ClientStep i routes after) (other : j ≠ i) :
    (after.clients j).phase = (routes.clients j).phase ∧ (after.clients j).stableId = (routes.clients j).stableId ∧
      (after.clients j).hello = (routes.clients j).hello := by
  have same (client : Client) : (routes.set i client).clients j = routes.clients j := set_other routes client other
  cases step with
  | accept stableId => simp only [Routes.accept, same, and_self]
  | readHello hello => simp only [Routes.readHello, same, and_self]
  | @getToken hello =>
    obtain ⟨phase, next, _⟩ := getToken_eq routes i hello
    simp only [next, enter, same, and_self]
  | @getUser hello token =>
    obtain ⟨phase, next, _⟩ := getUser_eq routes i hello token
    simp only [next, enter, same, and_self]
  | sendHello => simp only [enter, same, and_self]
  | fail => simp only [enter, same, and_self]
  | register => simp only [register_clients, if_neg other, and_self]
  | closed => simp only [enter, same, and_self]
  | cleanUp => simp only [cleanUp_clients, enter, same, and_self]

theorem ClientStep.db {i : ι} {routes after : Routes ι} (step : ClientStep i routes after) : after.db = routes.db := by
  cases step with
  | @getToken hello =>
    obtain ⟨phase, next, _⟩ := getToken_eq routes i hello
    rw [next]
    rfl
  | @getUser hello token =>
    obtain ⟨phase, next, _⟩ := getUser_eq routes i hello token
    rw [next]
    rfl
  | register =>
    unfold Routes.register
    split <;> rfl
  | cleanUp => exact (cleanUp_clients _ _ _).2.2
  | _ => rfl

/-- The token of a hello belongs to a user with the domain it asks for. -/
def Allowed (db : DB) (hello : ClientHello) : Prop :=
  ∃ token, db.getAuthTokenById hello.token = some token ∧ hello.domain ∈ db.domainsOf token.userId

/-- What a client has shown once its task is in some phase. -/
def Shown (db : DB) (phase : Phase) (said : Option ClientHello) : Prop :=
  match phase with
  | .getToken hello => said = some hello
  | .getUser hello token => said = some hello ∧ db.getAuthTokenById hello.token = some token
  | .sendHello hello => said = some hello ∧ Allowed db hello
  | .register domain | .waitClosed domain | .cleanUp domain | .cleaned domain =>
    ∃ hello, said = some hello ∧ hello.domain = domain ∧ Allowed db hello
  | .accept | .readHello | .failed => True

def AllShown (routes : Routes ι) : Prop :=
  ∀ i, Shown routes.db (routes.clients i).phase (routes.clients i).hello

theorem AllShown.client {i : ι} {routes after : Routes ι} (shown : AllShown routes)
    (step : ClientStep i routes after) : AllShown after := by
  intro j
  rw [step.db]
  by_cases other : j = i
  · subst other
    have before := shown j
    cases step with
    | accept stableId => simp only [accept, set_self, Shown]
    | readHello hello => simp only [readHello, set_self, Shown]
    | @getToken hello phase =>
      obtain ⟨later, next, failed | ⟨token, found, rfl⟩⟩ := getToken_eq routes j hello
      · simp only [next, enter, set_self, failed, Shown]
      · rw [phase] at before
        simp only [next, enter, set_self]
        exact ⟨before, found⟩
    | @getUser hello token phase =>
      obtain ⟨later, next, failed | ⟨member, rfl⟩⟩ := getUser_eq routes j hello token
      · simp only [next, enter, set_self, failed, Shown]
      · rw [phase] at before
        simp only [next, enter, set_self]
        exact ⟨before.1, token, before.2, member⟩
    | @sendHello hello phase =>
      rw [phase] at before
      simp only [enter, set_self]
      exact ⟨hello, before.1, rfl, before.2⟩
    | fail => simp only [enter, set_self, Shown]
    | register phase =>
      rw [phase] at before
      simp only [register_clients, if_true]
      exact before
    | closed phase =>
      rw [phase] at before
      simp only [enter, set_self]
      exact before
    | cleanUp phase =>
      rw [phase] at before
      simp only [cleanUp_clients, enter, set_self]
      exact before
  · obtain ⟨phase, _, hello⟩ := step.others other
    rw [phase, hello]
    exact shown j

/-- Tokens and domains are only ever added. -/
theorem account_keeps {availableSuffixes : List Text} {policy : Policy} {db after : DB}
    (step : Tunnel.Step availableSuffixes policy db after) {id : Text} {token : AuthToken}
    (found : db.getAuthTokenById id = some token) :
    after.getAuthTokenById id = some token ∧ db.domainsOf token.userId ⊆ after.domainsOf token.userId := by
  constructor
  · cases step with
    | createUser created =>
      obtain ⟨inserted, insert, same⟩ := Option.bind_eq_some_iff.mp created
      cases same
      unfold DB.insertUser at insert
      split at insert
      next => cases insert
      next =>
        cases insert
        exact found
    | createAuthToken created =>
      unfold DB.createAuthToken at created
      split at created
      next => cases created
      next =>
        cases created
        rw [DB.getAuthTokenById] at found ⊢
        rw [List.find?_append, found]
        rfl
    | registerDomain owner allowed registered =>
      simp only [apiRegisterDomainHandler, owner, Option.bind_eq_bind, Option.bind_some] at registered
      obtain ⟨info, _, registered⟩ := Option.bind_eq_some_iff.mp registered
      split at registered
      next =>
        unfold DB.registerUserDomain at registered
        split at registered
        next => cases registered
        next =>
          cases registered
          exact found
      next => cases registered
  · intro domain member
    rw [DB.mem_domainsOf] at member ⊢
    obtain ⟨_, same | ⟨_, _, _, _, added⟩⟩ := step.domains
    · rwa [same]
    · rw [added]
      exact List.mem_append_left _ member

theorem Allowed.account {availableSuffixes : List Text} {policy : Policy} {db after : DB} {hello : ClientHello}
    (allowed : Allowed db hello) (step : Tunnel.Step availableSuffixes policy db after) : Allowed after hello := by
  obtain ⟨token, found, member⟩ := allowed
  obtain ⟨kept, domains⟩ := account_keeps step found
  exact ⟨token, kept, domains member⟩

theorem Shown.account {availableSuffixes : List Text} {policy : Policy} {db after : DB} {phase : Phase}
    {said : Option ClientHello} (shown : Shown db phase said)
    (step : Tunnel.Step availableSuffixes policy db after) : Shown after phase said := by
  cases phase with
  | getUser hello token => exact ⟨shown.1, (account_keeps step shown.2).1⟩
  | sendHello hello => exact ⟨shown.1, shown.2.account step⟩
  | register domain | waitClosed domain | cleanUp domain | cleaned domain =>
    obtain ⟨hello, same, domain, allowed⟩ := shown
    exact ⟨hello, same, domain, allowed.account step⟩
  | _ => exact shown

theorem AllShown.step {availableSuffixes : List Text} {routes after : Routes ι} (shown : AllShown routes)
    (step : Step availableSuffixes routes after) : AllShown after := by
  cases step with
  | client i step => exact shown.client step
  | lost i =>
    intro j
    rw [close_client]
    exact shown j
  | account step => exact fun i => (shown i).account step

/-- Two tasks with a connection each have connections with different ids. -/
def Distinct (routes : Routes ι) : Prop :=
  ∀ i j, (routes.clients i).phase.connected = true → (routes.clients j).phase.connected = true →
    (routes.clients i).stableId = (routes.clients j).stableId → i = j

omit [DecidableEq ι] in
theorem Distinct.frame {routes after : Routes ι} (distinct : Distinct routes)
    (kept : ∀ j, (after.clients j).phase.connected = true →
      (routes.clients j).phase.connected = true ∧ (after.clients j).stableId = (routes.clients j).stableId) :
    Distinct after := by
  intro i j first second same
  obtain ⟨first, id⟩ := kept i first
  obtain ⟨second, id'⟩ := kept j second
  exact distinct i j first second (by rw [← id, ← id', same])

/-- A task gets its connection once, under an id that no other has. -/
theorem ClientStep.connection {i : ι} {routes after : Routes ι} (step : ClientStep i routes after) :
    (∀ j, (routes.clients j).phase.connected = true → (routes.clients j).stableId ≠ (after.clients i).stableId) ∨
      ((after.clients i).phase.connected = true →
        (routes.clients i).phase.connected = true ∧ (after.clients i).stableId = (routes.clients i).stableId) := by
  cases step with
  | accept stableId phase distinct =>
    refine .inl fun j connected => ?_
    simp only [Routes.accept, set_self]
    exact distinct j connected
  | readHello hello phase => exact .inr fun _ => ⟨by rw [phase]; rfl, by simp only [Routes.readHello, set_self]⟩
  | @getToken hello phase =>
    obtain ⟨later, next, _⟩ := getToken_eq routes i hello
    exact .inr fun _ => ⟨by rw [phase]; rfl, by simp only [next, enter, set_self]⟩
  | @getUser hello token phase =>
    obtain ⟨later, next, _⟩ := getUser_eq routes i hello token
    exact .inr fun _ => ⟨by rw [phase]; rfl, by simp only [next, enter, set_self]⟩
  | sendHello phase => exact .inr fun _ => ⟨by rw [phase]; rfl, by simp only [enter, set_self]⟩
  | fail =>
    refine .inr fun connected => ?_
    simp only [enter, set_self] at connected
    cases connected
  | register phase => exact .inr fun _ => ⟨by rw [phase]; rfl, by simp only [register_clients]⟩
  | closed phase => exact .inr fun _ => ⟨by rw [phase]; rfl, by simp only [enter, set_self]⟩
  | cleanUp phase => exact .inr fun _ => ⟨by rw [phase]; rfl, by simp only [cleanUp_clients, enter, set_self]⟩

theorem Distinct.client {i : ι} {routes after : Routes ι} (distinct : Distinct routes)
    (step : ClientStep i routes after) : Distinct after := by
  have others {j : ι} (other : j ≠ i) (connected : (after.clients j).phase.connected = true) :
      (routes.clients j).phase.connected = true ∧ (after.clients j).stableId = (routes.clients j).stableId := by
    obtain ⟨phase, id, _⟩ := step.others other
    exact ⟨phase ▸ connected, id⟩
  rcases step.connection with fresh | kept
  · intro first second connected connected' same
    by_cases left : first = i <;> by_cases right : second = i
    · rw [left, right]
    · subst left
      obtain ⟨before, id⟩ := others right connected'
      exact (fresh second before (id.symm.trans same.symm)).elim
    · subst right
      obtain ⟨before, id⟩ := others left connected
      exact (fresh first before (id.symm.trans same)).elim
    · obtain ⟨before, id⟩ := others left connected
      obtain ⟨before', id'⟩ := others right connected'
      exact distinct first second before before' (by rw [← id, ← id', same])
  · apply distinct.frame
    intro j connected
    by_cases own : j = i
    · subst own
      exact kept connected
    · exact others own connected

theorem Distinct.step {availableSuffixes : List Text} {routes after : Routes ι} (distinct : Distinct routes)
    (step : Step availableSuffixes routes after) : Distinct after := by
  cases step with
  | client i step => exact distinct.client step
  | lost i =>
    apply distinct.frame
    intro j connected
    rw [close_client] at connected ⊢
    exact ⟨connected, rfl⟩
  | account step => exact distinct

end Routes

namespace Phase

/-- The domain that a task has registered its connection for. -/
def registered : Phase → Option Text
  | .waitClosed domain | .cleanUp domain | .cleaned domain => some domain
  | _ => none

def isCleaned : Phase → Bool
  | .cleaned _ => true
  | _ => false

/-- The task has seen its connection closed. -/
def sawClosed : Phase → Bool
  | .cleanUp _ | .cleaned _ => true
  | _ => false

end Phase

namespace Routes
variable {ι : Type} [DecidableEq ι]

/-- The connections registered for a domain, in this order. -/
def registeredFor (routes : Routes ι) (domain : Text) : List ι :=
  (routes.registered.filter fun entry => entry.1 = domain).map Prod.snd

def lastFor (routes : Routes ι) (domain : Text) : Option ι := (routes.registeredFor domain).getLast?

/-- How the table and the connections follow from the registrations. -/
structure Routed (routes : Routes ι) : Prop where
  logged : ∀ i domain, (domain, i) ∈ routes.registered ↔ (routes.clients i).phase.registered = some domain
  current : ∀ domain, routes.conns domain =
    (routes.lastFor domain).filter fun i => !(routes.clients i).phase.isCleaned
  replaced : ∀ domain, ∀ i ∈ routes.registeredFor domain, routes.lastFor domain ≠ some i →
    (routes.clients i).closed = true
  closed : ∀ i, (routes.clients i).phase.sawClosed = true → (routes.clients i).closed = true

omit [DecidableEq ι] in
theorem mem_registeredFor {routes : Routes ι} {domain : Text} {i : ι} :
    i ∈ routes.registeredFor domain ↔ (domain, i) ∈ routes.registered := by
  simp only [registeredFor, List.mem_map, List.mem_filter, decide_eq_true_eq]
  constructor
  · rintro ⟨⟨_, _⟩, ⟨member, rfl⟩, rfl⟩
    exact member
  · intro member
    exact ⟨_, ⟨member, rfl⟩, rfl⟩

omit [DecidableEq ι] in
theorem lastFor_mem {routes : Routes ι} {domain : Text} {i : ι} (last : routes.lastFor domain = some i) :
    (domain, i) ∈ routes.registered :=
  mem_registeredFor.mp (List.mem_of_getLast? last)

omit [DecidableEq ι] in
/-- The entry of the table is the last registration, and not cleaned up. -/
theorem Routed.entry {routes : Routes ι} (routed : Routed routes) {domain : Text} {i : ι}
    (found : routes.conns domain = some i) :
    routes.lastFor domain = some i ∧ (routes.clients i).phase.isCleaned = false := by
  rw [routed.current, Option.filter_eq_some_iff] at found
  exact ⟨found.1, by simpa using found.2⟩

omit [DecidableEq ι] in
/-- Nothing changes for the table while no task registers or cleans up. -/
theorem Routed.frame {routes after : Routes ι} (routed : Routed routes)
    (log : after.registered = routes.registered) (table : after.conns = routes.conns)
    (phases : ∀ j, (after.clients j).phase.registered = (routes.clients j).phase.registered ∧
      (after.clients j).phase.isCleaned = (routes.clients j).phase.isCleaned)
    (stays : ∀ j, (routes.clients j).closed = true → (after.clients j).closed = true)
    (closed : ∀ j, (after.clients j).phase.sawClosed = true → (after.clients j).closed = true) : Routed after := by
  have same : ∀ domain, after.registeredFor domain = routes.registeredFor domain := by
    intro domain
    rw [registeredFor, log, registeredFor]
  have last : ∀ domain, after.lastFor domain = routes.lastFor domain := by
    intro domain
    rw [lastFor, same, lastFor]
  refine ⟨fun i domain => ?_, fun domain => ?_, fun domain i member other => ?_, closed⟩
  · rw [log, (phases i).1]
    exact routed.logged i domain
  · rw [table, last, routed.current]
    congr 1
    funext i
    rw [(phases i).2]
  · rw [same] at member
    rw [last] at other
    exact stays i (routed.replaced domain i member other)

/-- A task that changes only itself, and not between having registered, cleaned up or neither. -/
theorem Routed.set {routes : Routes ι} (routed : Routed routes) {i : ι} {client : Client}
    (registered : client.phase.registered = (routes.clients i).phase.registered)
    (cleaned : client.phase.isCleaned = (routes.clients i).phase.isCleaned)
    (stays : client.closed = (routes.clients i).closed)
    (closed : client.phase.sawClosed = true → client.closed = true) : Routed (routes.set i client) := by
  refine routed.frame rfl rfl ?_ ?_ ?_
  · intro j
    by_cases own : j = i
    · subst own
      rw [set_self]
      exact ⟨registered, cleaned⟩
    · rw [set_other _ _ own]
      exact ⟨rfl, rfl⟩
  · intro j before
    by_cases own : j = i
    · subst own
      rwa [set_self, stays]
    · rwa [set_other _ _ own]
  · intro j saw
    by_cases own : j = i
    · subst own
      rw [set_self] at saw ⊢
      exact closed saw
    · rw [set_other _ _ own] at saw ⊢
      exact routed.closed j saw

private theorem register_conns (routes : Routes ι) (i : ι) (domain : Text) :
    (routes.register i domain).conns = Function.update routes.conns domain (some i) ∧
      (routes.register i domain).registered = routes.registered ++ [(domain, i)] := by
  unfold register
  split <;> exact ⟨rfl, rfl⟩

private theorem register_registeredFor (routes : Routes ι) (i : ι) (domain other : Text) :
    (routes.register i domain).registeredFor other =
      if other = domain then routes.registeredFor other ++ [i] else routes.registeredFor other := by
  rw [registeredFor, (register_conns routes i domain).2, List.filter_append]
  by_cases same : other = domain
  · simp [registeredFor, same]
  · simp [registeredFor, same, Ne.symm same]

/-- A connection is replaced only once it is closed. -/
theorem Routed.register {routes : Routes ι} (routed : Routed routes) {i : ι} {domain : Text}
    (phase : (routes.clients i).phase = .register domain) : Routed (routes.register i domain) := by
  obtain ⟨table, log⟩ := register_conns routes i domain
  have new : ∀ other, (other, i) ∉ routes.registered := by
    intro other member
    have registered := (routed.logged i other).mp member
    rw [phase] at registered
    cases registered
  have phases {j : ι} (other : j ≠ i) : ((routes.register i domain).clients j).phase = (routes.clients j).phase := by
    rw [register_clients, if_neg other]
  have own : ((routes.register i domain).clients i).phase = .waitClosed domain := by
    rw [register_clients, if_pos rfl]
  have stays {j : ι} (closed : (routes.clients j).closed = true) :
      ((routes.register i domain).clients j).closed = true := by
    rw [register_clients, closed]
    exact Bool.or_true _
  constructor
  · intro j other
    rw [log, List.mem_append, List.mem_singleton, Prod.mk.injEq]
    by_cases same : j = i
    · subst same
      rw [own]
      constructor
      · rintro (member | ⟨rfl, _⟩)
        · exact (new other member).elim
        · rfl
      · intro registered
        cases registered
        exact .inr ⟨rfl, rfl⟩
    · rw [phases same, ← routed.logged]
      exact ⟨fun member => member.resolve_right fun equal => same equal.2, .inl⟩
  · intro other
    rw [table, lastFor, register_registeredFor]
    by_cases same : other = domain
    · subst same
      rw [Function.update_self, if_pos rfl, List.getLast?_concat, Option.filter_some_pos]
      rw [own]
      rfl
    · rw [Function.update_of_ne same, if_neg same, routed.current, lastFor]
      cases last : (routes.registeredFor other).getLast? with
      | none => rfl
      | some j =>
        have known := lastFor_mem last
        have differ : j ≠ i := fun equal => new other (equal ▸ known)
        simp only [Option.filter_some, phases differ]
  · intro other j member last
    rw [register_registeredFor] at member
    rw [lastFor, register_registeredFor] at last
    by_cases same : other = domain
    · subst same
      rw [if_pos rfl] at member last
      rw [List.getLast?_concat] at last
      have old : j ∈ routes.registeredFor other := by
        rcases List.mem_append.mp member with old | new
        · exact old
        · exact (last (by rw [List.mem_singleton.mp new])).elim
      by_cases earlier : routes.lastFor other = some j
      · cases cleaned : (routes.clients j).phase.isCleaned with
        | true =>
          refine stays (routed.closed j ?_)
          generalize (routes.clients j).phase = phase at cleaned
          cases phase with
          | cleaned _ => rfl
          | _ => cases cleaned
        | false =>
          have found : routes.conns other = some j := by
            rw [routed.current, earlier, Option.filter_some_pos]
            rw [cleaned]
            rfl
          rw [register_clients, found]
          simp
      · exact stays (routed.replaced other j old earlier)
    · rw [if_neg same] at member last
      exact stays (routed.replaced other j member last)
  · intro j saw
    by_cases same : j = i
    · subst same
      rw [own] at saw
      cases saw
    · rw [phases same] at saw
      exact stays (routed.closed j saw)

omit [DecidableEq ι] in
theorem Routed.connected {routes : Routes ι} (routed : Routed routes) {domain : Text} {i : ι}
    (found : routes.conns domain = some i) : (routes.clients i).phase.connected = true := by
  obtain ⟨last, running⟩ := routed.entry found
  have registered := (routed.logged i domain).mp (lastFor_mem last)
  generalize (routes.clients i).phase = phase at registered running
  cases phase with
  | waitClosed _ | cleanUp _ => rfl
  | cleaned _ => cases running
  | _ => cases registered

/-- A clean-up removes the entry of its own connection, and no other. -/
theorem Routed.cleanUp_conns {routes : Routes ι} (routed : Routed routes) (distinct : Distinct routes) {i : ι}
    {domain : Text} (phase : (routes.clients i).phase = .cleanUp domain) :
    (routes.cleanUp i domain).conns =
      Function.update routes.conns domain ((routes.conns domain).filter fun curConn => curConn ≠ i) := by
  unfold Routes.cleanUp
  cases found : routes.conns domain with
  | none =>
    have absent : routes.conns = Function.update routes.conns domain none := by
      rw [← found, Function.update_eq_self]
    exact absent
  | some curConn =>
    simp only
    by_cases same : (routes.clients curConn).stableId = (routes.clients i).stableId
    · have equal := distinct curConn i (routed.connected found) (by rw [phase]; rfl) same
      rw [if_pos same, equal, Option.filter_some_neg (by simp)]
    · have differ : curConn ≠ i := fun equal => same (by rw [equal])
      rw [if_neg same, Option.filter_some_pos (by simp [differ]), ← found, Function.update_eq_self]
      rfl

theorem Routed.cleanUp {routes : Routes ι} (routed : Routed routes) (distinct : Distinct routes) {i : ι}
    {domain : Text} (phase : (routes.clients i).phase = .cleanUp domain) : Routed (routes.cleanUp i domain) := by
  have table := routed.cleanUp_conns distinct phase
  obtain ⟨clients, log, _⟩ := cleanUp_clients routes i domain
  have registered := (routed.logged i domain).mpr (by rw [phase]; rfl)
  have last : ∀ other, (routes.cleanUp i domain).lastFor other = routes.lastFor other := by
    intro other
    rw [lastFor, registeredFor, log, lastFor, registeredFor]
  have client {j : ι} (other : j ≠ i) : (routes.cleanUp i domain).clients j = routes.clients j := by
    rw [clients, enter, set_other _ _ other]
  have own : (routes.cleanUp i domain).clients i = { routes.clients i with phase := .cleaned domain } := by
    rw [clients, enter, set_self]
  have closed : (routes.clients i).closed = true := routed.closed i (by rw [phase]; rfl)
  constructor
  · intro j other
    rw [log, routed.logged]
    by_cases same : j = i
    · subst same
      rw [own, phase]
      rfl
    · rw [client same]
  · intro other
    rw [table, last]
    by_cases same : other = domain
    · subst same
      rw [Function.update_self, routed.current]
      cases routes.lastFor other with
      | none => rfl
      | some j =>
        by_cases same : j = i
        · subst same
          have gone : (Option.filter (fun i => !((routes.cleanUp j other).clients i).phase.isCleaned) (some j)) = none :=
            Option.filter_some_neg (by rw [own]; rfl)
          rw [gone, Option.filter_some]
          split
          · exact Option.filter_some_neg (by simp)
          · rfl
        · simp only [Option.filter_some, client same]
          split
          · simp [same]
          · rfl
    · rw [Function.update_of_ne same, routed.current]
      cases found : routes.lastFor other with
      | none => rfl
      | some j =>
        have differ : j ≠ i := by
          rintro rfl
          have elsewhere := (routed.logged j other).mp (lastFor_mem found)
          rw [phase] at elsewhere
          exact same (Option.some.inj elsewhere).symm
        simp only [Option.filter_some, client differ]
  · intro other j member later
    rw [last] at later
    rw [registeredFor, log] at member
    have before := routed.replaced other j member later
    by_cases same : j = i
    · subst same
      rw [own]
      exact before
    · rw [client same]
      exact before
  · intro j saw
    by_cases same : j = i
    · subst same
      rw [own]
      exact closed
    · rw [client same] at saw ⊢
      exact routed.closed j saw

theorem Routed.client {i : ι} {routes after : Routes ι} (routed : Routed routes) (distinct : Distinct routes)
    (step : ClientStep i routes after) : Routed after := by
  cases step with
  | accept stableId phase => exact routed.set (by rw [phase]; rfl) (by rw [phase]; rfl) rfl nofun
  | readHello hello phase => exact routed.set (by rw [phase]; rfl) (by rw [phase]; rfl) rfl nofun
  | @getToken hello phase =>
    obtain ⟨later, next, failed⟩ := getToken_eq routes i hello
    rw [next]
    rcases failed with rfl | ⟨token, _, rfl⟩
    · exact routed.set (by rw [phase]; rfl) (by rw [phase]; rfl) rfl nofun
    · exact routed.set (by rw [phase]; rfl) (by rw [phase]; rfl) rfl nofun
  | @getUser hello token phase =>
    obtain ⟨later, next, failed⟩ := getUser_eq routes i hello token
    rw [next]
    rcases failed with rfl | ⟨_, rfl⟩
    · exact routed.set (by rw [phase]; rfl) (by rw [phase]; rfl) rfl nofun
    · exact routed.set (by rw [phase]; rfl) (by rw [phase]; rfl) rfl nofun
  | sendHello phase => exact routed.set (by rw [phase]; rfl) (by rw [phase]; rfl) rfl nofun
  | fail phase =>
    refine routed.set ?_ ?_ rfl nofun
    · generalize (routes.clients i).phase = before at phase
      cases before <;> first | rfl | cases phase
    · generalize (routes.clients i).phase = before at phase
      cases before <;> first | rfl | cases phase
  | register phase => exact routed.register phase
  | closed phase closed => exact routed.set (by rw [phase]; rfl) (by rw [phase]; rfl) rfl fun _ => closed
  | cleanUp phase => exact routed.cleanUp distinct phase

theorem Routed.step {availableSuffixes : List Text} {routes after : Routes ι} (routed : Routed routes)
    (distinct : Distinct routes) (step : Step availableSuffixes routes after) : Routed after := by
  cases step with
  | client i step => exact routed.client distinct step
  | lost i =>
    refine routed.frame rfl rfl ?_ ?_ ?_
    · intro j
      rw [close_client]
      exact ⟨rfl, rfl⟩
    · intro j closed
      rw [close_client, closed]
      exact Bool.or_true _
    · intro j saw
      rw [close_client] at saw ⊢
      rw [routed.closed j saw]
      exact Bool.or_true _
  | account step => exact routed.frame rfl rfl (fun _ => ⟨rfl, rfl⟩) (fun _ closed => closed) routed.closed

/-- The client has completed the handshake for the domain, with a token whose
user has it. -/
def Authorized (routes : Routes ι) (i : ι) (domain : Text) : Prop :=
  ((routes.clients i).phase = .waitClosed domain ∨ (routes.clients i).phase = .cleanUp domain) ∧
    ∃ hello, (routes.clients i).hello = some hello ∧ hello.domain = domain ∧ Allowed routes.db hello

theorem Reachable.invariants {availableSuffixes : List Text} {db : DB} {routes : Routes ι}
    (reachable : Reachable availableSuffixes db routes) : AllShown routes ∧ Distinct routes ∧ Routed routes := by
  induction reachable with
  | refl =>
    refine ⟨fun i => trivial, ?_, ⟨fun i domain => ?_, fun domain => rfl, ?_, ?_⟩⟩
    · intro i j connected
      cases connected
    · constructor
      · intro member
        cases member
      · intro registered
        cases registered
    · intro domain i member
      cases member
    · intro i saw
      cases saw
  | tail _ step ih =>
    obtain ⟨shown, distinct, routed⟩ := ih
    exact ⟨shown.step step, distinct.step step, routed.step distinct step⟩

omit [DecidableEq ι] in
theorem Routed.authorized {routes : Routes ι} (routed : Routed routes) (shown : AllShown routes) {domain : Text}
    {i : ι} (found : routes.conns domain = some i) : Authorized routes i domain := by
  obtain ⟨last, running⟩ := routed.entry found
  have registered := (routed.logged i domain).mp (lastFor_mem last)
  have proof := shown i
  unfold Authorized
  generalize (routes.clients i).phase = phase at registered running proof
  cases phase with
  | waitClosed other =>
    cases registered
    exact ⟨.inl rfl, proof⟩
  | cleanUp other =>
    cases registered
    exact ⟨.inr rfl, proof⟩
  | cleaned other => cases running
  | _ => cases registered

/-- In every state that any interleaving of handshakes, registrations, lost
connections, clean-ups and changes of the accounts can reach, the routing table
is sound. -/
theorem routing_sound {availableSuffixes : List Text} {db : DB} {routes : Routes ι}
    (reachable : Reachable availableSuffixes db routes) :
    (∀ domain i, routes.conns domain = some i → Authorized routes i domain) ∧
    (∀ domain i, routes.lastFor domain = some i →
      routes.conns domain = if (routes.clients i).phase = .cleaned domain then none else some i) ∧
    (∀ domain i, routes.conns domain = some i → routes.lastFor domain = some i) ∧
    (∀ domain, ∀ i ∈ routes.registeredFor domain, routes.lastFor domain ≠ some i →
      (routes.clients i).closed = true) ∧
    (∀ domain i, (routes.clients i).phase = .cleanUp domain →
      ∀ other, (routes.cleanUp i domain).conns other ≠ routes.conns other →
        routes.conns other = some i ∧ (routes.cleanUp i domain).conns other = none) ∧
    ((∀ domain, ∀ i ∈ routes.registeredFor domain, (routes.clients i).phase = .cleaned domain) →
      ∀ domain, routes.conns domain = none) ∧
    ∀ serverName i, routes.handle serverName = some i → Authorized routes i serverName := by
  obtain ⟨shown, distinct, routed⟩ := reachable.invariants
  refine ⟨fun domain i => routed.authorized shown, ?_, fun domain i found => (routed.entry found).1,
    routed.replaced, ?_, ?_, fun serverName i => routed.authorized shown⟩
  · intro domain i last
    rw [routed.current, last, Option.filter_some]
    have registered := (routed.logged i domain).mp (lastFor_mem last)
    generalize (routes.clients i).phase = phase at registered
    cases phase with
    | waitClosed other => rfl
    | cleanUp other => rfl
    | cleaned other =>
      cases registered
      rw [if_pos rfl]
      rfl
    | _ => cases registered
  · intro domain i phase other changed
    rw [routed.cleanUp_conns distinct phase] at changed ⊢
    by_cases same : other = domain
    · subst same
      rw [Function.update_self] at changed ⊢
      cases found : routes.conns other with
      | none =>
        rw [found] at changed
        exact (changed rfl).elim
      | some curConn =>
        by_cases own : curConn = i
        · subst own
          exact ⟨rfl, Option.filter_some_neg (by simp)⟩
        · rw [found, Option.filter_some_pos (by simpa using own)] at changed
          exact (changed rfl).elim
    · rw [Function.update_of_ne same] at changed
      exact (changed rfl).elim
  · intro all domain
    rw [routed.current, Option.filter_eq_none_iff]
    intro i last
    rw [all domain i (mem_registeredFor.mpr (lastFor_mem last))]
    exact Bool.false_ne_true

private theorem getToken_found {routes : Routes ι} {i : ι} {hello : ClientHello} {token : AuthToken}
    (found : routes.db.getAuthTokenById hello.token = some token) :
    routes.getToken i hello = routes.enter i (.getUser hello token) := by
  rw [getToken, found]

private theorem getUser_found {routes : Routes ι} {i : ι} {hello : ClientHello} {token : AuthToken} {user : UserInfo}
    (found : routes.db.getUserById token.userId = some user) (member : hello.domain ∈ user.domains) :
    routes.getUser i hello token = routes.enter i (.sendHello hello) := by
  rw [getUser, found]
  simp only [if_pos member]

/-- A task whose handshake and registration nothing disturbs. -/
def joined (routes : Routes ι) (i : ι) (stableId : Nat) (hello : ClientHello) (token : AuthToken) : Routes ι :=
  (((((routes.accept i stableId).readHello i hello).enter i (.getUser hello token)).enter i
    (.sendHello hello)).enter i (.register hello.domain)).register i hello.domain

theorem Reachable.joined {availableSuffixes : List Text} {db : DB} {routes : Routes ι}
    (reachable : Reachable availableSuffixes db routes) {i : ι} {stableId : Nat} {hello : ClientHello}
    {token : AuthToken} {user : UserInfo} (phase : (routes.clients i).phase = .accept)
    (distinct : ∀ j, (routes.clients j).phase.connected = true → (routes.clients j).stableId ≠ stableId)
    (found : routes.db.getAuthTokenById hello.token = some token)
    (owner : routes.db.getUserById token.userId = some user) (member : hello.domain ∈ user.domains) :
    Reachable availableSuffixes db (routes.joined i stableId hello token) := by
  have accepts := reachable.tail (.client i (.accept stableId phase distinct))
  have reads := accepts.tail (.client i (.readHello hello (by rw [Routes.accept, set_self])))
  have asks := reads.tail (.client i (.getToken (by rw [Routes.readHello, set_self])))
  rw [getToken_found (show ((routes.accept i stableId).readHello i hello).db.getAuthTokenById hello.token = _
    from found)] at asks
  have checks := asks.tail (.client i (.getUser (by rw [enter, set_self])))
  rw [getUser_found (show (((routes.accept i stableId).readHello i hello).enter i
    (.getUser hello token)).db.getUserById token.userId = _ from owner) member] at checks
  have answers := checks.tail (.client i (.sendHello (by rw [enter, set_self])))
  exact answers.tail (.client i (.register (by rw [enter, set_self])))

/-- Two clients of alice for the same domain, one after the other: the first is
replaced and closed, and its clean-up leaves the second alone. -/
theorem routing_sound_replaced : ∃ routes : Routes Bool,
    routes.registeredFor "one.example.com".toList = [false, true] ∧
    (routes.clients false).phase = .cleanUp "one.example.com".toList ∧
    Authorized routes true "one.example.com".toList ∧
    (routes.cleanUp false "one.example.com".toList).conns "one.example.com".toList = some true := by
  let hello : ClientHello := ⟨"one.example.com".toList, "a".toList⟩
  let start : Routes Bool := initial (twoUsers [⟨"alice".toList, "one.example.com".toList⟩])
  have first : Reachable [] start.db (start.joined false 1 hello ⟨"a".toList, "alice".toList⟩) := by
    refine Reachable.joined .refl rfl ?_ rfl rfl (by decide)
    intro j connected
    cases connected
  have second : Reachable [] start.db ((start.joined false 1 hello ⟨"a".toList, "alice".toList⟩).joined true 2 hello
      ⟨"a".toList, "alice".toList⟩) := by
    refine first.joined rfl ?_ rfl rfl (by decide)
    intro j connected
    cases j with
    | false => decide
    | true => cases connected
  have closed := second.tail (.client false (.closed rfl rfl))
  obtain ⟨authorized, _, _, _, own, _⟩ := routing_sound closed
  refine ⟨_, rfl, rfl, authorized _ true rfl, ?_⟩
  by_contra changed
  have removed := (own "one.example.com".toList false rfl "one.example.com".toList changed).1
  cases removed

end Routes
end Pos2.Tunnel
