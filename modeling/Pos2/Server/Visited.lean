import Pos2.Server.Visits

/-! The web server with any number of visitors at a time. -/

namespace Pos2.Server
open Calls

section
variable {ι : Type}

namespace Site

/-- What a task returns: its visitor with the answer. -/
abbrev Value (ι : Type) := Option (Visitor ι × Except Panic Response)

def serving (task : ι) (request : Request) : Program (ServerCalls.by (Visitor ι)) (Value ι) :=
  Program.as ⟨task, request⟩ ((handle request).run.bind fun result => .done (some (⟨task, request⟩, result)))

/-- Each task serves one request. -/
def Requests (task : ι) (value : Value ι) (program : Program (ServerCalls.by (Visitor ι)) (Value ι)) : Prop :=
  value = none ∧ ∃ request, program = serving task request

def Answered (users : List UserModel) (value : Value ι) (journal : SiteJournal ι) : Prop :=
  ∀ visitor result, value = some (visitor, result) →
    Raising.Ended (Cause users visitor) (Says users visitor) result journal

end Site

abbrev WebServer (ι : Type) := Pool (ServerCalls.by (Visitor ι)) (Journaled ServerCalls (Visitor ι) ServerDb) ι (Site.Value ι)

namespace WebServer
variable {users : List UserModel}

/-- The tables as the migrations make them. -/
def initial (users : List UserModel) : WebServer ι := ⟨⟨⟨users, [], [], [], []⟩, []⟩, fun _ => .done none⟩

private theorem answered_lasting : Rules.Lasting (Site.Answered (ι := ι) users) := by
  intro value journal later grown answered visitor result same
  have ended := answered visitor result same
  cases result with
  | ok response => exact Says.later ended grown
  | error reason => exact Cause.later ended grown

theorem lawfully : (siteRules (ι := ι) users).Lawfully (Site.Answered users) Site.Requests := by
  rintro task value program ⟨_, request, rfl⟩
  refine ⟨⟨task, request⟩, _, rfl, Rules.Asks.bind serves_handle fun result last _ ended => ?_⟩
  intro visitor other same
  cases same
  exact ended

private theorem sound_initial : (siteRules (ι := ι) users).Valid (initial users : WebServer ι).shared where
  always := trivial
  invariant := by
    refine ⟨rfl, fun row => ?_, fun session => ?_, fun key => ?_, fun app => ?_, List.nodup_nil⟩
    all_goals simp [initial, Published, Open, Installed, Current, WrittenLast, Journal.Once, Journal.Since]

variable [DecidableEq ι]

abbrev Runs : WebServer ι → WebServer ι → Prop := Pool.Runs (Handler.journaled (Visitor ι) siteServes) Site.Requests

abbrev Reachable (users : List UserModel) (server : WebServer ι) : Prop := Runs (initial users) server

theorem Reachable.holds {server : WebServer ι} (reachable : Reachable users server) :
    (Rules.contract (siteRules users) (Site.Answered users)).Holds (Handler.journaled (Visitor ι) siteServes) server := by
  refine siteRules_lawful.run answered_lasting lawfully sound_initial (fun task => ⟨none, rfl, ?_⟩) reachable
  rintro visitor result ⟨⟩

end WebServer

/-! ### A server that answers -/

instance (first second : RegistryAppModel) : Decidable (first.Before second) :=
  inferInstanceAs (Decidable (_ ∨ _))

/-- What a server makes up. -/
structure Fresh where
  id : Int
  sessionId : Text
  path : Text
  text : Text

def siteServe (fresh : Fresh) (call : ServerCall) (before : ServerDb) : Except String call.Value × ServerDb :=
  match call with
  | .listUsers => (.ok before.users, before)
  | .getUserById id => (.ok (before.users.find? fun user => user.id = id), before)
  | .getSession id => (.ok (before.sessions.find? fun session => session.id = id), before)
  | .insertSession id userId =>
    if ∀ session ∈ before.sessions, session.id ≠ id then
      (.ok (), { before with sessions := before.sessions ++ [⟨id, userId⟩] })
    else (.error "constraint", before)
  | .deleteSession id => (.ok (), { before with sessions := before.sessions.filter fun session => session.id ≠ id })
  | .listUserAppsByUserId userId => (.ok (before.userApps.filter fun app => app.userId = userId), before)
  | .insertUserApp app =>
    match insertUserApp app before.userApps with
    | some rows => (.ok (), { before with userApps := rows })
    | none => (.error "constraint", before)
  | .updateUserApp app => (.ok (), { before with userApps := updateUserApp app before.userApps })
  | .listRegistryApps =>
    if before.registryApps.Pairwise RegistryAppModel.Before then (.ok before.registryApps, before) else (.error "busy", before)
  | .insertRegistryApp name version ociReference =>
    if ∀ row ∈ before.registryApps, row.id ≠ fresh.id then
      (.ok fresh.id, { before with registryApps := before.registryApps ++ [⟨fresh.id, name, version, ociReference⟩] })
    else (.error "constraint", before)
  | .intoValues apps => (.ok apps, before)
  | .randomSessionId => (.ok fresh.sessionId, before)
  | .downloadApp ociReference => (.ok fresh.path, { before with downloads := (ociReference, fresh.path) :: before.downloads })
  | .run _ => (.ok fresh.text, before)
  | .sendFetch | .receiveFetch | .createParent _ => (.ok (), before)

private theorem siteServe_serves (fresh : Fresh) (call : ServerCall) (before : ServerDb) :
    siteServes call before (siteServe fresh call before).1 (siteServe fresh call before).2 := by
  have queried {α : Type} {holds : α → Prop} {value : α} (true_ : holds value) :
      Queried holds before (.ok value : Except String α) before := by
    refine ⟨rfl, fun other same => ?_⟩
    cases same
    exact true_
  cases call with
  | listUsers => exact queried (List.Perm.refl _)
  | getUserById id => exact queried rfl
  | getSession id => exact queried rfl
  | listUserAppsByUserId userId => exact queried (List.Perm.refl _)
  | insertSession id userId =>
    simp only [siteServe]
    split
    next free => exact ⟨free, rfl⟩
    next => exact rfl
  | insertUserApp app =>
    simp only [siteServe]
    split
    next rows inserted => exact ⟨rows, inserted, rfl⟩
    next => exact rfl
  | listRegistryApps =>
    simp only [siteServe]
    split
    next ordered => exact queried ⟨List.Perm.refl _, ordered⟩
    next => exact ⟨rfl, fun value impossible => by cases impossible⟩
  | insertRegistryApp name version ociReference =>
    simp only [siteServe]
    split
    next free => exact ⟨free, rfl⟩
    next => exact rfl
  | intoValues apps => exact ⟨rfl, apps, rfl, List.Perm.refl _⟩
  | _ => exact rfl

namespace WebServer
variable [DecidableEq ι]

def journalServe (fresh : Fresh) (call : (ServerCalls.by (Visitor ι)).Request) (before : Journaled ServerCalls (Visitor ι) ServerDb) :
    (ServerCalls.by (Visitor ι)).Reply call × Journaled ServerCalls (Visitor ι) ServerDb :=
  ((siteServe fresh call.2 before.state).1, ⟨(siteServe fresh call.2 before.state).2,
    ⟨call.1, call.2, (siteServe fresh call.2 before.state).1⟩ :: before.journal⟩)

/-- A request is served from its first call to its last, and all others wait. -/
def serve (fresh : Fresh) (server : WebServer ι) (task : ι) (request : Request) : WebServer ι :=
  let ended := (Site.serving task request).run (journalServe fresh) server.shared
  ⟨ended.2, Function.update server.threads task (.done ended.1)⟩

theorem Reachable.serve {users : List UserModel} {server : WebServer ι} (reachable : Reachable users server) (fresh : Fresh)
    {task : ι} (idle : server.threads task = .done none) (request : Request) :
    Reachable users (server.serve fresh task request) := by
  have started : Pool.Moves (Handler.journaled (Visitor ι) siteServes) Site.Requests server
      ⟨server.shared, Function.update server.threads task (Site.serving task request)⟩ :=
    ⟨task, .start _ idle ⟨rfl, request, rfl⟩⟩
  have served (call : (ServerCalls.by (Visitor ι)).Request) (before : Journaled ServerCalls (Visitor ι) ServerDb) :
      Handler.journaled (Visitor ι) siteServes call before (journalServe fresh call before).1
        (journalServe fresh call before).2 := ⟨siteServe_serves fresh call.2 before.state, rfl⟩
  have rest : Pool.Runs (Handler.journaled (Visitor ι) siteServes) Site.Requests
      ⟨server.shared, Function.update server.threads task (Site.serving task request)⟩ _ :=
    Pool.runs_ends (Function.update_self task _ _) (Program.ends_run served _ _)
  rw [Function.update_idem] at rest
  exact (Relation.ReflTransGen.tail reachable started).trans rest

end WebServer
end

namespace WebServer

def bob : UserModel := ⟨2, "bob".toList⟩

/-- An app is published, bob logs in and installs it, and opens another that is not there, and the index. -/
def visited : WebServer Nat :=
  let step (server : WebServer Nat) (task : Nat) (cookie : Option Text) (route : Route) :=
    server.serve ⟨1, "s".toList, "./data/apps/c.wasm".toList, "hello".toList⟩ task ⟨cookie, route⟩
  let published := step (initial [bob]) 0 none (.publish "a/b".toList "v".toList "r".toList)
  let loggedIn := step published 1 none (.login 2)
  let installed := step loggedIn 2 (some "s".toList) (.install "a-b".toList "v".toList)
  let opened := step installed 3 (some "s".toList) (.run "a-c".toList)
  step opened 4 (some "s".toList) (.index "host".toList)

private theorem visited_reachable : Reachable [bob] visited := by
  have begun : Reachable [bob] (initial [bob] : WebServer Nat) := .refl
  unfold visited
  exact ((((begun.serve _ rfl _).serve _ rfl _).serve _ rfl _).serve _ rfl _).serve _ rfl _

section
variable {ι : Type} [DecidableEq ι] {users : List UserModel} {server : WebServer ι}

/-- Along every run a request panics only where one of its own calls failed, the user to log in as is not
there, nobody asked for what is a user's, or what was asked for was not there when it looked. -/
theorem panics_have_causes (reachable : Reachable users server) {task : ι} {visitor : Visitor ι}
    {reason : Panic} (ended : server.threads task = .done (some (visitor, .error reason))) :
    Cause users visitor reason server.shared.journal := reachable.holds.post ended visitor (.error reason) rfl

end

theorem panics_have_causes_visited :
    Cause [bob] ⟨3, some "s".toList, .run "a-c".toList⟩ .notFound visited.shared.journal := by
  refine panics_have_causes visited_reachable (show visited.threads 3 = _ from congrArg Program.done ?_)
  decide +kernel

section
variable {ι : Type} [DecidableEq ι] {users : List UserModel} {server : WebServer ι}

/-- What a request was answered was so when it looked, and what it was to do is done. -/
theorem answers_hold (reachable : Reachable users server) {task : ι} {visitor : Visitor ι}
    {response : Response} (ended : server.threads task = .done (some (visitor, .ok response))) :
    Says users visitor response server.shared.journal := reachable.holds.post ended visitor (.ok response) rfl

end

theorem answers_hold_visited : Says [bob] ⟨4, some "s".toList, .index "host".toList⟩
    ⟨.page ⟨"host".toList, some bob.name, [⟨"a-b".toList, "a/b".toList, "v".toList⟩],
      some [⟨"a/b".toList, "v".toList, none⟩], [bob]⟩, []⟩ visited.shared.journal := by
  refine answers_hold visited_reachable (show visited.threads 4 = _ from congrArg Program.done ?_)
  decide +kernel

section
variable {ι : Type} [DecidableEq ι] {users : List UserModel} {server : WebServer ι}

/-- The installed apps are those written last for each user and name, each obtained by a visitor
known as that user. No other is ever run. -/
theorem apps_obtained (reachable : Reachable users server) :
    (∀ app, app ∈ server.shared.state.userApps ↔ Current app server.shared.journal) ∧
      (server.shared.state.userApps.map UserAppModel.key).Nodup ∧
      (∀ app ∈ server.shared.state.userApps, ∃ visitor operation, Obtained visitor operation app server.shared.journal) ∧
      ∀ task caller path next, server.threads task = .call (caller, .run path) next →
        ∃ app, app.path = path ∧ Runnable caller app server.shared.journal ∧
          ∃ visitor operation, Obtained visitor operation app server.shared.journal := by
  obtain ⟨always, sound⟩ := reachable.holds.valid
  refine ⟨sound.current, sound.distinct, fun app inside => ((sound.current app).mp inside).obtained always, ?_⟩
  intro task caller path next waiting
  obtain ⟨app, runnable, same⟩ : ∃ app, Runnable caller app server.shared.journal ∧ app.path = path :=
    reachable.holds.waits waiting
  obtain ⟨entry, earlier, grown, ⟨_, _, current⟩, _, before⟩ := Journal.Once.found runnable.listed always
  obtain ⟨visitor, operation, obtained⟩ := Current.obtained before current
  exact ⟨app, same, runnable, visitor, operation, obtained.later ((List.suffix_cons entry earlier).trans grown)⟩

end

theorem apps_obtained_visited : ∃ visitor operation,
    Obtained visitor operation ⟨2, "a/b".toList, "v".toList, "./data/apps/c.wasm".toList⟩ visited.shared.journal := by
  have installed : (⟨2, "a/b".toList, "v".toList, "./data/apps/c.wasm".toList⟩ : UserAppModel) ∈
      visited.shared.state.userApps := by
    decide +kernel
  exact (apps_obtained visited_reachable).2.2.1 _ installed

end WebServer
end Pos2.Server
