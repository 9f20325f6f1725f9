import Pos2.Server.Answers

/-! Every request to the web server keeps to the rules of its journal, whatever other
requests do between its calls: it panics for a cause, and what it answers is so. -/

namespace Pos2.Server
open Calls

section
variable {ι : Type} {users : List UserModel} {visitor : Visitor ι} {journal longer : SiteJournal ι}

theorem Missing.later (missing : Missing visitor journal) (grown : journal <:+ longer) : Missing visitor longer := by
  unfold Missing at missing ⊢
  split at missing
  · obtain ⟨userId, identified, saw⟩ := missing
    exact ⟨userId, identified.later grown, saw.later grown⟩
  · exact Saw.later missing grown
  · exact Saw.later missing grown
  · exact missing.elim

theorem Cause.later {reason : Panic} (cause : Cause users visitor reason journal) (grown : journal <:+ longer) :
    Cause users visitor reason longer := by
  cases reason with
  | failed error => exact Journal.Once.later cause grown
  | nobody => exact ⟨cause.1, cause.2.later grown⟩
  | notFound => exact Missing.later cause grown
  | _ => exact cause

theorem Welcomes.later {userId : Int} {installed : List InstalledApp} {shown : List AvailableApp}
    (welcomes : Welcomes visitor userId installed shown journal) (grown : journal <:+ longer) :
    Welcomes visitor userId installed shown longer :=
  ⟨welcomes.installed.later grown, welcomes.ascends, welcomes.latest.later grown, welcomes.links.later grown⟩

theorem Shows.later {page : IndexPage} (shows : Shows users visitor page journal) (grown : journal <:+ longer) :
    Shows users visitor page longer := by
  cases shows with
  | stranger unknown userName installed available => exact .stranger (unknown.later grown) userName installed available
  | user user member identified userName shown available welcomes =>
    exact .user user member (identified.later grown) userName shown available (welcomes.later grown)

theorem Says.later {response : Response} (told : Says users visitor response journal) (grown : journal <:+ longer) :
    Says users visitor response longer := by
  unfold Says at told ⊢
  split at told
  · obtain ⟨page, same, host, perm, shows⟩ := told
    exact ⟨page, same, host, perm, shows.later grown⟩
  · obtain ⟨app, text, path, runnable, same, ran⟩ := told
    exact ⟨app, text, path, runnable.later grown, same, ran.later grown⟩
  · exact Journal.Once.later told grown
  · exact Journal.Once.later told grown
  · obtain ⟨id, set, opened⟩ := told
    exact ⟨id, set, opened.later grown⟩
  · refine ⟨told.1, told.2.imp (fun unknown => unknown.later grown) ?_⟩
    rintro ⟨id, cookie, closed⟩
    exact ⟨id, cookie, closed.later grown⟩
  · obtain ⟨apps, same, saw⟩ := told
    exact ⟨apps, same, saw.later grown⟩
  · refine told.imp_right ?_
    rintro ⟨id, same, published⟩
    exact ⟨id, same, Journal.Once.later published grown⟩

/-! ### Parts of handlers -/

section
variable {α β : Type} {excused : Panic → SiteJournal ι → Prop}

/-- A part of a handler that keeps to the rules and is excused where it panics. -/
abbrev Handles (users : List UserModel) (visitor : Visitor ι) (excused : Panic → SiteJournal ι → Prop)
    (post : α → SiteJournal ι → Prop) (handled : Handled α) (journal : SiteJournal ι) : Prop :=
  Raising.Asks (siteRules users) visitor excused post handled journal

abbrev Serves (users : List UserModel) (visitor : Visitor ι) (post : α → SiteJournal ι → Prop) (handled : Handled α)
    (journal : SiteJournal ι) : Prop := Handles users visitor (Cause users visitor) post handled journal

/-- Nothing goes wrong but calls. -/
def OnlyFails (visitor : Visitor ι) (reason : Panic) (journal : SiteJournal ι) : Prop :=
  Failing visitor journal ∧ ∃ error, reason = .failed error

theorem asks_ask {call : ServerCall} {told : call.Value → SiteJournal ι → Prop}
    (failed : ∀ error last, Failing visitor last → excused (.failed error) last)
    (needs : call.Needs users visitor journal)
    (tells : ∀ later value, journal <:+ later → call.Tells users value later → told value (⟨visitor, call, .ok value⟩ :: later)) :
    Handles users visitor excused told (Site.ask call) journal := by
  have asked : Raising.Asks (siteRules users) visitor excused
      (Raising.Ended (fun _ last => Failing visitor last) told) (Raising.ask (I := ServerCalls) call) journal := by
    refine Raising.Asks.ask needs fun later reply grown fits => ?_
    cases reply with
    | ok value => exact tells later value grown (fits value rfl)
    | error error => exact (Journal.Once.here ⟨call, error, rfl⟩ : Failing visitor _)
  refine Raising.Asks.bind asked fun reply later _ ended => Raising.Asks.raise ?_
  cases reply with
  | ok value => exact ended
  | error error => exact failed error later ended

private theorem serves_ask {call : ServerCall} {told : call.Value → SiteJournal ι → Prop}
    (needs : call.Needs users visitor journal)
    (tells : ∀ later value, journal <:+ later → call.Tells users value later → told value (⟨visitor, call, .ok value⟩ :: later)) :
    Serves users visitor told (Site.ask call) journal := asks_ask (fun _ _ failing => failing) needs tells

/-- What a value told when it was asked for. -/
theorem asks_saw {call : ServerCall} (failed : ∀ error last, Failing visitor last → excused (.failed error) last)
    (needs : call.Needs users visitor journal) :
    Handles users visitor excused (fun value last => Saw visitor call (call.Tells users value) last) (Site.ask call) journal :=
  asks_ask failed needs fun _ _ _ tells => Journal.Once.here ⟨rfl, rfl, tells⟩

private theorem serves_saw {call : ServerCall} (needs : call.Needs users visitor journal) :
    Serves users visitor (fun value last => Saw visitor call (call.Tells users value) last) (Site.ask call) journal :=
  asks_saw (fun _ _ failing => failing) needs

private theorem fails_registryIndex : Handles users visitor (OnlyFails visitor)
    (fun apps last => Saw visitor .listRegistryApps (Lists apps) last) Site.registryIndexHandler journal := by
  have fails (error : String) (last : SiteJournal ι) (failing : Failing visitor last) :
      OnlyFails visitor (.failed error) last := ⟨failing, error, rfl⟩
  refine Raising.Asks.bind (asks_saw fails trivial) fun rows listed _ saw => ?_
  have collected : Handles users visitor (OnlyFails visitor) (fun apps _ => apps.Perm (appsMap rows))
      (Site.ask (.intoValues (appsMap rows))) listed := asks_ask fails trivial fun _ _ _ perm => perm
  refine Raising.Asks.bind collected fun apps last grown perm => ?_
  exact Raising.Asks.pure (Saw.mono (Saw.later saw grown) fun _ tells => lists_rows tells perm)

private theorem serves_registryIndex : Serves users visitor
    (fun apps last => Saw visitor .listRegistryApps (Lists apps) last)
    Site.registryIndexHandler journal := by
  refine Raising.Asks.mono fails_registryIndex (fun reason last fails => ?_) fun _ _ saw => saw
  obtain ⟨failing, error, rfl⟩ := fails
  exact failing

/-- The registry that a handler asks is this one. -/
theorem serves_fetchApps : Serves users visitor (fun apps last => Saw visitor .listRegistryApps (Lists apps) last)
    Site.fetchApps journal := by
  refine Raising.Asks.bind (serves_saw trivial) fun _ sent _ _ => ?_
  refine Raising.Asks.bind (Raising.Asks.tryCatch fails_registryIndex fun _ _ fails => ?_) fun apps listed _ saw => ?_
  · exact Raising.Asks.throw fails.1
  refine Raising.Asks.bind (serves_saw trivial) fun _ last grown _ => ?_
  exact Raising.Asks.pure (Saw.later saw grown)

private theorem serves_raise {result : Except Panic α} {value : α} (same : result = .ok value) :
    Serves users visitor (fun found _ => found = value) (Raising.raise result) journal := by
  rw [same]
  exact Raising.Asks.raise rfl

end

/-! ### Handlers -/

/-- What the middleware tells a handler of the visitor. -/
inductive Known (users : List UserModel) (visitor : Visitor ι) (info : UserInfo) (journal : SiteJournal ι) : Prop where
  | stranger (unknown : Unknown visitor journal) (same : info = ⟨none, none, none⟩)
  | user (user : UserModel) (member : user ∈ users) (id : Text) (cookie : visitor.request.cookie = some id)
      (identified : Identified visitor user.id journal) (same : info = ⟨some user.name, some id, some user.id⟩)

theorem Known.later {info : UserInfo} (known : Known users visitor info journal) (grown : journal <:+ longer) :
    Known users visitor info longer := by
  cases known with
  | stranger unknown same => exact .stranger (unknown.later grown) same
  | user user member id cookie identified same => exact .user user member id cookie (identified.later grown) same

/-- The user that a handler asks for, if there is one. -/
theorem Known.id {info : UserInfo} (known : Known users visitor info journal) :
    (info.id = none ∧ Unknown visitor journal) ∨ ∃ userId, info.id = some userId ∧ Identified visitor userId journal := by
  cases known with
  | stranger unknown same => exact .inl ⟨by rw [same], unknown⟩
  | user user member id cookie identified same => exact .inr ⟨user.id, by rw [same], identified⟩

private theorem serves_getUserById {id : Int}
    (allowed : (∀ user ∈ users, user.id ≠ id) → visitor.request.route = .login id) :
    Serves users visitor (fun user _ => user ∈ users ∧ user.id = id) (Site.getUserById id) journal := by
  have asked : Serves users visitor (fun found _ => found = users.find? fun user => user.id = id) (Site.ask (.getUserById id))
      journal := serves_ask trivial fun _ _ _ found => found
  refine Raising.Asks.bind asked fun found later _ same => Raising.Asks.raise ?_
  cases found with
  | none =>
    have nowhere : ∀ user ∈ users, user.id ≠ id := by simpa using same.symm
    exact ⟨id, allowed nowhere, nowhere⟩
  | some user => exact ⟨List.mem_of_find?_eq_some same.symm, by simpa using List.find?_some same.symm⟩

private theorem serves_auth : Serves users visitor (fun result last => Known users visitor result.1 last)
    (Site.authMiddleware visitor.request.cookie) journal := by
  cases cookie : visitor.request.cookie with
  | none =>
    refine Raising.Asks.pure (.stranger (fun id there => ?_) rfl)
    rw [cookie] at there
    cases there
  | some id =>
    have asked : Serves users visitor (fun found last => ∀ info, info = (found.map fun both =>
        (⟨some both.2.name, some both.1.id, some both.2.id⟩ : UserInfo)).getD ⟨none, none, none⟩ →
        Known users visitor info last) (Site.getUserForSession id) journal := by
      refine Raising.Asks.bind (serves_saw trivial) fun found later _ saw => ?_
      cases found with
      | none =>
        refine Raising.Asks.pure fun info same => .stranger (fun other there => ?_) same
        rw [cookie] at there
        cases there
        exact saw
      | some session =>
        obtain ⟨_, named, _, known⟩ := saw.some
        have nowhere (none_ : ∀ user ∈ users, user.id ≠ session.userId) : visitor.request.route = .login session.userId := by
          obtain ⟨user, member, same⟩ := known
          exact absurd same (none_ user member)
        refine Raising.Asks.bind (serves_getUserById nowhere) fun user last grown found => ?_
        refine Raising.Asks.pure fun info same => .user user found.1 session.id (by rw [cookie, named]) ?_ same
        refine ⟨id, cookie, (saw.later grown).mono fun earlier tells => ?_⟩
        rw [found.2, ← tells.1]
        exact tells.2.1
    refine Raising.Asks.bind asked fun found later _ known => ?_
    cases found with
    | none => exact Raising.Asks.pure (known _ rfl)
    | some both => exact Raising.Asks.pure (known _ rfl)

private theorem serves_userId {info : UserInfo} (known : Known users visitor info journal)
    (asked : (∃ path, visitor.request.route = .run path) ∨
      ∃ (operation : Operation) (path version : Text), visitor.request.route = operation.route path version) :
    Serves users visitor (fun userId last => Identified visitor userId last)
      (Raising.raise (Site.orPanic .nobody info.id)) journal := by
  refine Raising.Asks.raise ?_
  rcases known.id with ⟨none_, unknown⟩ | ⟨userId, some_, identified⟩
  · rw [none_]
    exact ⟨asked, unknown⟩
  · rw [some_]
    exact identified

private theorem serves_run {path : Text} {info : UserInfo} (asked : visitor.request.route = .run path)
    (known : Known users visitor info journal) :
    Serves users visitor (fun response last => Says users visitor response last) (Site.runHandler path info) journal := by
  refine Raising.Asks.bind (serves_userId known (.inl ⟨path, asked⟩)) fun userId first _ identified => ?_
  refine Raising.Asks.bind (serves_saw identified) fun apps second grown saw => ?_
  have still := identified.later grown
  obtain ⟨_, tells⟩ := saw.some
  have chosen : Serves users visitor (fun app last => encode app.name = path ∧ Runnable visitor app last)
      (Raising.raise (Site.selectByPath UserAppModel.name path apps)) second := by
    refine Raising.Asks.raise ?_
    rcases selectByPath_cases tells.2.2.2 (List.pairwise_of_forall fun _ _ => trivial) with
      ⟨app, inside, selected, here, _⟩ | ⟨selected, none_⟩
    · rw [selected]
      obtain ⟨rfl, _⟩ := (tells.1 app).mp inside
      refine ⟨here, by rw [asked, here], still, saw.mono fun earlier tells => ?_⟩
      exact ((tells.1 app).mp inside).2
    · rw [selected]
      show Missing visitor second
      unfold Missing
      rw [asked]
      refine ⟨userId, still, saw.mono fun earlier tells name installed => ?_⟩
      obtain ⟨app, inside, rfl⟩ := (tells.2.1 name).mp installed
      exact none_ app inside
  refine Raising.Asks.bind chosen fun app third _ runnable => ?_
  have ran : Serves users visitor (fun text last =>
      Journal.Once (fun (entry : SiteEntry ι) _ => entry = ⟨visitor, .run app.path, .ok text⟩) last) (Site.ask (.run app.path))
      third := serves_ask ⟨app, runnable.2, rfl⟩ fun _ _ _ _ => .here rfl
  refine Raising.Asks.bind ran fun text last grown once => Raising.Asks.pure ?_
  show Says users visitor ⟨.html text, []⟩ last
  unfold Says
  rw [asked]
  exact ⟨app, text, runnable.1, runnable.2.later grown, rfl, once⟩

section
variable {operation : Operation} {path wanted : Text} {info : UserInfo} {app : RegistryApp} {version : RegistryAppVersion}

private theorem missing_absent (asked : visitor.request.route = operation.route path wanted)
    (saw : Saw visitor .listRegistryApps (Absent path wanted) journal) : Missing visitor journal := by
  unfold Missing
  cases operation with
  | installApp =>
    rw [asked]
    exact saw
  | updateApp =>
    rw [asked]
    exact saw

private theorem tells_wrote {response : Response} (asked : visitor.request.route = operation.route path wanted)
    (wrote : Wrote visitor operation path wanted journal) : Says users visitor response journal := by
  unfold Says
  cases operation with
  | installApp =>
    rw [asked]
    exact wrote
  | updateApp =>
    rw [asked]
    exact wrote

/-- A version of an app as the registry had it. -/
structure Offered (app : RegistryApp) (version : RegistryAppVersion) (journal : SiteJournal ι) : Prop where
  named : checkName app.name = true
  published : ∃ row, Published row journal ∧ row.name = app.name ∧ row.asVersion = version

private theorem serves_download (userId : Int) (offered : Offered app version journal) :
    Serves users visitor (fun path last => Downloaded visitor ⟨userId, app.name, version.version, path⟩ last)
      (Site.ask (.downloadApp version.ociReference)) journal := by
  obtain ⟨row, published, name, rfl⟩ := offered.published
  exact serves_ask trivial fun later path grown _ =>
    ⟨row, name, rfl, Journal.Once.here ⟨rfl, Journal.Once.later published grown⟩⟩

/-- What a handler does with the app that it has chosen. -/
def Works (users : List UserModel) (visitor : Visitor ι) (operation : Operation)
    (work : RegistryApp → RegistryAppVersion → Int → Handled Unit) : Prop :=
  ∀ app version userId journal, visitor.request.route = operation.route (encode app.name) version.version →
    Identified visitor userId journal → Offered app version journal →
    Serves users visitor (fun _ last => Wrote visitor operation (encode app.name) version.version last)
      (work app version userId) journal

private theorem dbPath_good (userId : Int) {name : Text} (good : checkName name = true) :
    ∃ path, dbPath userId name = .ok path := by
  rw [dbPath, nameToPath_eq good]
  exact ⟨_, rfl⟩

private theorem works_install : Works users visitor .installApp Site.installApp := by
  intro app version userId journal asked identified offered
  refine Raising.Asks.bind (serves_download userId offered) fun path first grown downloaded => ?_
  obtain ⟨dir, made⟩ := dbPath_good userId offered.named
  refine Raising.Asks.bind (serves_raise (congrArg (Except.mapError _) made)) fun _ second grown' _ => ?_
  refine Raising.Asks.bind (serves_saw trivial) fun _ third grown'' _ => ?_
  have before := grown'.trans grown''
  exact serves_ask ⟨asked, identified.later (grown.trans before), downloaded.later before⟩ fun _ _ _ _ =>
    Journal.Once.here ⟨rfl, _, rfl, rfl, rfl⟩

private theorem works_update : Works users visitor .updateApp Site.updateApp := by
  intro app version userId journal asked identified offered
  refine Raising.Asks.bind (serves_download userId offered) fun path first grown downloaded => ?_
  exact serves_ask ⟨asked, identified.later grown, downloaded⟩ fun _ _ _ _ => Journal.Once.here ⟨rfl, _, rfl, rfl, rfl⟩

private theorem serves_withApp {work : RegistryApp → RegistryAppVersion → Int → Handled Unit}
    (works : Works users visitor operation work) (asked : visitor.request.route = operation.route path wanted)
    (known : Known users visitor info journal) :
    Serves users visitor (fun response last => Says users visitor response last) (Site.withApp work path wanted info)
      journal := by
  refine Raising.Asks.bind serves_fetchApps fun apps first grown saw => ?_
  obtain ⟨_, lists⟩ := saw.some
  have chosen : Serves users visitor (fun app _ => app ∈ apps ∧ encode app.name = path ∧
      ∀ other ∈ apps, encode other.name = path → other = app ∨ app.name < other.name)
      (Raising.raise (Site.selectByPath RegistryApp.name path apps)) first := by
    refine Raising.Asks.raise ?_
    rcases selectByPath_cases lists.named lists.ascends with ⟨app, inside, selected, here, least⟩ | ⟨selected, none_⟩
    · rw [selected]
      exact ⟨inside, here, least⟩
    · rw [selected]
      exact missing_absent asked (saw.mono fun _ lists => lists.absent_path none_)
  refine Raising.Asks.bind chosen fun app second grown' found => ?_
  obtain ⟨inside, rfl, least⟩ := found
  have taken : Serves users visitor (fun version _ => version ∈ app.versions ∧ version.version = wanted)
      (Raising.raise (Site.orPanic .notFound (app.versions.find? fun here => here.version = wanted))) second := by
    refine Raising.Asks.raise ?_
    cases found : app.versions.find? fun here => here.version = wanted with
    | none =>
      refine missing_absent asked ((saw.later grown').mono fun _ lists => lists.absent inside least rfl ?_)
      simpa using found
    | some version => exact ⟨List.mem_of_find?_eq_some found, by simpa using List.find?_some found⟩
  refine Raising.Asks.bind taken fun version third grown'' found => ?_
  obtain ⟨member, rfl⟩ := found
  have before := grown'.trans grown''
  refine Raising.Asks.bind (serves_userId (known.later (grown.trans before)) (.inr ⟨_, _, _, asked⟩))
    fun userId fourth grown''' identified => ?_
  have offered : Offered app version fourth := by
    obtain ⟨entry, earlier, past, _, _, lists⟩ := Journal.once_iff.mp saw
    obtain ⟨row, published, name, same⟩ := (lists.published app.name version).mp ⟨app, inside, rfl, member⟩
    have longer := (List.suffix_cons entry earlier).trans (past.trans (before.trans grown'''))
    exact ⟨lists.named app inside, row, Journal.Once.later published longer, name, same⟩
  refine Raising.Asks.bind (works app version userId fourth asked identified offered) fun _ last _ wrote => ?_
  exact Raising.Asks.pure (tells_wrote asked wrote)

end

private theorem serves_login {userId : Int} (asked : visitor.request.route = .login userId) :
    Serves users visitor (fun response last => Says users visitor response last) (Site.loginHandler userId) journal := by
  refine Raising.Asks.bind (serves_getUserById fun _ => asked) fun user first _ found => ?_
  obtain ⟨member, rfl⟩ := found
  refine Raising.Asks.bind (serves_saw trivial) fun id second _ _ => ?_
  have opened : Serves users visitor (fun _ last =>
      Journal.Once (fun (entry : SiteEntry ι) _ => entry = ⟨visitor, .insertSession id user.id, .ok ()⟩) last)
      (Site.ask (.insertSession id user.id)) second := serves_ask ⟨asked, user, member, rfl⟩ fun _ _ _ _ => .here rfl
  refine Raising.Asks.bind opened fun _ last _ once => Raising.Asks.pure ?_
  show Says users visitor ⟨.redirect _, [.session id]⟩ last
  unfold Says
  rw [asked]
  exact ⟨id, List.mem_singleton.mpr rfl, once⟩

private theorem serves_logout {info : UserInfo} (asked : visitor.request.route = .logout)
    (known : Known users visitor info journal) :
    Serves users visitor (fun response last => Says users visitor response last) (Site.logoutHandler info) journal := by
  have closed : Serves users visitor (fun _ last => Says users visitor ⟨.redirect Site.loginUrl, [.removed]⟩ last)
      (Site.deleteSession info.sessionId) journal := by
    cases known with
    | stranger unknown same =>
      rw [same]
      refine Raising.Asks.pure ?_
      unfold Says
      rw [asked]
      exact ⟨List.mem_singleton.mpr rfl, .inl unknown⟩
    | user user member id cookie identified same =>
      rw [same]
      refine serves_ask ⟨asked, cookie⟩ fun later _ _ _ => ?_
      unfold Says
      rw [asked]
      exact ⟨List.mem_singleton.mpr rfl, .inr ⟨id, cookie, .here rfl⟩⟩
  exact Raising.Asks.bind closed fun _ last _ told => Raising.Asks.pure told

private theorem serves_publish {name version ociReference : Text}
    (asked : visitor.request.route = .publish name version ociReference) :
    Serves users visitor (fun response last => Says users visitor response last)
      (Site.registryPublishHandler name version ociReference) journal := by
  unfold Site.registryPublishHandler
  by_cases good : checkName name = true
  · rw [good]
    have published : Serves users visitor (fun id last => Published ⟨id, name, version, ociReference⟩ last)
        (Site.ask (.insertRegistryApp name version ociReference)) journal :=
      serves_ask ⟨asked, good⟩ fun _ _ _ _ => .here rfl
    refine Raising.Asks.bind published fun id last _ once => Raising.Asks.pure ?_
    show Says users visitor ⟨.id id, []⟩ last
    unfold Says
    rw [asked]
    exact .inr ⟨id, rfl, once⟩
  · rw [Bool.not_eq_true] at good
    rw [good]
    refine Raising.Asks.pure ?_
    show Says users visitor ⟨.badRequest, []⟩ journal
    unfold Says
    rw [asked]
    exact .inl ⟨good, rfl⟩

private theorem serves_index {host : Text} {info : UserInfo} (asked : visitor.request.route = .index host)
    (known : Known users visitor info journal) :
    Serves users visitor (fun response last => Says users visitor response last) (Site.indexHandler host info) journal := by
  refine Raising.Asks.bind serves_fetchApps fun apps first grown saw => ?_
  have listed : Serves users visitor (fun found _ => found.Perm users) (Site.ask .listUsers) first :=
    serves_ask trivial fun _ _ _ perm => perm
  refine Raising.Asks.bind listed fun found second grown' perm => ?_
  have shown_ {page : IndexPage} {last : SiteJournal ι} (same : page.host = host) (users_ : page.users = found)
      (shows : Shows users visitor page last) : Says users visitor ⟨.page page, []⟩ last := by
    unfold Says
    rw [asked]
    exact ⟨page, rfl, same, users_ ▸ perm, shows⟩
  cases known.later (grown.trans grown') with
  | stranger unknown same =>
    rw [same]
    obtain ⟨_, lists⟩ := saw.some
    obtain ⟨latest, withLatest, _⟩ := withLatest_last lists
    have nothing : Serves users visitor (fun userApps _ => userApps = []) (Site.listUserApps none) second :=
      Raising.Asks.pure rfl
    refine Raising.Asks.bind nothing fun userApps third grown'' same => ?_
    rw [same]
    refine Raising.Asks.bind (serves_raise withLatest) fun _ fourth later same => ?_
    rw [same]
    refine Raising.Asks.bind (serves_raise (rfl : Site.installedApps [] = .ok [])) fun _ fifth later' same => ?_
    rw [same]
    refine Raising.Asks.bind (serves_raise (rfl : Site.availableTo none [] latest = .ok none)) fun _ last later'' same =>
      Raising.Asks.pure ?_
    rw [same]
    have past := grown''.trans (later.trans (later'.trans later''))
    exact shown_ rfl rfl (.stranger (unknown.later past) rfl rfl rfl)
  | user user member id cookie identified same =>
    rw [same]
    refine Raising.Asks.bind (serves_saw identified : Serves users visitor _ (Site.listUserApps (some user.id)) second)
      fun userApps third grown'' own => ?_
    obtain ⟨latest, installed, shown, withLatest, installedApps, availableApps, welcomes⟩ :=
      welcomes_shown (saw.later (grown'.trans grown'')) own
    refine Raising.Asks.bind (serves_raise withLatest) fun _ fourth later same => ?_
    rw [same]
    refine Raising.Asks.bind (serves_raise installedApps) fun _ fifth later' same => ?_
    rw [same]
    have available : Site.availableTo (some user.name) userApps latest = .ok (some shown) := by
      rw [Site.availableTo, availableApps]
      rfl
    refine Raising.Asks.bind (serves_raise available) fun _ last later'' same => Raising.Asks.pure ?_
    rw [same]
    have past := later.trans (later'.trans later'')
    exact shown_ rfl rfl (.user user member (identified.later (grown''.trans past)) rfl shown rfl (welcomes.later past))

private theorem serves_dispatch {info : UserInfo} (known : Known users visitor info journal) :
    Serves users visitor (fun response last => Says users visitor response last) (Site.dispatch info visitor.request.route)
      journal := by
  cases asked : visitor.request.route with
  | index host => exact serves_index asked known
  | run path => exact serves_run asked known
  | install path version => exact serves_withApp works_install asked known
  | update path version => exact serves_withApp works_update asked known
  | login userId => exact serves_login asked
  | logout => exact serves_logout asked known
  | registry =>
    refine Raising.Asks.bind serves_registryIndex fun apps last _ saw => Raising.Asks.pure ?_
    show Says users visitor ⟨.apps apps, []⟩ last
    unfold Says
    rw [asked]
    exact ⟨apps, rfl, saw⟩
  | publish name version ociReference => exact serves_publish asked

/-- Cookies that the middleware adds change nothing of it. -/
theorem Says.cookies {response : Response} (told : Says users visitor response journal) (more : List SetCookie) :
    Says users visitor { response with cookies := response.cookies ++ more } journal := by
  unfold Says at told ⊢
  split at told
  · exact told
  · exact told
  · exact told
  · exact told
  · obtain ⟨id, set, opened⟩ := told
    exact ⟨id, List.mem_append_left _ set, opened⟩
  · exact ⟨List.mem_append_left _ told.1, told.2⟩
  · exact told
  · exact told

theorem serves_handle : Serves users visitor (fun response last => Says users visitor response last)
    (Site.handle visitor.request) [] := by
  refine Raising.Asks.bind serves_auth fun result first _ known => ?_
  obtain ⟨info, removed⟩ := result
  refine Raising.Asks.bind (serves_dispatch known) fun response last _ told => Raising.Asks.pure ?_
  exact told.cookies _

end
end Pos2.Server
