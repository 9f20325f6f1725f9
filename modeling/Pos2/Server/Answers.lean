import Pos2.Server.History

/-! What visitors of the web server are told, and what a handler that panics is excused
by, whatever other visitors do between its calls. -/

namespace Pos2.Server
open Calls

section
variable {ι : Type}

def Failing (visitor : Visitor ι) : SiteJournal ι → Prop :=
  Journal.Once fun entry _ => ∃ (call : ServerCall) (error : String), entry = ⟨visitor, call, .error error⟩

/-- Where the version was published under a name of the path, another name comes first. -/
def Absent (path version : Text) (journal : SiteJournal ι) : Prop :=
  ∀ row, Published row journal → encode row.name = path → row.version = version →
    ∃ other, Published other journal ∧ encode other.name = path ∧ other.name < row.name

/-- What the visitor asked for was not there when it looked. -/
def Missing (visitor : Visitor ι) (journal : SiteJournal ι) : Prop :=
  match visitor.request.route with
  | .run path => ∃ userId, Identified visitor userId journal ∧ Saw visitor (.listUserAppsByUserId userId)
    (fun earlier => ∀ name, Installed (userId, name) earlier → encode name ≠ path) journal
  | .install path version | .update path version => Saw visitor .listRegistryApps (Absent path version) journal
  | _ => False

def Cause (users : List UserModel) (visitor : Visitor ι) : Panic → SiteJournal ι → Prop
  | .failed _, journal => Failing visitor journal
  | .noRows, _ => ∃ id, visitor.request.route = .login id ∧ ∀ user ∈ users, user.id ≠ id
  | .nobody, journal => ((∃ path, visitor.request.route = .run path) ∨
      ∃ (operation : Operation) (path version : Text), visitor.request.route = operation.route path version) ∧
    Unknown visitor journal
  | .notFound, journal => Missing visitor journal
  | .badName, _ | .noVersions, _ => False

/-- Each name with all the versions that it was published with. -/
structure Lists (apps : List RegistryApp) (journal : SiteJournal ι) : Prop where
  ascends : apps.Pairwise fun first second => first.name < second.name
  versions : ∀ app ∈ apps, app.versions.Pairwise fun first second => first.version ≤ second.version
  nonempty : ∀ app ∈ apps, app.versions ≠ []
  named : ∀ app ∈ apps, checkName app.name = true
  published : ∀ name version, (∃ app ∈ apps, app.name = name ∧ version ∈ app.versions) ↔
    ∃ row, Published row journal ∧ row.name = name ∧ row.asVersion = version

def Latest (name version : Text) (journal : SiteJournal ι) : Prop :=
  (∃ row, Published row journal ∧ row.name = name ∧ row.version = version) ∧
    ∀ row, Published row journal → row.name = name → row.version ≤ version

/-- The link by an app says what the user can do with it. -/
def LinksTo (userId : Int) (app : AvailableApp) (journal : SiteJournal ι) : Prop :=
  match app.link with
  | none => ∃ path, Current ⟨userId, app.name, app.version, path⟩ journal
  | some ⟨.installApp, path, version⟩ =>
    path = encode app.name ∧ version = app.version ∧ ¬ Installed (userId, app.name) journal
  | some ⟨.updateApp, path, version⟩ =>
    path = encode app.name ∧ version = app.version ∧
      ∃ old here, old ≠ app.version ∧ Current ⟨userId, app.name, old, here⟩ journal

/-- What the user has, and what there is, each as it was when the visitor looked. -/
structure Welcomes (visitor : Visitor ι) (userId : Int) (installed : List InstalledApp) (shown : List AvailableApp)
    (journal : SiteJournal ι) : Prop where
  installed : Saw visitor (.listUserAppsByUserId userId) (fun earlier => ∀ item, item ∈ installed ↔
    ∃ app, Current app earlier ∧ app.userId = userId ∧ item = ⟨encode app.name, app.name, app.version⟩) journal
  ascends : shown.Pairwise fun first second => first.name < second.name
  latest : Saw visitor .listRegistryApps (fun earlier => ∀ name version,
    (∃ app ∈ shown, app.name = name ∧ app.version = version) ↔ Latest name version earlier) journal
  links : Saw visitor (.listUserAppsByUserId userId) (fun earlier => ∀ app ∈ shown, LinksTo userId app earlier) journal

inductive Shows (users : List UserModel) (visitor : Visitor ι) (page : IndexPage) (journal : SiteJournal ι) : Prop where
  | stranger (unknown : Unknown visitor journal) (userName : page.userName = none) (installed : page.installed = [])
      (available : page.available = none)
  | user (user : UserModel) (member : user ∈ users) (identified : Identified visitor user.id journal)
      (userName : page.userName = some user.name) (shown : List AvailableApp) (available : page.available = some shown)
      (welcomes : Welcomes visitor user.id page.installed shown journal)

/-- The call that writes the app of the path and version for the visitor was answered with `Ok`. For an `UPDATE` this
says nothing of how many rows it found. -/
def Wrote (visitor : Visitor ι) (operation : Operation) (path version : Text) : SiteJournal ι → Prop :=
  Journal.Once fun entry _ => entry.caller = visitor ∧ ∃ app, changeOf entry = some (.wrote operation app) ∧
    encode app.name = path ∧ app.version = version

def Says (users : List UserModel) (visitor : Visitor ι) (response : Response) (journal : SiteJournal ι) : Prop :=
  match visitor.request.route with
  | .index host => ∃ page, response.body = .page page ∧ page.host = host ∧ page.users.Perm users ∧ Shows users visitor page journal
  | .run path => ∃ app text, encode app.name = path ∧ Runnable visitor app journal ∧ response.body = .html text ∧
    Journal.Once (fun (entry : SiteEntry ι) _ => entry = ⟨visitor, .run app.path, .ok text⟩) journal
  | .install path version => Wrote visitor .installApp path version journal
  | .update path version => Wrote visitor .updateApp path version journal
  | .login userId => ∃ id, .session id ∈ response.cookies ∧
    Journal.Once (fun (entry : SiteEntry ι) _ => entry = ⟨visitor, .insertSession id userId, .ok ()⟩) journal
  -- The jar has no cookie any more; the browser is told so if it had sent one.
  | .logout => .removed ∈ response.cookies ∧ (Unknown visitor journal ∨ ∃ id, visitor.request.cookie = some id ∧
    Journal.Once (fun (entry : SiteEntry ι) _ => entry = ⟨visitor, .deleteSession id, .ok ()⟩) journal)
  | .registry => ∃ apps, response.body = .apps apps ∧ Saw visitor .listRegistryApps (Lists apps) journal
  | .publish name version ociReference => (checkName name = false ∧ response.body = .badRequest) ∨
    ∃ id, response.body = .id id ∧ Published ⟨id, name, version, ociReference⟩ journal

/-! ### Lists -/

section
variable {users : List UserModel} {journal : SiteJournal ι} {rows : List RegistryAppModel} {apps : List RegistryApp}

theorem lists_rows (tells : ServerCall.listRegistryApps.Tells users rows journal) (perm : apps.Perm (appsMap rows)) :
    Lists (sortApps apps) journal := by
  obtain ⟨listed, ordered, good⟩ := tells
  have inside (app : RegistryApp) : app ∈ sortApps apps ↔ app ∈ appsMap rows := by
    rw [sortApps, Keyed.mem_sorted, perm.mem_iff]
  refine ⟨?_, fun app there => ?_, fun app there => ?_, fun app there => ?_, fun name version => ?_⟩
  · have strict := Keyed.sorted_strict ((perm.map _).nodup_iff.mpr (appsMap_distinct rows))
    rwa [List.pairwise_map] at strict
  · rw [(mem_appsMap.mp ((inside app).mp there)).2, List.pairwise_map]
    refine (ordered.filter _).imp_of_mem fun {first second} left right before => ?_
    have same : first.name = second.name :=
      (of_decide_eq_true (List.mem_filter.mp left).2).trans (of_decide_eq_true (List.mem_filter.mp right).2).symm
    rcases before with before | before
    · rw [same] at before
      exact absurd before (lt_irrefl _)
    · exact before.2
  · exact versions_ne_nil ((inside app).mp there)
  · obtain ⟨row, member, same⟩ := List.mem_map.mp (mem_appsMap.mp ((inside app).mp there)).1
    rw [← same]
    exact good row member
  · constructor
    · rintro ⟨app, there, rfl, member⟩
      rw [(mem_appsMap.mp ((inside app).mp there)).2] at member
      obtain ⟨row, kept, same⟩ := List.mem_map.mp member
      obtain ⟨here, named⟩ := List.mem_filter.mp kept
      exact ⟨row, (listed row).mp here, of_decide_eq_true named, same⟩
    · rintro ⟨row, published, rfl, rfl⟩
      have member := (listed row).mpr published
      have named : row.name ∈ rows.map RegistryAppModel.name := List.mem_map.mpr ⟨row, member, rfl⟩
      refine ⟨⟨row.name, (rows.filter fun other => other.name = row.name).map RegistryAppModel.asVersion⟩, ?_, rfl, ?_⟩
      · exact (inside _).mpr (mem_appsMap.mpr ⟨named, rfl⟩)
      · exact List.mem_map.mpr ⟨row, List.mem_filter.mpr ⟨member, decide_eq_true rfl⟩, rfl⟩

namespace Lists
variable (lists : Lists apps journal)
include lists

private theorem same_name {first second : RegistryApp} (left : first ∈ apps) (right : second ∈ apps)
    (same : first.name = second.name) :
    first = second := by
  have distinct : (apps.map RegistryApp.name).Nodup := List.pairwise_map.mpr (lists.ascends.imp ne_of_lt)
  exact List.inj_on_of_nodup_map distinct left right same

private theorem latest_last {app : RegistryApp} (inside : app ∈ apps) {version : RegistryAppVersion}
    (last : app.versions.getLast? = some version) : Latest app.name version.version journal := by
  have member := List.mem_of_getLast? last
  constructor
  · obtain ⟨row, published, name, same⟩ := (lists.published app.name version).mp ⟨app, inside, rfl, member⟩
    exact ⟨row, published, name, congrArg RegistryAppVersion.version same⟩
  · intro row published name
    obtain ⟨other, there, same, member'⟩ := (lists.published app.name row.asVersion).mpr ⟨row, published, name, rfl⟩
    rw [lists.same_name there inside same] at member'
    obtain ⟨front, same⟩ := List.getLast?_eq_some_iff.mp last
    have ordered := lists.versions app inside
    rw [same, List.pairwise_append] at ordered
    rw [same, List.mem_append, List.mem_singleton] at member'
    rcases member' with before | here
    · exact ordered.2.2 _ before _ (List.mem_singleton.mpr rfl)
    · exact le_of_eq (congrArg RegistryAppVersion.version here)

private theorem last_latest {name version : Text} (latest : Latest name version journal) :
    ∃ app ∈ apps, app.name = name ∧ ∃ last, app.versions.getLast? = some last ∧ last.version = version := by
  obtain ⟨⟨row, published, rfl, rfl⟩, greatest⟩ := latest
  obtain ⟨app, inside, same, _⟩ := (lists.published row.name row.asVersion).mpr ⟨row, published, rfl, rfl⟩
  have last : app.versions.getLast? = some _ := List.getLast?_eq_some_getLast (lists.nonempty app inside)
  refine ⟨app, inside, same, _, last, ?_⟩
  obtain ⟨⟨other, published', name, version⟩, above⟩ := lists.latest_last inside last
  refine le_antisymm ?_ (above row published same.symm)
  rw [← version]
  exact greatest other published' (name.trans same)

/-- Of the apps with the path the first was taken, and it has no such version. -/
theorem absent {path version : Text} {app : RegistryApp} (inside : app ∈ apps)
    (first : ∀ other ∈ apps, encode other.name = path → other = app ∨ app.name < other.name)
    (here : encode app.name = path) (none_ : ∀ there ∈ app.versions, there.version ≠ version) : Absent path version journal := by
  intro row published named same
  obtain ⟨other, inside', name, member⟩ := (lists.published row.name row.asVersion).mpr ⟨row, published, rfl, rfl⟩
  have less : app.name < row.name := by
    rcases first other inside' (by rw [name, named]) with rfl | less
    · exact absurd same (none_ row.asVersion member)
    · rwa [← name]
  obtain ⟨last, rest⟩ := List.exists_mem_of_ne_nil _ (lists.nonempty app inside)
  obtain ⟨taken, published', name', _⟩ := (lists.published app.name last).mp ⟨app, inside, rfl, rest⟩
  exact ⟨taken, published', by rw [name', here], by rwa [name']⟩

theorem absent_path {path version : Text} (none_ : ∀ app ∈ apps, encode app.name ≠ path) : Absent path version journal := by
  intro row published named _
  obtain ⟨app, inside, name, _⟩ := (lists.published row.name row.asVersion).mpr ⟨row, published, rfl, rfl⟩
  exact absurd (by rw [name, named]) (none_ app inside)

end Lists
end

/-! ### What is worked out of lists -/

theorem mapM_keys {α β κ ε : Type} {function : α → Except ε β} {key : α → κ} {named : β → κ} {relates : α → β → Prop}
    {items : List α} (each : ∀ item ∈ items, ∃ value, function item = .ok value ∧ named value = key item ∧ relates item value) :
    ∃ values, items.mapM function = .ok values ∧ values.map named = items.map key ∧
      ∀ value ∈ values, ∃ item ∈ items, relates item value := by
  induction items with
  | nil => exact ⟨[], rfl, rfl, fun value inside => absurd inside List.not_mem_nil⟩
  | cons item items ih =>
    obtain ⟨value, first, same, related⟩ := each item (List.mem_cons_self ..)
    obtain ⟨values, rest, keys, all⟩ := ih fun other inside => each other (List.mem_cons_of_mem _ inside)
    refine ⟨value :: values, ?_, by rw [List.map_cons, List.map_cons, same, keys], fun other inside => ?_⟩
    · rw [List.mapM_cons, first, rest]
      rfl
    · rcases List.mem_cons.mp inside with rfl | inside
      · exact ⟨item, List.mem_cons_self .., related⟩
      · obtain ⟨from_, there, related⟩ := all other inside
        exact ⟨from_, List.mem_cons_of_mem _ there, related⟩

private theorem pathOf_good {name : Text} (good : checkName name = true) : Site.pathOf name = .ok (encode name) := by
  rw [Site.pathOf, nameToPath_eq good]
  rfl

/-- Where names are good ones the first with the path is taken. -/
theorem selectByPath_cases {α : Type} {name : α → Text} {path : Text} {precedes : α → α → Prop} {items : List α}
    (good : ∀ item ∈ items, checkName (name item) = true) (ordered : items.Pairwise precedes) :
    (∃ item ∈ items, Site.selectByPath name path items = .ok item ∧ encode (name item) = path ∧
      ∀ other ∈ items, encode (name other) = path → other = item ∨ precedes item other) ∨
    Site.selectByPath name path items = .error .notFound ∧ ∀ item ∈ items, encode (name item) ≠ path := by
  induction items with
  | nil => exact .inr ⟨rfl, fun item inside => absurd inside List.not_mem_nil⟩
  | cons first rest ih =>
    have known := pathOf_good (good first (List.mem_cons_self ..))
    obtain ⟨before, ordered⟩ := List.pairwise_cons.mp ordered
    by_cases here : encode (name first) = path
    · refine .inl ⟨first, List.mem_cons_self .., ?_, here, fun other inside _ => ?_⟩
      · simp [Site.selectByPath, known, here]
      · exact (List.mem_cons.mp inside).imp_right (before other)
    · have passed : Site.selectByPath name path (first :: rest) = Site.selectByPath name path rest := by
        simp [Site.selectByPath, known, here]
      rw [passed]
      refine (ih (fun item inside => good item (List.mem_cons_of_mem _ inside)) ordered).imp ?_ ?_
      · rintro ⟨item, inside, selected, there, least⟩
        refine ⟨item, List.mem_cons_of_mem _ inside, selected, there, fun other inside' same => ?_⟩
        rcases List.mem_cons.mp inside' with rfl | inside'
        · exact absurd same here
        · exact least other inside' same
      · rintro ⟨selected, none_⟩
        refine ⟨selected, fun item inside => ?_⟩
        rcases List.mem_cons.mp inside with rfl | inside
        · exact here
        · exact none_ item inside

section
variable {users : List UserModel} {journal : SiteJournal ι} {userId : Int} {userApps : List UserAppModel}
  (tells : (ServerCall.listUserAppsByUserId userId).Tells users userApps journal)
include tells

private theorem linkFor_links {app : RegistryApp} (version : RegistryAppVersion) (good : checkName app.name = true) :
    ∃ link, Site.linkFor userApps app version = .ok link ∧ LinksTo userId ⟨app.name, version.version, link⟩ journal := by
  obtain ⟨listed, installed, _⟩ := tells
  have path := pathOf_good good
  cases found : userApps.reverse.find? fun installed => installed.name = app.name with
  | none =>
    refine ⟨some ⟨.installApp, encode app.name, version.version⟩, by simp only [Site.linkFor, found, path, Except.map], rfl, rfl, ?_⟩
    rw [installed]
    rintro ⟨there, inside, same⟩
    have differs := List.find?_eq_none.mp found there (List.mem_reverse.mpr inside)
    simp [same] at differs
  | some there =>
    have same : there.name = app.name := by simpa using List.find?_some found
    obtain ⟨user, current⟩ := (listed there).mp (List.mem_reverse.mp (List.mem_of_find?_eq_some found))
    rw [show there = ⟨userId, app.name, there.version, there.path⟩ by rw [← same, ← user]] at current
    by_cases again : there.version = version.version
    · refine ⟨none, by simp only [Site.linkFor, found, if_pos again], there.path, ?_⟩
      rwa [again] at current
    · refine ⟨some ⟨.updateApp, encode app.name, version.version⟩, ?_, rfl, rfl, there.version, there.path, again, current⟩
      simp only [Site.linkFor, found, if_neg again, path, Except.map]

private theorem installedApps_current :
    ∃ installed, Site.installedApps userApps = .ok installed ∧ ∀ item, item ∈ installed ↔
    ∃ app, Current app journal ∧ app.userId = userId ∧ item = ⟨encode app.name, app.name, app.version⟩ := by
  obtain ⟨listed, _, _, good⟩ := tells
  obtain ⟨installed, same, keys, _⟩ : ∃ installed, Site.installedApps userApps = .ok installed ∧
      installed.map id = userApps.map (fun app => (⟨encode app.name, app.name, app.version⟩ : InstalledApp)) ∧
      ∀ item ∈ installed, ∃ app ∈ userApps, True :=
    mapM_keys fun app inside => ⟨_, by rw [pathOf_good (good app inside)]; rfl, rfl, trivial⟩
  rw [List.map_id] at keys
  refine ⟨installed, same, fun item => ?_⟩
  rw [keys, List.mem_map]
  constructor
  · rintro ⟨app, inside, rfl⟩
    obtain ⟨user, current⟩ := (listed app).mp inside
    exact ⟨app, current, user, rfl⟩
  · rintro ⟨app, current, user, rfl⟩
    exact ⟨app, (listed app).mpr ⟨user, current⟩, rfl⟩

private theorem availableApps_links {latest : List (RegistryApp × RegistryAppVersion)}
    (good : ∀ pair ∈ latest, checkName pair.1.name = true) :
    ∃ shown, Site.availableApps userApps latest = .ok shown ∧
      shown.map AvailableApp.name = latest.map (fun pair => pair.1.name) ∧
      ∀ item ∈ shown, ∃ pair ∈ latest, item.name = pair.1.name ∧ item.version = pair.2.version ∧ LinksTo userId item journal := by
  refine mapM_keys fun pair inside => ?_
  obtain ⟨app, version⟩ := pair
  obtain ⟨link, same, links⟩ := linkFor_links tells version (good (app, version) inside)
  have linked : (do
      let link ← Site.linkFor userApps app version
      return (⟨app.name, version.version, link⟩ : AvailableApp)) = .ok ⟨app.name, version.version, link⟩ := by
    rw [same]
    rfl
  exact ⟨_, linked, rfl, rfl, rfl, links⟩

end

theorem Latest.unique {name version other : Text} {journal : SiteJournal ι} (latest : Latest name version journal)
    (again : Latest name other journal) : version = other := by
  obtain ⟨⟨first, published, named, same⟩, above⟩ := latest
  obtain ⟨⟨second, published', named', same'⟩, above'⟩ := again
  refine le_antisymm ?_ ?_
  · rw [← same]
    exact above' first published named
  · rw [← same']
    exact above second published' named'

theorem withLatest_last {apps : List RegistryApp} {journal : SiteJournal ι} (lists : Lists apps journal) :
    ∃ latest, Site.withLatest apps = .ok latest ∧ latest.map Prod.fst = apps ∧
      ∀ pair ∈ latest, ∃ app ∈ apps, pair.1 = app ∧ app.versions.getLast? = some pair.2 := by
  obtain ⟨latest, same, keys, all⟩ : ∃ latest, Site.withLatest apps = .ok latest ∧ latest.map Prod.fst = apps.map id ∧
      ∀ pair ∈ latest, ∃ app ∈ apps, pair.1 = app ∧ app.versions.getLast? = some pair.2 := by
    refine mapM_keys fun app inside => ?_
    have last := List.getLast?_eq_some_getLast (lists.nonempty app inside)
    exact ⟨(app, _), by rw [last]; rfl, rfl, rfl, last⟩
  exact ⟨latest, same, keys.trans (List.map_id apps), all⟩

/-- What an index page shows, by what the visitor saw. -/
theorem welcomes_shown {users : List UserModel} {visitor : Visitor ι} {userId : Int} {journal : SiteJournal ι}
    {apps : List RegistryApp} {userApps : List UserAppModel}
    (registry : Saw visitor .listRegistryApps (Lists apps) journal)
    (own : Saw visitor (.listUserAppsByUserId userId) ((ServerCall.listUserAppsByUserId userId).Tells users userApps) journal) :
    ∃ latest installed shown, Site.withLatest apps = .ok latest ∧ Site.installedApps userApps = .ok installed ∧
      Site.availableApps userApps latest = .ok shown ∧ Welcomes visitor userId installed shown journal := by
  obtain ⟨listing, lists⟩ := registry.some
  obtain ⟨mine, tells⟩ := own.some
  obtain ⟨latest, withLatest, apps_eq, last⟩ := withLatest_last lists
  have good : ∀ pair ∈ latest, checkName pair.1.name = true := by
    intro pair inside
    obtain ⟨app, there, same, _⟩ := last pair inside
    rw [same]
    exact lists.named app there
  obtain ⟨installed, installedApps, _⟩ := installedApps_current tells
  obtain ⟨shown, availableApps, names, from_⟩ := availableApps_links tells good
  have named : shown.map AvailableApp.name = apps.map RegistryApp.name := by
    rw [names, ← apps_eq, List.map_map]
    rfl
  refine ⟨latest, installed, shown, withLatest, installedApps, availableApps, ?_, ?_, ?_, ?_⟩
  · refine own.mono fun earlier tells => ?_
    obtain ⟨again, same, all⟩ := installedApps_current tells
    rw [installedApps] at same
    cases same
    exact all
  · rw [← List.pairwise_map, named, List.pairwise_map]
    exact lists.ascends
  · refine registry.mono fun earlier lists name version => ?_
    have latest_of : ∀ item ∈ shown, Latest item.name item.version earlier := by
      intro item inside
      obtain ⟨pair, there, name, version, _⟩ := from_ item inside
      obtain ⟨app, member, same, last⟩ := last pair there
      rw [name, version, same]
      exact lists.latest_last member last
    constructor
    · rintro ⟨item, inside, rfl, rfl⟩
      exact latest_of item inside
    · intro latest
      obtain ⟨app, inside, same, _⟩ := lists.last_latest latest
      have member : name ∈ shown.map AvailableApp.name := by
        rw [named, ← same]
        exact List.mem_map_of_mem inside
      obtain ⟨item, there, rfl⟩ := List.mem_map.mp member
      exact ⟨item, there, rfl, (latest_of item there).unique latest⟩
  · refine own.mono fun earlier tells item inside => ?_
    obtain ⟨again, same, _, links⟩ := availableApps_links tells good
    rw [availableApps] at same
    cases same
    obtain ⟨_, _, _, _, linked⟩ := links item inside
    exact linked

end
end Pos2.Server
