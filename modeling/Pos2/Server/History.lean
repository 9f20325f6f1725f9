import Pos2.Server.NamePaths
import Pos2.Server.Site

/-! What the journal of the web server says of its database: every table follows from the
calls that were answered, and every row from a request that was entitled to it. -/

namespace Pos2.Server
open Calls

structure Visitor (ι : Type) where
  task : ι
  request : Request
  deriving DecidableEq

abbrev SiteEntry (ι : Type) := Entry ServerCalls (Visitor ι)
abbrev SiteJournal (ι : Type) := Journal ServerCalls (Visitor ι)

/-- What an answered call has changed. -/
inductive Change where
  | published (row : RegistryAppModel)
  | opened (session : UserSessionModel)
  | closed (id : Text)
  | wrote (operation : Operation) (app : UserAppModel)

def UserAppModel.key (app : UserAppModel) : Int × Text := (app.userId, app.name)

def Operation.route (path version : Text) : Operation → Route
  | .installApp => .install path version
  | .updateApp => .update path version

section
variable {ι : Type}

def changeOf : SiteEntry ι → Option Change
  | ⟨_, .insertRegistryApp name version ociReference, .ok id⟩ => some (.published ⟨id, name, version, ociReference⟩)
  | ⟨_, .insertSession id userId, .ok _⟩ => some (.opened ⟨id, userId⟩)
  | ⟨_, .deleteSession id, .ok _⟩ => some (.closed id)
  | ⟨_, .insertUserApp app, .ok _⟩ => some (.wrote .installApp app)
  | ⟨_, .updateUserApp app, .ok _⟩ => some (.wrote .updateApp app)
  | _ => none

def Published (row : RegistryAppModel) : SiteJournal ι → Prop :=
  Journal.Once fun entry _ => changeOf entry = some (.published row)

/-- A session that was opened and not closed since. -/
def Open (session : UserSessionModel) : SiteJournal ι → Prop :=
  Journal.Since (fun entry => changeOf entry ≠ some (.closed session.id)) fun entry _ =>
    changeOf entry = some (.opened session)

def Installed (key : Int × Text) : SiteJournal ι → Prop :=
  Journal.Once fun entry _ => ∃ app, changeOf entry = some (.wrote .installApp app) ∧ app.key = key

/-- Nothing was written since under the key of what was written. -/
def WrittenLast (app : UserAppModel) : SiteJournal ι → Prop :=
  Journal.Since (fun entry => ∀ operation other, changeOf entry = some (.wrote operation other) → other.key ≠ app.key)
    fun entry _ => ∃ operation, changeOf entry = some (.wrote operation app)

def Current (app : UserAppModel) (journal : SiteJournal ι) : Prop := Installed app.key journal ∧ WrittenLast app journal

/-- What was so when the visitor made the call. -/
def Saw (visitor : Visitor ι) (call : ServerCall) (holds : SiteJournal ι → Prop) : SiteJournal ι → Prop :=
  Journal.Once fun entry earlier => entry.caller = visitor ∧ entry.request = call ∧ holds earlier

def Identified (visitor : Visitor ι) (userId : Int) (journal : SiteJournal ι) : Prop :=
  ∃ id, visitor.request.cookie = some id ∧ Saw visitor (.getSession id) (Open ⟨id, userId⟩) journal

def Unknown (visitor : Visitor ι) (journal : SiteJournal ι) : Prop :=
  ∀ id, visitor.request.cookie = some id → Saw visitor (.getSession id) (fun earlier => ∀ userId, ¬ Open ⟨id, userId⟩ earlier) journal

/-- The visitor downloaded the file of the app, from a reference that it had been published with. -/
def Downloaded (visitor : Visitor ι) (app : UserAppModel) (journal : SiteJournal ι) : Prop :=
  ∃ row : RegistryAppModel, row.name = app.name ∧ row.version = app.version ∧
    Journal.Once (fun (entry : SiteEntry ι) earlier =>
      entry = ⟨visitor, .downloadApp row.ociReference, .ok app.path⟩ ∧ Published row earlier) journal

/-- The visitor asked for the app, for the user that it is known as, and has its file. -/
structure Obtained (visitor : Visitor ι) (operation : Operation) (app : UserAppModel) (journal : SiteJournal ι) : Prop where
  asked : visitor.request.route = operation.route (encode app.name) app.version
  identified : Identified visitor app.userId journal
  downloaded : Downloaded visitor app journal

/-- The app of a path, as it was at the visitor's own listing. -/
structure Runnable (visitor : Visitor ι) (app : UserAppModel) (journal : SiteJournal ι) : Prop where
  asked : visitor.request.route = .run (encode app.name)
  identified : Identified visitor app.userId journal
  listed : Saw visitor (.listUserAppsByUserId app.userId) (Current app) journal

/-- What a visitor needs before a call. -/
def ServerCall.Needs (users : List UserModel) (visitor : Visitor ι) : ServerCall → SiteJournal ι → Prop
  | .insertSession _ userId, _ => visitor.request.route = .login userId ∧ ∃ user ∈ users, user.id = userId
  | .deleteSession id, _ => visitor.request.route = .logout ∧ visitor.request.cookie = some id
  | .listUserAppsByUserId userId, journal => Identified visitor userId journal
  | .insertUserApp app, journal => Obtained visitor .installApp app journal
  | .updateUserApp app, journal => Obtained visitor .updateApp app journal
  | .insertRegistryApp name version ociReference, _ =>
    visitor.request.route = .publish name version ociReference ∧ checkName name = true
  | .run path, journal => ∃ app, Runnable visitor app journal ∧ app.path = path
  | _, _ => True

/-- What a value tells of the past. -/
def ServerCall.Tells (users : List UserModel) : (call : ServerCall) → call.Value → SiteJournal ι → Prop
  | .listUsers, found, _ => found.Perm users
  | .getUserById id, found, _ => found = users.find? fun user => user.id = id
  | .getSession id, none, journal => ∀ userId, ¬ Open ⟨id, userId⟩ journal
  | .getSession id, some session, journal =>
    session.id = id ∧ Open session journal ∧ ∃ user ∈ users, user.id = session.userId
  | .listUserAppsByUserId userId, apps, journal =>
    (∀ app, app ∈ apps ↔ app.userId = userId ∧ Current app journal) ∧
      (∀ name, Installed (userId, name) journal ↔ ∃ app ∈ apps, app.name = name) ∧
      (apps.map UserAppModel.name).Nodup ∧ ∀ app ∈ apps, checkName app.name = true
  | .listRegistryApps, rows, journal =>
    (∀ row, row ∈ rows ↔ Published row journal) ∧ rows.Pairwise RegistryAppModel.Before ∧
      ∀ row ∈ rows, checkName row.name = true
  | .intoValues apps, values, _ => values.Perm apps
  | _, _, _ => True

def ServerCall.Fits (users : List UserModel) (call : ServerCall) (reply : Except String call.Value) (journal : SiteJournal ι) : Prop :=
  ∀ value, reply = .ok value → call.Tells users value journal

/-- The tables are what the journal says. -/
structure ServerDb.Sound (users : List UserModel) (db : ServerDb) (journal : SiteJournal ι) : Prop where
  users : db.users = users
  published : ∀ row, row ∈ db.registryApps ↔ Published row journal
  opened : ∀ session, session ∈ db.sessions ↔ Open session journal
  installed : ∀ key, Installed key journal ↔ ∃ app ∈ db.userApps, app.key = key
  current : ∀ app, app ∈ db.userApps ↔ Current app journal
  distinct : (db.userApps.map UserAppModel.key).Nodup

def siteRules (users : List UserModel) : Rules ServerCalls (Visitor ι) ServerDb where
  needs visitor call journal := call.Needs users visitor journal
  fits entry journal := entry.request.Fits users entry.reply journal
  invariant db journal := db.Sound users journal

variable {users : List UserModel} {visitor : Visitor ι} {journal longer : SiteJournal ι} {before after : ServerDb}
  {entry : SiteEntry ι}

theorem Saw.later {call : ServerCall} {holds : SiteJournal ι → Prop} (saw : Saw visitor call holds journal)
    (grown : journal <:+ longer) : Saw visitor call holds longer := Journal.Once.later saw grown

theorem Saw.mono {call : ServerCall} {holds wider : SiteJournal ι → Prop} (saw : Saw visitor call holds journal)
    (implies : ∀ earlier, holds earlier → wider earlier) : Saw visitor call wider journal :=
  Journal.Since.mono saw fun _ earlier seen => ⟨seen.1, seen.2.1, implies earlier seen.2.2⟩

theorem Saw.some {call : ServerCall} {holds : SiteJournal ι → Prop} (saw : Saw visitor call holds journal) :
    ∃ earlier, holds earlier := by
  obtain ⟨_, earlier, _, seen⟩ := Journal.once_iff.mp saw
  exact ⟨earlier, seen.2.2⟩

theorem Identified.later {userId : Int} (identified : Identified visitor userId journal) (grown : journal <:+ longer) :
    Identified visitor userId longer := by
  obtain ⟨id, cookie, saw⟩ := identified
  exact ⟨id, cookie, saw.later grown⟩

theorem Unknown.later (unknown : Unknown visitor journal) (grown : journal <:+ longer) : Unknown visitor longer :=
  fun id cookie => (unknown id cookie).later grown

theorem Downloaded.later {app : UserAppModel} (downloaded : Downloaded visitor app journal) (grown : journal <:+ longer) :
    Downloaded visitor app longer := by
  obtain ⟨row, name, version, once⟩ := downloaded
  exact ⟨row, name, version, once.later grown⟩

theorem Obtained.later {operation : Operation} {app : UserAppModel} (obtained : Obtained visitor operation app journal)
    (grown : journal <:+ longer) : Obtained visitor operation app longer :=
  ⟨obtained.asked, obtained.identified.later grown, obtained.downloaded.later grown⟩

theorem Runnable.later {app : UserAppModel} (runnable : Runnable visitor app journal) (grown : journal <:+ longer) :
    Runnable visitor app longer :=
  ⟨runnable.asked, runnable.identified.later grown, runnable.listed.later grown⟩

theorem ServerCall.Needs.later {call : ServerCall} (needs : call.Needs users visitor journal) (grown : journal <:+ longer) :
    call.Needs users visitor longer := by
  cases call with
  | listUserAppsByUserId userId => exact Identified.later needs grown
  | insertUserApp app => exact Obtained.later needs grown
  | updateUserApp app => exact Obtained.later needs grown
  | run path =>
    obtain ⟨app, runnable, same⟩ := needs
    exact ⟨app, runnable.later grown, same⟩
  | _ => exact needs

/-! ### Rows of `user_apps` -/

theorem insertUserApp_some {app : UserAppModel} {rows written : List UserAppModel}
    (inserted : insertUserApp app rows = some written) : (∀ row ∈ rows, row.key ≠ app.key) ∧ written = rows ++ [app] := by
  unfold insertUserApp at inserted
  split at inserted
  · cases inserted
  · next free =>
    refine ⟨fun row inside same => free ?_, (Option.some.inj inserted).symm⟩
    exact List.any_eq_true.mpr ⟨row, inside, by simpa [UserAppModel.key] using same⟩

private theorem mem_updateUserApp {app other : UserAppModel} {rows : List UserAppModel} :
    other ∈ updateUserApp app rows ↔
      if other.key = app.key then other = app ∧ ∃ row ∈ rows, row.key = app.key else other ∈ rows := by
  have updated (row : UserAppModel) : (if row.userId = app.userId ∧ row.name = app.name then
      { row with version := app.version, path := app.path } else row) = if row.key = app.key then app else row := by
    by_cases same : row.key = app.key
    · obtain ⟨user, name⟩ := Prod.mk.inj same
      simp [same, user, name]
    · rw [if_neg same, if_neg fun both => same (Prod.ext both.1 both.2)]
  simp only [updateUserApp, updated, List.mem_map]
  split
  · next same =>
    constructor
    · rintro ⟨row, inside, rfl⟩
      by_cases here : row.key = app.key
      · exact ⟨if_pos here, row, inside, here⟩
      · rw [if_neg here] at same
        exact absurd same here
    · rintro ⟨rfl, row, inside, here⟩
      exact ⟨row, inside, if_pos here⟩
  · next different =>
    constructor
    · rintro ⟨row, inside, rfl⟩
      by_cases here : row.key = app.key
      · rw [if_pos here] at different
        exact absurd rfl different
      · rwa [if_neg here]
    · intro inside
      exact ⟨other, inside, if_neg different⟩

private theorem updateUserApp_keys (app : UserAppModel) (rows : List UserAppModel) :
    (updateUserApp app rows).map UserAppModel.key = rows.map UserAppModel.key := by
  rw [updateUserApp, List.map_map]
  refine List.map_congr_left fun row _ => ?_
  simp only [Function.comp_apply, apply_ite UserAppModel.key]
  exact ite_self _

/-! ### One call after the other -/

theorem published_cons {row : RegistryAppModel} :
    Published row (entry :: journal) ↔ changeOf entry = some (.published row) ∨ Published row journal := Journal.once_cons

private theorem open_cons {session : UserSessionModel} :
    Open session (entry :: journal) ↔ changeOf entry = some (.opened session) ∨
      changeOf entry ≠ some (.closed session.id) ∧ Open session journal := Iff.rfl

private theorem installed_cons {key : Int × Text} :
    Installed key (entry :: journal) ↔ (∃ app, changeOf entry = some (.wrote .installApp app) ∧ app.key = key) ∨
      Installed key journal := Journal.once_cons

private theorem writtenLast_cons {app : UserAppModel} :
    WrittenLast app (entry :: journal) ↔ (∃ operation, changeOf entry = some (.wrote operation app)) ∨
      (∀ operation other, changeOf entry = some (.wrote operation other) → other.key ≠ app.key) ∧
        WrittenLast app journal := Iff.rfl

namespace ServerDb.Sound

theorem quiet (sound : before.Sound users journal) (nothing : changeOf entry = none) :
    before.Sound users (entry :: journal) where
  users := sound.users
  published row := by simp [published_cons, nothing, sound.published]
  opened session := by simp [open_cons, nothing, sound.opened]
  installed key := by simp [installed_cons, nothing, sound.installed]
  current app := by simp [Current, installed_cons, writtenLast_cons, nothing, sound.current]
  distinct := sound.distinct

theorem publish (sound : before.Sound users journal) {row : RegistryAppModel} (change : changeOf entry = some (.published row)) :
    { before with registryApps := before.registryApps ++ [row] : ServerDb }.Sound users (entry :: journal) where
  users := sound.users
  published other := by simp [published_cons, change, ← sound.published, or_comm, eq_comm]
  opened session := by simp [open_cons, change, sound.opened]
  installed key := by simp [installed_cons, change, sound.installed]
  current app := by simp [Current, installed_cons, writtenLast_cons, change, sound.current]
  distinct := sound.distinct

theorem open_ (sound : before.Sound users journal) {session : UserSessionModel} (change : changeOf entry = some (.opened session)) :
    { before with sessions := before.sessions ++ [session] : ServerDb }.Sound users (entry :: journal) where
  users := sound.users
  published row := by simp [published_cons, change, sound.published]
  opened other := by
    rw [open_cons, List.mem_append, List.mem_singleton, sound.opened, or_comm, eq_comm]
    simp [change]
  installed key := by simp [installed_cons, change, sound.installed]
  current app := by simp [Current, installed_cons, writtenLast_cons, change, sound.current]
  distinct := sound.distinct

theorem close (sound : before.Sound users journal) {id : Text} (change : changeOf entry = some (.closed id)) :
    { before with sessions := before.sessions.filter fun session => session.id ≠ id : ServerDb }.Sound users
      (entry :: journal) where
  users := sound.users
  published row := by simp [published_cons, change, sound.published]
  opened other := by
    have different : (changeOf entry ≠ some (.closed other.id)) ↔ other.id ≠ id := by
      rw [change, ne_comm]
      simp
    have not_opened : changeOf entry ≠ some (.opened other) := by simp [change]
    rw [open_cons, or_iff_right not_opened, different, List.mem_filter, sound.opened, decide_eq_true_eq, and_comm]
  installed key := by simp [installed_cons, change, sound.installed]
  current app := by simp [Current, installed_cons, writtenLast_cons, change, sound.current]
  distinct := sound.distinct

theorem wrote (sound : before.Sound users journal) {operation : Operation} {app : UserAppModel} {rows : List UserAppModel}
    (change : changeOf entry = some (.wrote operation app))
    (under : ∀ other, other ∈ rows ↔ if other.key = app.key then
      other = app ∧ Installed app.key (entry :: journal) else other ∈ before.userApps)
    (distinct : (rows.map UserAppModel.key).Nodup) :
    { before with userApps := rows : ServerDb }.Sound users (entry :: journal) where
  users := sound.users
  published row := by simp [published_cons, change, sound.published]
  opened session := by simp [open_cons, change, sound.opened]
  installed key := by
    by_cases same : key = app.key
    · subst same
      constructor
      · intro installed
        exact ⟨app, (under app).mpr (by simpa using installed), rfl⟩
      · rintro ⟨other, inside, same⟩
        have there := (under other).mp inside
        rw [if_pos same] at there
        exact there.2
    · have others : (∃ other, changeOf entry = some (.wrote .installApp other) ∧ other.key = key) ↔ False := by
        simp only [change, iff_false]
        rintro ⟨other, written, again⟩
        cases written
        exact same again.symm
      rw [installed_cons, others, false_or, sound.installed]
      constructor
      · rintro ⟨other, inside, rfl⟩
        exact ⟨other, (under other).mpr (by rwa [if_neg same]), rfl⟩
      · rintro ⟨other, inside, rfl⟩
        have there := (under other).mp inside
        rw [if_neg same] at there
        exact ⟨other, there, rfl⟩
  current other := by
    rw [under other, Current]
    by_cases same : other.key = app.key
    · rw [if_pos same, same, and_comm, writtenLast_cons, change]
      refine and_congr_right fun _ => ?_
      constructor
      · rintro rfl
        exact .inl ⟨operation, rfl⟩
      · rintro (⟨_, written⟩ | ⟨spared, _⟩)
        · cases written
          rfl
        · exact absurd same.symm (spared operation app rfl)
    · rw [if_neg same, sound.current, Current, installed_cons, writtenLast_cons, change]
      have spared : ∀ made another, some (Change.wrote operation app) = some (.wrote made another) → another.key ≠ other.key := by
        rintro _ _ written
        cases written
        exact Ne.symm same
      constructor
      · exact fun both => ⟨.inr both.1, .inr ⟨spared, both.2⟩⟩
      · rintro ⟨installed, written⟩
        refine ⟨installed.resolve_left ?_, ?_⟩
        · rintro ⟨another, written, again⟩
          cases written
          exact same again.symm
        · rcases written with ⟨_, written⟩ | kept
          · cases written
            exact absurd rfl same
          · exact kept.2
  distinct := distinct

theorem install (sound : before.Sound users journal) {app : UserAppModel} {rows : List UserAppModel}
    (change : changeOf entry = some (.wrote .installApp app)) (inserted : insertUserApp app before.userApps = some rows) :
    { before with userApps := rows : ServerDb }.Sound users (entry :: journal) := by
  obtain ⟨free, rfl⟩ := insertUserApp_some inserted
  refine sound.wrote change (fun other => ?_) ?_
  · rw [List.mem_append, List.mem_singleton]
    split
    · next same =>
      constructor
      · rintro (inside | rfl)
        · exact absurd same (free other inside)
        · exact ⟨rfl, .inl ⟨other, change, rfl⟩⟩
      · exact fun both => .inr both.1
    · next different =>
      constructor
      · rintro (inside | rfl)
        · exact inside
        · exact absurd rfl different
      · exact .inl
  · rw [List.map_append, List.map_singleton, List.nodup_append]
    refine ⟨sound.distinct, List.nodup_singleton _, ?_⟩
    rintro _ inside _ last same
    obtain ⟨row, there, rfl⟩ := List.mem_map.mp inside
    rw [List.mem_singleton.mp last] at same
    exact free row there same

theorem update (sound : before.Sound users journal) {app : UserAppModel}
    (change : changeOf entry = some (.wrote .updateApp app)) :
    { before with userApps := updateUserApp app before.userApps : ServerDb }.Sound users (entry :: journal) := by
  refine sound.wrote change (fun other => ?_) ?_
  · have not_new : ¬ ∃ another, changeOf entry = some (.wrote .installApp another) ∧ another.key = app.key := by
      rintro ⟨another, written, _⟩
      rw [change] at written
      cases written
    rw [mem_updateUserApp, installed_cons, or_iff_right not_new, sound.installed]
  · rw [updateUserApp_keys]
    exact sound.distinct

end ServerDb.Sound

/-! ### Who made a change -/

theorem changeOf_published {row : RegistryAppModel} (change : changeOf entry = some (.published row)) :
    ∃ visitor, entry = ⟨visitor, .insertRegistryApp row.name row.version row.ociReference, .ok row.id⟩ := by
  unfold changeOf at change
  split at change
  all_goals cases change
  exact ⟨_, rfl⟩

private theorem changeOf_opened {session : UserSessionModel} (change : changeOf entry = some (.opened session)) :
    ∃ visitor, entry = ⟨visitor, .insertSession session.id session.userId, .ok ()⟩ := by
  unfold changeOf at change
  split at change
  all_goals cases change
  exact ⟨_, rfl⟩

private theorem changeOf_wrote {operation : Operation} {app : UserAppModel}
    (change : changeOf entry = some (.wrote operation app))
    {earlier : SiteJournal ι} (needs : entry.request.Needs users entry.caller earlier) :
    Obtained entry.caller operation app earlier := by
  unfold changeOf at change
  split at change
  all_goals cases change
  · exact needs
  · exact needs

section
variable (always : Journal.Always (siteRules users).Kept journal)
include always

/-- Names of the registry are good ones. -/
theorem Published.named {row : RegistryAppModel} (published : Published row journal) : checkName row.name = true := by
  obtain ⟨entry, earlier, _, change, ⟨needs, _⟩, _⟩ := Journal.Once.found published always
  obtain ⟨visitor, rfl⟩ := changeOf_published change
  exact needs.2

/-- Whose session it is is a user. -/
theorem Open.user {session : UserSessionModel} (opened : Open session journal) : ∃ user ∈ users, user.id = session.userId := by
  obtain ⟨entry, earlier, _, change, ⟨needs, _⟩, _⟩ := Journal.Once.found (Journal.Since.once opened) always
  obtain ⟨visitor, rfl⟩ := changeOf_opened change
  exact needs.2

/-- An app goes back to a visitor that obtained it. -/
theorem Current.obtained {app : UserAppModel} (current : Current app journal) :
    ∃ visitor operation, Obtained visitor operation app journal := by
  obtain ⟨entry, earlier, grown, ⟨operation, change⟩, ⟨needs, _⟩, _⟩ :=
    Journal.Once.found (Journal.Since.once current.2) always
  have obtained := changeOf_wrote change needs
  exact ⟨entry.caller, operation, obtained.later ((List.suffix_cons entry earlier).trans grown)⟩

theorem Downloaded.named {app : UserAppModel} (downloaded : Downloaded visitor app journal) : checkName app.name = true := by
  obtain ⟨row, name, _, once⟩ := downloaded
  obtain ⟨entry, earlier, _, ⟨_, published⟩, _, before⟩ := Journal.Once.found once always
  rw [← name]
  exact published.named before

theorem Current.named {app : UserAppModel} (current : Current app journal) : checkName app.name = true := by
  obtain ⟨visitor, operation, obtained⟩ := current.obtained always
  exact obtained.downloaded.named always

end

/-- A query tells what it finds. -/
theorem ServerCall.Fits.queried {call : ServerCall} {reply : Except String call.Value} {holds : call.Value → Prop}
    (served : Queried holds before reply after) (tells : ∀ value, holds value → call.Tells users value journal) :
    call.Fits users reply journal := fun value same => tells value (served.2 value same)

theorem ServerDb.Sound.queried (sound : before.Sound users journal) {α : Type} {holds : α → Prop} {reply : Except String α}
    (served : Queried holds before reply after) (nothing : changeOf entry = none) : after.Sound users (entry :: journal) := by
  rw [served.1]
  exact sound.quiet nothing

theorem ServerDb.Sound.changed (sound : before.Sound users journal) {α : Type} {change : α → ServerDb → Prop}
    {reply : Except String α} {entry : Except String α → SiteEntry ι} (served : Changed change before reply after)
    (failed : ∀ error, changeOf (entry (.error error)) = none)
    (made : ∀ value, change value after → after.Sound users (entry (.ok value) :: journal)) :
    after.Sound users (entry reply :: journal) := by
  cases reply with
  | ok value => exact made value served
  | error error =>
    rw [show after = before from served]
    exact sound.quiet (failed error)

private theorem site_step (sound : before.Sound users journal) (always : Journal.Always (siteRules users).Kept journal)
    {call : ServerCall} {reply : Except String call.Value} (served : siteServes call before reply after) :
    call.Fits users reply journal ∧ after.Sound users (⟨visitor, call, reply⟩ :: journal) := by
  cases call with
  | listUsers =>
    refine ⟨.queried served fun users perm => ?_, sound.queried served rfl⟩
    rw [sound.users] at perm
    exact perm
  | getUserById id =>
    refine ⟨.queried served fun found same => ?_, sound.queried served rfl⟩
    rw [sound.users] at same
    exact same
  | getSession id =>
    refine ⟨.queried served fun found same => ?_, sound.queried served rfl⟩
    cases found with
    | none =>
      intro userId opened
      have there := List.find?_eq_none.mp same.symm _ ((sound.opened _).mpr opened)
      simp at there
    | some session =>
      have opened := (sound.opened session).mp (List.mem_of_find?_eq_some same.symm)
      exact ⟨by simpa using List.find?_some same.symm, opened, opened.user always⟩
  | listUserAppsByUserId userId =>
    refine ⟨.queried served fun apps perm => ?_, sound.queried served rfl⟩
    have listed (app : UserAppModel) : app ∈ apps ↔ app.userId = userId ∧ Current app journal := by
      rw [perm.mem_iff, List.mem_filter, sound.current, decide_eq_true_eq, and_comm]
    refine ⟨listed, fun name => ?_, ?_, fun app inside => ((listed app).mp inside).2.named always⟩
    · rw [sound.installed]
      constructor
      · rintro ⟨app, inside, same⟩
        obtain ⟨user, name⟩ := Prod.mk.inj same
        exact ⟨app, (listed app).mpr ⟨user, (sound.current app).mp inside⟩, name⟩
      · rintro ⟨app, inside, rfl⟩
        obtain ⟨rfl, current⟩ := (listed app).mp inside
        exact ⟨app, (sound.current app).mpr current, rfl⟩
    · rw [(perm.map _).nodup_iff]
      refine List.Nodup.map_on (fun first inside second inside' same => ?_) (sound.distinct.of_map.filter _)
      simp only [List.mem_filter, decide_eq_true_eq] at inside inside'
      exact List.inj_on_of_nodup_map sound.distinct inside.1 inside'.1 (Prod.ext (inside.2.trans inside'.2.symm) same)
  | listRegistryApps =>
    refine ⟨.queried served fun rows both => ?_, sound.queried served rfl⟩
    have listed (row : RegistryAppModel) : row ∈ rows ↔ Published row journal := by
      rw [both.1.mem_iff, sound.published]
    exact ⟨listed, both.2, fun row inside => ((listed row).mp inside).named always⟩
  | insertRegistryApp name version ociReference =>
    rw [siteServes] at served
    refine ⟨fun _ _ => trivial, sound.changed served (fun _ => rfl) fun id made => ?_⟩
    rw [made.2]
    exact sound.publish rfl
  | insertSession id userId =>
    rw [siteServes] at served
    refine ⟨fun _ _ => trivial, sound.changed served (fun _ => rfl) fun _ made => ?_⟩
    rw [made.2]
    exact sound.open_ rfl
  | deleteSession id =>
    rw [siteServes] at served
    refine ⟨fun _ _ => trivial, sound.changed served (fun _ => rfl) fun _ made => ?_⟩
    rw [made]
    exact sound.close rfl
  | insertUserApp app =>
    rw [siteServes] at served
    refine ⟨fun _ _ => trivial, sound.changed served (fun _ => rfl) fun _ made => ?_⟩
    obtain ⟨rows, inserted, same⟩ := made
    rw [same]
    exact sound.install rfl inserted
  | updateUserApp app =>
    rw [siteServes] at served
    refine ⟨fun _ _ => trivial, sound.changed served (fun _ => rfl) fun _ made => ?_⟩
    rw [made]
    exact sound.update rfl
  | downloadApp ociReference =>
    rw [siteServes] at served
    refine ⟨fun _ _ => trivial, sound.changed served (fun _ => rfl) fun path made => ?_⟩
    have same : before.Sound users (⟨visitor, .downloadApp ociReference, .ok path⟩ :: journal) := sound.quiet rfl
    rw [made]
    exact ⟨same.users, same.published, same.opened, same.installed, same.current, same.distinct⟩
  | intoValues apps =>
    obtain ⟨same, values, rfl, perm⟩ := served
    rw [same]
    refine ⟨fun value again => ?_, sound.quiet rfl⟩
    cases again
    exact perm
  | randomSessionId | sendFetch | receiveFetch | createParent | run =>
    refine ⟨fun _ _ => trivial, ?_⟩
    rw [show after = before from served]
    exact sound.quiet rfl

theorem siteRules_lawful : (siteRules (ι := ι) users).Lawful siteServes where
  needs grown needs := ServerCall.Needs.later needs grown
  step sound always _ served := site_step sound always served

end
end Pos2.Server
