import Pos2.Tunnel.Routing
import Pos2.Tunnel.Website

/-! Where the rights of a client come from. Whatever the requests and their interleaving,
an auth token goes back to an approval of the very device in an open session of the user,
that session to a login, and a domain to a request that bears such a token. -/

namespace Pos2.Tunnel
open Calls

section
variable {ι : Type} (state : ServerState) (urlencoded : UrlEncoding)

/-- A login created the session, and nobody has logged out of it since. -/
def OpenedByLogin (session : Session) : WebJournal ι → Prop :=
  Journal.Since (fun entry => ∀ caller, entry ≠ ⟨caller, .deleteSessionToken session.id, .ok ()⟩) fun entry earlier =>
    ∃ login, entry = ⟨login, .createSessionToken session.userId, .ok session⟩ ∧
      LogsIn state urlencoded login session.userId earlier

/-- The caller sent the id of a session of the user that was open when it was looked up. -/
def ActsFor (caller : Caller ι) (userId : Text) : WebJournal ι → Prop := Journal.Once fun entry earlier =>
  ∃ session, Cookies.get caller.request.cookies "session_id".toList = some session.id ∧
    entry = ⟨caller, .getSessionTokenById session.id, .ok (some session)⟩ ∧ session.userId = userId ∧
    OpenedByLogin state urlencoded session earlier

/-- Somebody who acts for the user sent the user code that the device got with its device code. -/
def ApprovedByUser (deviceCode userId : Text) : WebJournal ι → Prop := Journal.Once fun entry earlier =>
  ∃ caller token userCode, entry =
      ⟨caller, .device (.updateDeviceToken (.decide (.approve userId)) token), .ok ()⟩ ∧
    token.deviceCode = deviceCode ∧ Addressed caller.request .postApproveDevice ∧
    ActsFor state urlencoded caller userId earlier ∧
    caller.request.form "user_code".toList = .ok userCode ∧ HandedOut deviceCode userCode earlier

/-- The auth token was created for a poll with a device code that the user had approved. -/
def IssuedToUser (token : AuthToken) : WebJournal ι → Prop := Journal.Once fun entry earlier =>
  ∃ poll deviceCode, entry = ⟨poll, .device (.createAuthToken deviceCode token.userId), .ok token⟩ ∧
    poll.request.form "device_code".toList = .ok deviceCode ∧
    ApprovedByUser state urlencoded deviceCode token.userId earlier

/-- The domain was registered for a request that bears an auth token of the user. -/
def RegisteredByToken (row : UserDomain) : WebJournal ι → Prop := Journal.Once fun entry earlier =>
  ∃ caller token, entry = ⟨caller, .registerUserDomain row.userId row.domain, .ok ()⟩ ∧
    caller.request.json "domain".toList = .ok row.domain ∧
    (∃ suffix ∈ state.availableSuffixes, suffix <:+ row.domain) ∧
    caller.request.bearer = .ok token.id ∧ token.userId = row.userId ∧ IssuedToUser state urlencoded token earlier

end

section
variable {ι : Type} {state : ServerState} {urlencoded : UrlEncoding} {caller : Caller ι} {journal : WebJournal ι}
  (always : Journal.Always (webRules state urlencoded).Kept journal)
include always

private theorem openedByLogin {session : Session} (opened : OpenSession session journal) :
    OpenedByLogin state urlencoded session journal := by
  refine (Journal.Since.always opened always).mono ?_
  rintro entry earlier ⟨⟨login, rfl⟩, kept, _⟩
  exact ⟨login, rfl, kept.1⟩

private theorem Authenticated.actsFor {session : Session} (authenticated : Authenticated caller session journal) :
    ActsFor state urlencoded caller session.userId journal := by
  obtain ⟨entry, earlier, grown, ⟨cookie, sent, rfl⟩, kept, before⟩ := Journal.Once.found authenticated always
  obtain ⟨named, opened, _⟩ := kept.2 session rfl
  subst named
  exact Journal.once_iff.mpr ⟨_, earlier, grown, session, sent, rfl, rfl, openedByLogin before opened⟩

private theorem Typed.handedOut {deviceCode : Text} (typed : Typed caller deviceCode journal) :
    ∃ userCode, caller.request.form "user_code".toList = .ok userCode ∧ HandedOut deviceCode userCode journal := by
  obtain ⟨entry, earlier, grown, ⟨userCode, row, sent, rfl, rfl⟩, kept, _⟩ := Journal.Once.found typed always
  refine ⟨userCode, sent, ?_⟩
  exact Journal.Once.later (kept.2 row rfl) ((List.suffix_cons _ _).trans grown)

private theorem Approved.byUser {deviceCode userId : Text} (approved : Approved deviceCode userId journal) :
    ApprovedByUser state urlencoded deviceCode userId journal := by
  obtain ⟨entry, earlier, grown, ⟨caller, token, rfl, rfl⟩, kept, before⟩ := Journal.Once.found approved always
  obtain ⟨_, addressed, typed, session, authenticated, rfl, _⟩ := kept.1
  obtain ⟨userCode, sent, handed⟩ := typed.handedOut before
  exact Journal.once_iff.mpr ⟨_, earlier, grown, caller, token, userCode, rfl, rfl, addressed,
    authenticated.actsFor before, sent, handed⟩

private theorem Issued.toUser {token : AuthToken} (issued : Issued token journal) :
    IssuedToUser state urlencoded token journal := by
  obtain ⟨entry, earlier, grown, ⟨poll, code, rfl⟩, kept, before⟩ := Journal.Once.found issued always
  obtain ⟨exchange, past, grown', ⟨row, rfl, rfl, named⟩, kept', before'⟩ := Journal.Once.found kept.1.1 before
  obtain ⟨polled, approved, _⟩ := kept'.1
  obtain ⟨_, _, _, ⟨_, sent, _⟩, _⟩ := Journal.Once.found polled before'
  rw [named] at approved
  refine Journal.once_iff.mpr ⟨_, earlier, grown, poll, row.deviceCode, rfl, sent, ?_⟩
  exact Journal.Once.later (approved.byUser before') ((List.suffix_cons _ _).trans grown')

private theorem RegisteredDomain.byToken {row : UserDomain} (registered : RegisteredDomain row journal) :
    RegisteredByToken state urlencoded row journal := by
  obtain ⟨entry, earlier, grown, ⟨caller, rfl⟩, kept, before⟩ := Journal.Once.found registered always
  obtain ⟨_, asked, suffix, token, presented, named, _⟩ := kept.1
  obtain ⟨_, past, grown', ⟨bearer, sent, rfl⟩, kept', before'⟩ := Journal.Once.found presented before
  obtain ⟨rfl, issued, _⟩ := kept'.2 token rfl
  refine Journal.once_iff.mpr ⟨_, earlier, grown, caller, token, rfl, asked, suffix, sent, named, ?_⟩
  exact Journal.Once.later (issued.toUser before') ((List.suffix_cons _ _).trans grown')

end

namespace Website
variable {ι : Type} [DecidableEq ι] {state : ServerState} {urlencoded : UrlEncoding} {website : Website ι}

/-- Every session in the table is one that a login created and that is open; only a request
that bears its id, to the route for logging out, has ever deleted a session. -/
theorem sessions_opened (reachable : Reachable state urlencoded website) :
    (∀ session ∈ website.shared.state.sessions, OpenedByLogin state urlencoded session website.shared.journal) ∧
    ∀ caller id earlier, ⟨caller, .deleteSessionToken id, .ok ()⟩ :: earlier <:+ website.shared.journal →
      Addressed caller.request .logout ∧ Cookies.get caller.request.cookies "session_id".toList = some id := by
  obtain ⟨always, sound⟩ := reachable.holds.valid
  refine ⟨fun session member => openedByLogin always ((sound.recorded.sessions session).mp member), ?_⟩
  intro caller id earlier grown
  obtain ⟨kept, before⟩ := always.before grown
  obtain ⟨addressed, session, authenticated, rfl⟩ := kept.1
  obtain ⟨_, _, _, ⟨cookie, sent, rfl⟩, found, _⟩ := Journal.Once.found authenticated before
  obtain ⟨rfl, _⟩ := found.2 session rfl
  exact ⟨addressed, sent⟩

theorem sessions_opened_enrolled :
    OpenedByLogin testServer anyEncoding ⟨"s".toList, "u".toList⟩ enrolled.shared.journal := by
  refine (sessions_opened enrolled_reachable).1 _ ?_
  rw [enrolled_rows.1]
  exact List.mem_singleton_self _

/-- An auth token of a user goes back to an approval of the device in an open session of the user. -/
theorem tokens_approved (reachable : Reachable state urlencoded website) {token : AuthToken}
    (member : token ∈ website.shared.state.db.authTokens) :
    IssuedToUser state urlencoded token website.shared.journal := by
  obtain ⟨always, sound⟩ := reachable.holds.valid
  exact Issued.toUser always ((sound.recorded.authTokens token).mp member)

theorem tokens_approved_enrolled :
    IssuedToUser testServer anyEncoding ⟨"t".toList, "u".toList⟩ enrolled.shared.journal := by
  refine tokens_approved enrolled_reachable ?_
  rw [enrolled_rows.2.1]
  exact List.mem_singleton_self _

/-- Whoever can connect for a domain holds an auth token that a user approved, and the domain was
registered with an auth token that the same user approved, under one of the suffixes. -/
theorem clients_entitled (reachable : Reachable state urlencoded website) {hello : ClientHello}
    (allowed : Routes.Allowed website.shared.state.db hello) :
    ∃ token, token.id = hello.token ∧ IssuedToUser state urlencoded token website.shared.journal ∧
      RegisteredByToken state urlencoded ⟨token.userId, hello.domain⟩ website.shared.journal := by
  obtain ⟨always, sound⟩ := reachable.holds.valid
  obtain ⟨token, found, domain⟩ := allowed
  have member := List.mem_of_find?_eq_some found
  refine ⟨token, by simpa using List.find?_some found, tokens_approved reachable member, ?_⟩
  exact RegisteredDomain.byToken always ((sound.recorded.domains _).mp (DB.mem_domainsOf.mp domain))

theorem clients_entitled_enrolled : ∃ token : AuthToken, token.id = "t".toList ∧
    IssuedToUser testServer anyEncoding token enrolled.shared.journal ∧
    RegisteredByToken testServer anyEncoding ⟨token.userId, "a.example.com".toList⟩ enrolled.shared.journal := by
  have allowed : Routes.Allowed enrolled.shared.state.db ⟨"a.example.com".toList, "t".toList⟩ := by
    refine ⟨⟨"t".toList, "u".toList⟩, ?_, DB.mem_domainsOf.mpr ?_⟩
    · rw [DB.getAuthTokenById, enrolled_rows.2.1]
      rfl
    · rw [enrolled_rows.2.2]
      exact List.mem_singleton_self _
  exact clients_entitled enrolled_reachable allowed

end Website
end Pos2.Tunnel
