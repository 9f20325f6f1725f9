import Pos2.Tunnel.DeviceDecisions

/-! Exchange of device tokens. As long as every update finds the row in the
state its method had checked and creating an auth token does not fail, at most
one task at a time is about to create an auth token for a code, and only before
there is one. -/

namespace Pos2.Tunnel
open Calls

/-- Every update finds the row in the state that its method had checked, and no
auth token fails to be created. -/
def freshExchanges : Meets := fun request before reply =>
  match request with
  | .updateDeviceToken purpose token => reply = .ok () →
    ∃ row, before.row token.deviceCode = some row ∧ row.state = purpose.checked
  | .createAuthToken _ _ => ∃ value, reply = .ok value
  | _ => True

private theorem freshExchanges_decisions (request : DbRequest) (before : History) (reply : Except String request.Value)
    (fresh : freshExchanges request before reply) : freshDecisions request before reply := by
  match request, reply, fresh with
  | .getDeviceTokenByDeviceCode _, _, _ => trivial
  | .insertDeviceToken _, _, _ => trivial
  | .createAuthToken _ _, _, _ => trivial
  | .updateDeviceToken _ _, _, fresh =>
    intro succeeded
    obtain ⟨row, found, checked⟩ := fresh succeeded
    exact ⟨row, found, .inl checked⟩

theorem Tokens.Reachable.decisions {ι : Type} [DecidableEq ι] {tokens : Tokens ι}
    (reachable : Tokens.Reachable freshExchanges tokens) : Tokens.Reachable freshDecisions tokens :=
  Pool.Runs.mono reachable
    (fun request before reply _ answered => ⟨freshExchanges_decisions request before reply answered.1, answered.2⟩)
    (fun _ _ _ started => started)

/-- A database that answers every call it can, with this id for a new auth token. -/
def serve (id : Text) : (request : DbRequest) → History → Except String request.Value × History
  | .getDeviceTokenByDeviceCode code, history => (.ok (history.row code), history)
  | .insertDeviceToken token, history =>
    match history.db.insertDeviceToken token with
    | some db => (.ok (), { history with db })
    | none => (.error "constraint", history)
  | .updateDeviceToken _ token, history =>
    match history.db.updateDeviceToken token with
    | some db => (.ok (), { history with db })
    | none => (.error "not updated", history)
  | .createAuthToken _ userId, history =>
    match history.db.createAuthToken id userId with
    | some (token, db) => (.ok token, { history with db })
    | none => (.error "constraint", history)

/-- A poll on its own yields an auth token. -/
def Exchangeable (history : History) (code : Text) : Prop :=
  ∃ id token, ((Storage.pollDeviceToken code).run (serve id) history).1 = .ok (none, some token)

/-- A device code is exchanged at most once, and a poll that failed to create the
auth token leaves it exchangeable. -/
structure ExchangedOnce (history : History) (code : Text) : Prop where
  once : (history.issuedFor code).length ≤ 1
  retry : code ∈ history.unissued → Exchangeable history code

/-- The row of a code is exchanged. -/
def Exchanged (history : History) (code : Text) : Prop :=
  ∃ row, history.row code = some row ∧ row.state = .exchanged

theorem Exchanged.advance {before after : History} {code : Text} (exchanged : Exchanged before code)
    (advances : Advances before after) : Exchanged after code := by
  obtain ⟨row, found, state⟩ := exchanged
  obtain ⟨row', found', edge⟩ := advances.rows code row found
  refine ⟨row', found', ?_⟩
  rw [state] at edge
  generalize row'.state = state' at edge
  cases edge with
  | refl => rfl
  | single impossible => cases impossible

/-- Only a call that creates an auth token issues one. -/
theorem issuedFor_same {before after : History} {request : DbRequest} {reply : Except String request.Value}
    (served : serves request before reply after) (other : ∀ code userId, request ≠ .createAuthToken code userId)
    (code : Text) : after.issuedFor code = before.issuedFor code := by
  match request, reply, served with
  | .getDeviceTokenByDeviceCode _, .error _, same => rw [show after = before from same]
  | .getDeviceTokenByDeviceCode _, .ok _, ⟨_, same⟩ => rw [same]
  | .insertDeviceToken _, .error _, same => rw [show after = before from same]
  | .insertDeviceToken _, .ok _, ⟨_, _, same⟩ => rw [same]; rfl
  | .updateDeviceToken _ _, .error _, same => rw [show after = before from same]
  | .updateDeviceToken (.decide _) _, .ok _, ⟨_, _, same⟩ => rw [same]; rfl
  | .updateDeviceToken .exchange _, .ok _, ⟨_, _, same⟩ => rw [same]; rfl
  | .createAuthToken code userId, _, _ => exact (other code userId rfl).elim

/-- No auth token has failed to be created. -/
theorem unissued_same {before after : History} {request : DbRequest} {reply : Except String request.Value}
    (fresh : freshExchanges request before reply) (served : serves request before reply after) :
    after.unissued = before.unissued := by
  match request, reply, fresh, served with
  | .getDeviceTokenByDeviceCode _, .error _, _, same => rw [show after = before from same]
  | .getDeviceTokenByDeviceCode _, .ok _, _, ⟨_, same⟩ => rw [same]
  | .insertDeviceToken _, .error _, _, same => rw [show after = before from same]
  | .insertDeviceToken _, .ok _, _, ⟨_, _, same⟩ => rw [same]
  | .updateDeviceToken _ _, .error _, _, same => rw [show after = before from same]
  | .updateDeviceToken (.decide _) _, .ok _, _, ⟨_, _, same⟩ => rw [same]
  | .updateDeviceToken .exchange _, .ok _, _, ⟨_, _, same⟩ => rw [same]
  | .createAuthToken _ _, .ok _, _, ⟨_, _, _, same⟩ => rw [same]
  | .createAuthToken _ _, .error _, ⟨_, impossible⟩, _ => cases impossible

/-- The right to create an auth token for a code is held by at most one task, and
by none once there is an auth token or before the row is exchanged. -/
structure Minting {ι : Type} (tokens : Tokens ι) (code : Text) : Prop where
  issued : tokens.shared.issuedFor code ≠ [] → Exchanged tokens.shared code
  minting : ∀ i, Mints (tokens.threads i) code →
    Exchanged tokens.shared code ∧ tokens.shared.issuedFor code = []
  one : ∀ i j, Mints (tokens.threads i) code → Mints (tokens.threads j) code → i = j
  single : (tokens.shared.issuedFor code).length ≤ 1

private theorem started_mints_nothing {ι : Type} {i : ι} {last : Option Ended} {task : Task}
    (started : Tasks i last task)
    (code : Text) : ¬ Mints task code := by
  rintro ⟨userId, next, minting⟩
  cases started <;> cases minting

section
variable {ι : Type} {tokens : Tokens ι} {i : ι}

/-- No task gains the right: the others keep or lose it, and the state of the
code is what it was or moves on. -/
theorem Minting.keep {after : Tokens ι} {code : Text} (minting : Minting tokens code)
    (advances : Advances tokens.shared after.shared)
    (issued : after.shared.issuedFor code = tokens.shared.issuedFor code)
    (mints : ∀ j, Mints (after.threads j) code → Mints (tokens.threads j) code) : Minting after code := by
  refine ⟨?_, ?_, ?_, ?_⟩
  · intro some_
    rw [issued] at some_
    exact (minting.issued some_).advance advances
  · intro j mint
    obtain ⟨exchanged, none_⟩ := minting.minting j (mints j mint)
    exact ⟨exchanged.advance advances, issued.trans none_⟩
  · intro j k mint mint'
    exact minting.one j k (mints j mint) (mints k mint')
  · rw [issued]
    exact minting.single

variable [DecidableEq ι]

private theorem mints_before {task : Task} {code : Text} (nothing : ¬ Mints task code) {j : ι}
    (mint : Mints (Function.update tokens.threads i task j) code) : Mints (tokens.threads j) code := by
  by_cases same : j = i
  · subst same
    rw [Function.update_self] at mint
    exact (nothing mint).elim
  · rwa [Function.update_of_ne same] at mint

/-- An exchange gives the right to the task that made it. -/
theorem Minting.gain {request : DbRequest} {reply : Except String request.Value} {after : History} {task : Task}
    {code : Text} (minting : Minting tokens code)
    (fresh : freshExchanges request tokens.shared reply) (served : serves request tokens.shared reply after)
    (exchanges : Exchanges request reply code) :
    Minting (⟨after, Function.update tokens.threads i task⟩ : Tokens ι) code := by
  obtain ⟨⟨token, rfl, rfl, state⟩, ⟨⟩, rfl⟩ := exchanges
  obtain ⟨row, found, approved⟩ := fresh rfl
  obtain ⟨db, updated, rfl⟩ := served
  have unexchanged : ¬ Exchanged tokens.shared token.deviceCode := by
    rintro ⟨other, present, exchanged⟩
    rw [found] at present
    cases present
    rw [approved] at exchanged
    cases exchanged
  have unissued : tokens.shared.issuedFor token.deviceCode = [] := by
    by_contra some_
    exact unexchanged (minting.issued some_)
  have exchanged : Exchanged { tokens.shared with db } token.deviceCode := by
    have rows := DB.updateDeviceToken_rows updated token.deviceCode
    rw [if_pos rfl, show tokens.shared.db.getDeviceTokenByDeviceCode _ = some row from found] at rows
    exact ⟨_, rows, state⟩
  have mine {j : ι} (mint : Mints (Function.update tokens.threads i task j) token.deviceCode) : j = i := by
    by_contra other
    rw [Function.update_of_ne other] at mint
    exact unexchanged (minting.minting j mint).1
  refine ⟨fun _ => exchanged, fun _ _ => ⟨exchanged, unissued⟩, ?_, ?_⟩
  · intro j k mint mint'
    exact (mine mint).trans (mine mint').symm
  · exact minting.single

/-- Creating the auth token uses the right up. -/
theorem Minting.use {code userId : Text} {next} {value : AuthToken} {after : History} {task : Task}
    (minting : Minting tokens code)
    (waiting : tokens.threads i = .call (.createAuthToken code userId) next)
    (served : serves (.createAuthToken code userId) tokens.shared (.ok value) after)
    (advances : Advances tokens.shared after) (used : ¬ Mints task code) :
    Minting (⟨after, Function.update tokens.threads i task⟩ : Tokens ι) code := by
  have mint : Mints (tokens.threads i) code := ⟨userId, next, waiting⟩
  obtain ⟨exchanged, unissued⟩ := minting.minting i mint
  obtain ⟨id, db, _, rfl⟩ := served
  have none_ (j : ι) : ¬ Mints (Function.update tokens.threads i task j) code := by
    intro again
    by_cases same : j = i
    · subst same
      rw [Function.update_self] at again
      exact used again
    · rw [Function.update_of_ne same] at again
      exact same (minting.one j i again mint)
  refine ⟨fun _ => exchanged.advance advances, fun j again => (none_ j again).elim,
    fun j _ again => (none_ j again).elim, ?_⟩
  rw [History.issuedFor_issue, if_pos rfl, unissued]
  simp

theorem Minting.step {after : Tokens ι} {code : Text} (minting : Minting tokens code)
    (holds : deciding.Holds (servesUnder freshDecisions) tokens)
    (step : Tokens.Step freshExchanges i tokens after) : Minting after code := by
  cases step with
  | start task idle started =>
    exact minting.keep (.refl _) rfl fun j mint => mints_before (started_mints_nothing started code) mint
  | @call request next reply after waiting answered =>
    obtain ⟨fresh, served⟩ := answered
    obtain ⟨advances, leads⟩ := holds.served deciding_stable waiting
      ⟨freshExchanges_decisions request _ reply fresh, served⟩
    by_cases mint : Mints (next reply) code
    · exact minting.gain fresh served (leads.mints code mint)
    · have others (j : ι) (again : Mints (Function.update tokens.threads i (next reply) j) code) :
          Mints (tokens.threads j) code := mints_before mint again
      match request, next, reply, waiting, fresh, served, advances, mint, others with
      | .getDeviceTokenByDeviceCode _, _, _, _, _, served, advances, _, others =>
        exact minting.keep advances (issuedFor_same served (by simp) code) others
      | .insertDeviceToken _, _, _, _, _, served, advances, _, others =>
        exact minting.keep advances (issuedFor_same served (by simp) code) others
      | .updateDeviceToken _ _, _, _, _, _, served, advances, _, others =>
        exact minting.keep advances (issuedFor_same served (by simp) code) others
      | .createAuthToken other userId, next, reply, waiting, ⟨value, succeeded⟩, served, advances, mint, others =>
        subst succeeded
        by_cases same : other = code
        · subst same
          exact minting.use waiting served advances mint
        · refine minting.keep advances ?_ others
          obtain ⟨id, db, _, rfl⟩ := served
          rw [History.issuedFor_issue, if_neg (Ne.symm same)]

/-- In every run in which each update finds the row as its method had checked it
and no auth token fails to be created, every device code is exchanged once. -/
theorem device_code_exchanged_once (reachable : Tokens.Reachable freshExchanges tokens) (code : Text) :
    ExchangedOnce tokens.shared code := by
  have invariant : Minting tokens code ∧ tokens.shared.unissued = [] := by
    induction reachable with
    | refl =>
      refine ⟨⟨fun some_ => (some_ rfl).elim, ?_, ?_, by simp [Tokens.initial, History.new, History.issuedFor]⟩, rfl⟩
      · rintro j ⟨_, _, impossible⟩
        cases impossible
      · rintro j k ⟨_, _, impossible⟩
        cases impossible
    | tail earlier move ih =>
      obtain ⟨i, step⟩ := move
      have holds := deciding_holds (Tokens.Reachable.decisions earlier)
      refine ⟨ih.1.step holds step, ?_⟩
      cases step with
      | start task idle started => exact ih.2
      | call reply after waiting answered => exact (unissued_same answered.1 answered.2).trans ih.2
  refine ⟨invariant.1.single, ?_⟩
  intro failed
  rw [invariant.2] at failed
  cases failed

end

/-- The same history once auth tokens for the device token were created. -/
def exchangedBy (tokens : List AuthToken) : History :=
  { decidedBy .exchanged "alice".toList [.approve "alice".toList] with
    db := { (withToken .exchanged "alice".toList).db with authTokens := tokens }
    issued := tokens.map fun token => ("d".toList, token) }

/-- Two callers and a device token that one of them has approved. -/
theorem approved_reachable {meets : Meets}
    (met : meets (.insertDeviceToken (Storage.newDeviceToken "d".toList "u".toList 0)) .new (.ok ()))
    (reads : ∀ code history value, meets (.getDeviceTokenByDeviceCode code) history (.ok value))
    (decides : meets (.updateDeviceToken (.decide (.approve "alice".toList))
      { Storage.newDeviceToken "d".toList "u".toList 0 with state := .approved, approvedByUserId := "alice".toList })
      (withToken .pending []) (.ok ())) :
    ∃ tokens : Tokens Bool, Tokens.Reachable meets tokens ∧
      tokens.shared = decidedBy .approved "alice".toList [.approve "alice".toList] ∧
      ∀ i, ∃ last, tokens.threads i = .done last := by
  obtain ⟨⟨history, threads⟩, reachable, rfl, idle⟩ := created_reachable met
  obtain ⟨last, resting⟩ := idle true
  have started := reachable.start true resting (.approve "d".toList "alice".toList)
  have read := started.call true rfl (.ok (some _)) (withToken .pending []) (reads _ _ _) ⟨rfl, rfl⟩
  have written := read.call true rfl (.ok ()) (decidedBy .approved "alice".toList [.approve "alice".toList])
    decides ⟨_, rfl, rfl⟩
  refine ⟨_, written, rfl, ?_⟩
  intro i
  cases i with
  | false =>
    obtain ⟨last', resting'⟩ := idle false
    exact ⟨last', resting'⟩
  | true => exact ⟨_, rfl⟩

/-- Such a run, in which the device token is polled once it is approved. -/
theorem device_code_exchanged_once_polled : ∃ tokens : Tokens Bool,
    tokens.shared.issuedFor "d".toList = [⟨"t".toList, "alice".toList⟩] ∧ ExchangedOnce tokens.shared "d".toList := by
  have approved : ∃ tokens : Tokens Bool, Tokens.Reachable freshExchanges tokens ∧ _ :=
    approved_reachable trivial (fun _ _ _ => trivial) (fun _ => ⟨_, rfl, rfl⟩)
  obtain ⟨⟨history, threads⟩, reachable, rfl, idle⟩ := approved
  obtain ⟨last, resting⟩ := idle true
  have started := reachable.start true resting (.poll "d".toList)
  have read := started.call true rfl (.ok (some _)) (decidedBy .approved "alice".toList [.approve "alice".toList])
    trivial ⟨rfl, rfl⟩
  have written := read.call true rfl (.ok ()) (exchangedBy []) (fun _ => ⟨_, rfl, rfl⟩) ⟨_, rfl, rfl⟩
  have polled := written.call true rfl (.ok ⟨"t".toList, "alice".toList⟩)
    (exchangedBy [⟨"t".toList, "alice".toList⟩]) ⟨_, rfl⟩ ⟨_, _, rfl, rfl⟩
  exact ⟨_, rfl, device_code_exchanged_once polled "d".toList⟩

private theorem exchanged_not_exchangeable {history : History} {code : Text} (exchanged : Exchanged history code) :
    ¬ Exchangeable history code := by
  obtain ⟨row, found, state⟩ := exchanged
  rintro ⟨id, token, polled⟩
  simp [Storage.pollDeviceToken, serve, found, state] at polled

/-- Two polls that both read the row while it was approved, and a poll whose auth
token could not be created. -/
theorem polls_exchange_twice_or_never :
    (∃ tokens : Tokens Bool, Tokens.Reachable anyStep tokens ∧
      tokens.shared.issuedFor "d".toList = [⟨"t".toList, "alice".toList⟩, ⟨"s".toList, "alice".toList⟩]) ∧
    ∃ tokens : Tokens Bool, Tokens.Reachable anyStep tokens ∧
      "d".toList ∈ tokens.shared.unissued ∧ ¬ Exchangeable tokens.shared "d".toList := by
  have approved : ∃ tokens : Tokens Bool, Tokens.Reachable anyStep tokens ∧ _ :=
    approved_reachable trivial (fun _ _ _ => trivial) trivial
  obtain ⟨⟨history, threads⟩, reachable, rfl, idle⟩ := approved
  obtain ⟨last, resting⟩ := idle true
  obtain ⟨last', resting'⟩ := idle false
  have started := reachable.start true resting (.poll "d".toList)
  have read := started.call true rfl (.ok (some _)) (decidedBy .approved "alice".toList [.approve "alice".toList])
    trivial ⟨rfl, rfl⟩
  constructor
  · have started' := read.start false resting' (.poll "d".toList)
    have read' := started'.call false rfl (.ok (some _))
      (decidedBy .approved "alice".toList [.approve "alice".toList]) trivial ⟨rfl, rfl⟩
    have written := read'.call true rfl (.ok ()) (exchangedBy []) trivial ⟨_, rfl, rfl⟩
    have written' := written.call false rfl (.ok ()) (exchangedBy []) trivial ⟨_, rfl, rfl⟩
    have issued := written'.call true rfl (.ok ⟨"t".toList, "alice".toList⟩)
      (exchangedBy [⟨"t".toList, "alice".toList⟩]) trivial ⟨_, _, rfl, rfl⟩
    have issued' := issued.call false rfl (.ok ⟨"s".toList, "alice".toList⟩)
      (exchangedBy [⟨"t".toList, "alice".toList⟩, ⟨"s".toList, "alice".toList⟩]) trivial
      ⟨"s".toList, _, rfl, rfl⟩
    exact ⟨_, issued', rfl⟩
  · have written := read.call true rfl (.ok ()) (exchangedBy []) trivial ⟨_, rfl, rfl⟩
    have failed := written.call true rfl (.error "disk full") { exchangedBy [] with unissued := ["d".toList] }
      trivial rfl
    exact ⟨_, failed, List.mem_singleton_self _, exchanged_not_exchangeable ⟨_, rfl, rfl⟩⟩

end Pos2.Tunnel
