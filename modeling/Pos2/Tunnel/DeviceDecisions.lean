import Pos2.Tunnel.Device

/-! Decisions on device tokens. As long as every update finds the row in the
state its method had checked, a decision is final: the row moves forward only,
and the auth tokens of a code belong to the user who approved it. -/

namespace Pos2.Tunnel
open Calls

/-- The moves of a device token. -/
inductive Edge : TokenState → TokenState → Prop where
  | approve : Edge .pending .approved
  | reject : Edge .pending .rejected
  | exchange : Edge .approved .exchanged

/-- What the row of a code says is what was decided and issued on it. -/
def Agrees (row : Option DeviceToken) (decisions : List Decision) (tokens : List AuthToken) : Prop :=
  match row with
  | none => decisions = [] ∧ tokens = []
  | some row =>
    match row.state with
    | .pending => decisions = [] ∧ tokens = []
    | .rejected => decisions = [.reject] ∧ tokens = []
    | .approved => decisions = [.approve row.approvedByUserId] ∧
        ∀ token ∈ tokens, token.userId = row.approvedByUserId
    | .exchanged => decisions = [.approve row.approvedByUserId] ∧
        ∀ token ∈ tokens, token.userId = row.approvedByUserId

private theorem agrees_approved {row : DeviceToken} (state : row.state = .approved ∨ row.state = .exchanged)
    {decisions : List Decision} {tokens : List AuthToken} :
    Agrees (some row) decisions tokens ↔ decisions = [.approve row.approvedByUserId] ∧
      ∀ token ∈ tokens, token.userId = row.approvedByUserId := by
  rcases state with state | state <;> simp only [Agrees, state]

def History.Agrees (history : History) : Prop :=
  ∀ code, Tunnel.Agrees (history.row code) (history.decisionsOn code) (history.issuedFor code)

/-- One step forward: rows follow the edges, and a decision once made stays alone. -/
structure Advances (before after : History) : Prop where
  rows : ∀ code row, before.row code = some row →
    ∃ row', after.row code = some row' ∧ Relation.ReflGen Edge row.state row'.state
  decisions : ∀ code, before.decisionsOn code ≠ [] → after.decisionsOn code = before.decisionsOn code

theorem Advances.refl (history : History) : Advances history history :=
  ⟨fun _ row found => ⟨row, found, .refl⟩, fun _ _ => rfl⟩

private theorem decisions_final {before after : History} (run : Relation.ReflTransGen Advances before after)
    {code : Text}
    (decided : before.decisionsOn code ≠ []) : after.decisionsOn code = before.decisionsOn code := by
  induction run with
  | refl => rfl
  | tail _ step ih => exact (step.decisions code (by rw [ih]; exact decided)).trans ih

/-- Every update finds the row in the state that its method had checked; an
exchange may also find the row exchanged. -/
def freshDecisions : Meets := fun request before reply =>
  match request with
  | .updateDeviceToken purpose token => reply = .ok () →
    ∃ row, before.row token.deviceCode = some row ∧
      (row.state = purpose.checked ∨ purpose = .exchange ∧ row.state = .exchanged)
  | _ => True

/-- What a pending request carries. -/
def Pending (request : DbRequest) (history : History) : Prop :=
  match request with
  | .getDeviceTokenByDeviceCode _ => True
  | .insertDeviceToken token => token.state = .pending
  | .updateDeviceToken (.decide (.approve userId)) token =>
    token.state = .approved ∧ token.approvedByUserId = userId
  | .updateDeviceToken (.decide .reject) token => token.state = .rejected
  | .updateDeviceToken .exchange token =>
    token.state = .exchanged ∧ history.decisionsOn token.deviceCode = [.approve token.approvedByUserId]
  | .createAuthToken code userId => history.decisionsOn code = [.approve userId]

theorem Pending.later {request : DbRequest} {before after : History} (pending : Pending request before)
    (run : Relation.ReflTransGen Advances before after) : Pending request after := by
  match request, pending with
  | .getDeviceTokenByDeviceCode _, _ => trivial
  | .insertDeviceToken _, pending => exact pending
  | .updateDeviceToken (.decide (.approve _)) _, pending => exact pending
  | .updateDeviceToken (.decide .reject) _, pending => exact pending
  | .updateDeviceToken .exchange token, ⟨state, decided⟩ =>
    refine ⟨state, ?_⟩
    rw [decisions_final run (by rw [decided]; simp), decided]
  | .createAuthToken code userId, decided =>
    have some_ : before.decisionsOn code ≠ [] := by
      rw [show before.decisionsOn code = _ from decided]
      simp
    exact (decisions_final run some_).trans decided

namespace History

/-- The history once a decision on a code was written. -/
theorem decisionsOn_decide (history : History) (db : DB) (code other : Text) (decision : Decision) :
    decisionsOn { history with db, decided := history.decided ++ [(code, decision)] } other =
      if other = code then history.decisionsOn other ++ [decision] else history.decisionsOn other := by
  by_cases same : other = code
  · subst same
    simp [decisionsOn]
  · simp [decisionsOn, same, Ne.symm same]

theorem issuedFor_issue (history : History) (db : DB) (code other : Text) (token : AuthToken) :
    issuedFor { history with db, issued := history.issued ++ [(code, token)] } other =
      if other = code then history.issuedFor other ++ [token] else history.issuedFor other := by
  by_cases same : other = code
  · subst same
    simp [issuedFor]
  · simp [issuedFor, same, Ne.symm same]

end History

private theorem keeps_insert {before : History} (agrees : before.Agrees) {token : DeviceToken}
    (pending : token.state = .pending)
    {db : DB} (inserted : before.db.insertDeviceToken token = some db) :
    History.Agrees { before with db } ∧ Advances before { before with db } := by
  have rows := DB.insertDeviceToken_rows inserted
  have absent : before.row token.deviceCode = none := (rows token.deviceCode).1
  have row (code : Text) : History.row { before with db } code =
      if code = token.deviceCode then some token else before.row code := (rows code).2
  refine ⟨?_, ?_, fun _ _ => rfl⟩
  · intro code
    have here := agrees code
    rw [row]
    by_cases same : code = token.deviceCode
    · subst same
      rw [absent] at here
      rw [if_pos rfl, Agrees]
      simp only [pending]
      exact here
    · rw [if_neg same]
      exact here
  · intro code old found
    refine ⟨old, ?_, .refl⟩
    rw [row, if_neg, found]
    rintro rfl
    rw [absent] at found
    cases found

/-- An update moves the row of its code along, and no other. -/
theorem update_advances {before : History} {token old : DeviceToken}
    (found : before.row token.deviceCode = some old) {db : DB} (updated : before.db.updateDeviceToken token = some db)
    (edge : Relation.ReflGen Edge old.state token.state) {code : Text} {current : DeviceToken}
    (present : before.row code = some current) :
    ∃ row, db.getDeviceTokenByDeviceCode code = some row ∧ Relation.ReflGen Edge current.state row.state := by
  have row : db.getDeviceTokenByDeviceCode code =
      if code = token.deviceCode then (before.row code).map fun row => { token with userCode := row.userCode }
      else before.row code := DB.updateDeviceToken_rows updated code
  rw [row, present]
  by_cases same : code = token.deviceCode
  · subst same
    cases found.symm.trans present
    rw [if_pos rfl]
    exact ⟨_, rfl, edge⟩
  · rw [if_neg same]
    exact ⟨current, rfl, .refl⟩

private theorem keeps_decide {before : History} (agrees : before.Agrees) {token : DeviceToken} {decision : Decision}
    (carried : Pending (.updateDeviceToken (.decide decision) token) before)
    {old : DeviceToken} (found : before.row token.deviceCode = some old) (open_ : old.state = .pending)
    {db : DB} (updated : before.db.updateDeviceToken token = some db) :
    History.Agrees { before with db, decided := before.decided ++ [(token.deviceCode, decision)] } ∧
      Advances before { before with db, decided := before.decided ++ [(token.deviceCode, decision)] } := by
  have undecided := agrees token.deviceCode
  rw [found, Agrees] at undecided
  simp only [open_] at undecided
  have row (code : Text) : db.getDeviceTokenByDeviceCode code =
      if code = token.deviceCode then (before.row code).map fun row => { token with userCode := row.userCode }
      else before.row code := DB.updateDeviceToken_rows updated code
  have edge : Edge .pending token.state := by
    cases decision with
    | approve userId => rw [carried.1]; exact .approve
    | reject => rw [show token.state = _ from carried]; exact .reject
  refine ⟨?_, ?_, ?_⟩
  · intro code
    rw [History.row, row, History.decisionsOn_decide]
    by_cases same : code = token.deviceCode
    · subst same
      rw [if_pos rfl, if_pos rfl, found, undecided.1]
      cases decision with
      | approve userId =>
        simp only [Option.map_some, Agrees, carried.1, carried.2]
        refine ⟨rfl, ?_⟩
        intro issued member
        have nothing : issued ∈ before.issuedFor token.deviceCode := member
        rw [undecided.2] at nothing
        cases nothing
      | reject =>
        simp only [Option.map_some, Agrees, show token.state = _ from carried]
        exact ⟨rfl, undecided.2⟩
    · rw [if_neg same, if_neg same]
      exact agrees code
  · exact fun _ _ => update_advances found updated (open_ ▸ .single edge)
  · intro code decided
    rw [History.decisionsOn_decide, if_neg]
    rintro rfl
    exact decided undecided.1

private theorem keeps_exchange {before : History} (agrees : before.Agrees) {token : DeviceToken}
    (carried : Pending (.updateDeviceToken .exchange token) before)
    {old : DeviceToken} (found : before.row token.deviceCode = some old)
    (open_ : old.state = .approved ∨ old.state = .exchanged)
    {db : DB} (updated : before.db.updateDeviceToken token = some db) :
    History.Agrees { before with db } ∧ Advances before { before with db } := by
  have decided := agrees token.deviceCode
  rw [found] at decided
  have approved := (agrees_approved open_).mp decided
  have same_user : token.approvedByUserId = old.approvedByUserId := by
    have both := carried.2.symm.trans approved.1
    simpa using both
  have row (code : Text) : db.getDeviceTokenByDeviceCode code =
      if code = token.deviceCode then (before.row code).map fun row => { token with userCode := row.userCode }
      else before.row code := DB.updateDeviceToken_rows updated code
  refine ⟨?_, ?_, fun _ _ => rfl⟩
  · intro code
    rw [History.row, row]
    by_cases same : code = token.deviceCode
    · subst same
      rw [if_pos rfl, found]
      apply (agrees_approved (.inr carried.1)).mpr
      rw [same_user]
      exact approved
    · rw [if_neg same]
      exact agrees code
  · have edge : Relation.ReflGen Edge old.state token.state := by
      rw [carried.1]
      rcases open_ with state | state
      · rw [state]
        exact .single .exchange
      · rw [state]
    exact fun _ _ => update_advances found updated edge

private theorem keeps_issue {before : History} (agrees : before.Agrees) {code userId id : Text}
    (approved : before.decisionsOn code = [.approve userId]) {token : AuthToken} {db : DB}
    (created : before.db.createAuthToken id userId = some (token, db)) :
    History.Agrees { before with db, issued := before.issued ++ [(code, token)] } ∧
      Advances before { before with db, issued := before.issued ++ [(code, token)] } := by
  obtain ⟨owner, rows⟩ := DB.createAuthToken_rows created
  have row (other : Text) : History.row { before with db, issued := before.issued ++ [(code, token)] } other =
      before.row other := rows other
  refine ⟨?_, ?_, fun _ _ => rfl⟩
  · intro other
    rw [row, History.issuedFor_issue]
    have here := agrees other
    by_cases same : other = code
    · subst same
      rw [if_pos rfl]
      change Agrees _ (before.decisionsOn other) _
      rw [approved] at here ⊢
      cases found : before.row other with
      | none => simp [found, Agrees] at here
      | some current =>
        have state : current.state = .approved ∨ current.state = .exchanged := by
          rw [found] at here
          cases state : current.state <;> simp [Agrees, state] at here ⊢
        rw [found, agrees_approved state] at here
        rw [agrees_approved state]
        refine ⟨here.1, ?_⟩
        intro issued member
        rcases List.mem_append.mp member with old | new
        · exact here.2 issued old
        · rw [List.mem_singleton.mp new, owner]
          simpa using here.1
    · rw [if_neg same]
      exact here
  · intro other current present
    exact ⟨current, by rw [row, present], .refl⟩

/-- Every answered call keeps the rows in agreement with the history. -/
theorem keeps {before after : History} (agrees : before.Agrees) {request : DbRequest}
    {reply : Except String request.Value} (pending : Pending request before)
    (fresh : freshDecisions request before reply) (served : serves request before reply after) :
    after.Agrees ∧ Advances before after := by
  have unchanged (same : after = before) : after.Agrees ∧ Advances before after := by
    rw [same]
    exact ⟨agrees, .refl before⟩
  match request, reply, pending, fresh, served with
  | .getDeviceTokenByDeviceCode _, .error _, _, _, same => exact unchanged same
  | .insertDeviceToken _, .error _, _, _, same => exact unchanged same
  | .updateDeviceToken _ _, .error _, _, _, same => exact unchanged same
  | .createAuthToken _ _, .error _, _, _, same =>
    rw [show after = _ from same]
    exact ⟨agrees, fun _ row found => ⟨row, found, .refl⟩, fun _ _ => rfl⟩
  | .getDeviceTokenByDeviceCode _, .ok _, _, _, ⟨_, same⟩ => exact unchanged same
  | .insertDeviceToken _, .ok _, pending, _, ⟨_, inserted, same⟩ =>
    exact same ▸ keeps_insert agrees pending inserted
  | .updateDeviceToken (.decide _) _, .ok (), pending, fresh, ⟨_, updated, same⟩ =>
    obtain ⟨old, found, open_ | ⟨impossible, _⟩⟩ := fresh rfl
    · exact same ▸ keeps_decide agrees pending found open_ updated
    · cases impossible
  | .updateDeviceToken .exchange _, .ok (), pending, fresh, ⟨_, updated, same⟩ =>
    obtain ⟨old, found, state⟩ := fresh rfl
    have open_ : old.state = .approved ∨ old.state = .exchanged := by
      rcases state with approved | ⟨_, exchanged⟩
      · exact .inl approved
      · exact .inr exchanged
    exact same ▸ keeps_exchange agrees pending found open_ updated
  | .createAuthToken _ _, .ok _, pending, _, ⟨_, _, created, same⟩ =>
    exact same ▸ keeps_issue agrees pending created

/-- A task that is about to create an auth token for a code. -/
def Mints (task : Task) (code : Text) : Prop :=
  ∃ userId next, task = .call (.createAuthToken code userId) next

/-- What lets a task go on to create an auth token: it has just exchanged the code. -/
def Exchanges (request : DbRequest) (reply : Except String request.Value) (code : Text) : Prop :=
  (∃ token, request = .updateDeviceToken .exchange token ∧ token.deviceCode = code ∧ token.state = .exchanged) ∧
    ∃ value, reply = .ok value

/-- What an answer leads on to: an auth token only for a code that was just exchanged, and an `Ok` only to the one
decision on a code. -/
structure LeadsOn (request : DbRequest) (before : History) (reply : Except String request.Value) (next : Task)
    (after : History) : Prop where
  mints : ∀ code, Mints next code → Exchanges request reply code
  decides : ∀ code decision, next = .done (some (.decided code decision (.ok ()))) →
    before.decisionsOn code = [] ∧ after.decisionsOn code = [decision]

/-- What a method that has ended well leaves in the history. -/
def Written (ended : Option Ended) (history : History) : Prop :=
  ∀ code decision, ended = some (.decided code decision (.ok ())) → decision ∈ history.decisionsOn code

def deciding : Contract DbCalls History (Option Ended) where
  valid := History.Agrees
  grows := Relation.ReflTransGen Advances
  waits := Pending
  served := fun request before reply next after =>
    Advances before after ∧ LeadsOn request before reply next after
  post := Written

theorem deciding_stable : deciding.Stable where
  refl := fun _ => .refl
  trans := fun first second => first.trans second
  waits := fun _ run pending => pending.later run
  post := by
    intro ended before after _ run written code decision same
    have member := written code decision same
    have some_ : before.decisionsOn code ≠ [] := List.ne_nil_of_mem member
    rw [decisions_final run some_]
    exact member

private theorem call_safe {request : DbRequest} {next : Except String request.Value → Task} {history : History}
    (pending : Pending request history)
    (resume : ∀ before reply after, before.Agrees → Pending request before →
      servesUnder freshDecisions request before reply after →
        LeadsOn request before reply (next reply) after ∧
          deciding.Safe (servesUnder freshDecisions) (next reply) after) :
    deciding.Safe (servesUnder freshDecisions) (.call request next) history := by
  refine ⟨pending, ?_⟩
  intro before reply after agrees run answered
  have pending' := pending.later run
  obtain ⟨kept, advances⟩ := keeps agrees pending' answered.1 answered.2
  obtain ⟨leads, safe⟩ := resume before reply after agrees pending' answered
  exact ⟨kept, .single advances, ⟨advances, leads⟩, safe⟩

/-- A call that ends without having decided anything. -/
private theorem ends_undecided {ended : Option Ended} {request : DbRequest} {reply : Except String request.Value}
    {before after : History} (undecided : ∀ code decision, ended ≠ some (.decided code decision (.ok ()))) :
    LeadsOn request before reply (.done ended) after ∧ deciding.Safe (servesUnder freshDecisions) (.done ended) after := by
  refine ⟨⟨?_, ?_⟩, fun code decision same => absurd same (undecided code decision)⟩
  · rintro code ⟨_, _, impossible⟩
    cases impossible
  · intro code decision same
    cases same
    exact absurd rfl (undecided code decision)

private theorem goes_on {asked request : DbRequest} {reply : Except String asked.Value} {before after : History}
    {next : Except String request.Value → Task} (other : ∀ code userId, request ≠ .createAuthToken code userId) :
    LeadsOn asked before reply (.call request next) after := by
  refine ⟨?_, ?_⟩
  · rintro code ⟨userId, _, mints⟩
    cases mints
    exact absurd rfl (other code userId)
  · intro code decision impossible
    cases impossible

private theorem create_safe (deviceCode userCode : Text) (now : Int) (history : History) :
    deciding.Safe (servesUnder freshDecisions)
      ((Storage.createDeviceToken deviceCode userCode now).bind fun result => .done (some (.created result)))
      history := by
  apply call_safe
  · rfl
  · intro before reply after _ _ _
    cases reply with
    | ok value => exact ends_undecided nofun
    | error error => exact ends_undecided nofun

/-- Both decisions: read the row, check that it is pending, write it back. -/
theorem decide_safe {deviceCode : Text} {decision : Decision} {edit : DeviceToken → DeviceToken} {history : History}
    (code : ∀ token, (edit token).deviceCode = token.deviceCode)
    (carried : ∀ token before, Pending (.updateDeviceToken (.decide decision) (edit token)) before) :
    deciding.Safe (servesUnder freshDecisions)
      (.call (.getDeviceTokenByDeviceCode deviceCode) fun reply =>
        (match reply with
          | .ok (some token) =>
            if token.state ≠ .pending then .done (.error "not pending") else
            .call (.updateDeviceToken (.decide decision) (edit token)) .done
          | .ok none => .done (.error "missing token")
          | .error error => .done (.error error) : Program DbCalls (Except String Unit)).bind fun result =>
            .done (some (.decided deviceCode decision result))) history := by
  refine call_safe (show Pending (.getDeviceTokenByDeviceCode deviceCode) history from trivial) ?_
  intro before reply after _ _ answered
  match reply, answered.2 with
  | .error error, _ => exact ends_undecided nofun
  | .ok none, _ => exact ends_undecided nofun
  | .ok (some token), ⟨found, _⟩ =>
    by_cases pending : token.state = .pending
    · simp only [pending, ne_eq, not_true_eq_false, if_false, Program.call_bind, Program.done_bind]
      refine ⟨goes_on nofun, ?_⟩
      apply call_safe (carried token after)
      intro before reply after agrees _ answered
      obtain ⟨fresh, served⟩ := answered
      match reply, served with
      | .error error, _ => exact ends_undecided nofun
      | .ok (), ⟨db, _, same⟩ =>
        have own : (edit token).deviceCode = deviceCode := (code token).trans (DB.getDeviceToken_code found.symm)
        have undecided : before.decisionsOn deviceCode = [] := by
          obtain ⟨row, here, open_ | ⟨impossible, _⟩⟩ := fresh rfl
          · have decided := agrees deviceCode
            rw [own] at here
            simp only [here, Agrees, show row.state = .pending from open_] at decided
            exact decided.1
          · cases impossible
        have decided : after.decisionsOn deviceCode = [decision] := by
          rw [same, History.decisionsOn_decide, own, if_pos rfl, undecided]
          rfl
        refine ⟨⟨?_, ?_⟩, ?_⟩
        · rintro other ⟨_, _, impossible⟩
          cases impossible
        · intro other decision' ended
          cases ended
          exact ⟨undecided, decided⟩
        · intro other decision' ended
          cases ended
          rw [decided]
          exact List.mem_singleton_self _
    · simp only [pending, ne_eq, not_false_eq_true, if_true, Program.done_bind]
      exact ends_undecided nofun

private theorem poll_safe (deviceCode : Text) (history : History) :
    deciding.Safe (servesUnder freshDecisions)
      ((Storage.pollDeviceToken deviceCode).bind fun result => .done (some (.polled deviceCode result)))
      history := by
  simp only [Storage.pollDeviceToken, Program.call_bind]
  refine call_safe (show Pending (.getDeviceTokenByDeviceCode deviceCode) history from trivial) ?_
  intro before reply after agrees _ answered
  match reply, answered.2 with
  | .error error, _ => exact ends_undecided nofun
  | .ok none, _ => exact ends_undecided nofun
  | .ok (some token), ⟨found, same⟩ =>
    by_cases approved : token.state = .approved
    · simp only [approved, ne_eq, not_true_eq_false, if_false, Program.call_bind]
      have decided : after.decisionsOn token.deviceCode = [.approve token.approvedByUserId] := by
        have here := agrees token.deviceCode
        rw [DB.getDeviceToken_code found.symm] at here ⊢
        rw [← found] at here
        rw [same]
        exact ((agrees_approved (.inl approved)).mp here).1
      refine ⟨goes_on nofun, ?_⟩
      refine call_safe (show Pending (.updateDeviceToken .exchange _) after from ⟨rfl, decided⟩) ?_
      intro before reply after _ pending answered
      match reply, answered.2 with
      | .error error, _ => exact ends_undecided nofun
      | .ok (), ⟨db, _, same⟩ =>
        refine ⟨⟨?_, ?_⟩, ?_⟩
        · rintro code ⟨_, _, minting⟩
          cases minting
          exact ⟨⟨_, rfl, rfl, rfl⟩, (), rfl⟩
        · intro code decision impossible
          cases impossible
        · apply call_safe
          · rw [same]
            exact pending.2
          · intro before reply after _ _ _
            cases reply with
            | ok authToken => exact ends_undecided nofun
            | error error => exact ends_undecided nofun
    · simp only [approved, ne_eq, not_false_eq_true, if_true, Program.done_bind]
      exact ends_undecided nofun

private theorem deciding_starts {ι : Type} :
    deciding.Starts (servesUnder freshDecisions) (Tasks (ι := ι)) := by
  intro i last program history _ _ started
  cases started with
  | create deviceCode userCode now => exact create_safe deviceCode userCode now history
  | approve deviceCode userId => exact decide_safe (fun _ => rfl) (fun _ _ => ⟨rfl, rfl⟩)
  | reject deviceCode => exact decide_safe (fun _ => rfl) (fun _ _ => rfl)
  | poll deviceCode => exact poll_safe deviceCode history

/-- The decisions on a code are final. -/
structure DecisionsFinal (history : History) (code : Text) : Prop where
  single : (history.decisionsOn code).length ≤ 1
  rejected : .reject ∈ history.decisionsOn code → history.issuedFor code = []
  owner : ∀ token ∈ history.issuedFor code, history.decisionsOn code = [.approve token.userId]

theorem History.Agrees.final {history : History} (agrees : history.Agrees) (code : Text) :
    DecisionsFinal history code := by
  have decided := agrees code
  cases found : history.row code with
  | none =>
    simp only [found, Tunnel.Agrees] at decided
    exact ⟨by simp [decided.1], by simp [decided.1], by simp [decided.2]⟩
  | some row =>
    rw [found] at decided
    cases state : row.state with
    | pending =>
      simp only [Tunnel.Agrees, state] at decided
      exact ⟨by simp [decided.1], by simp [decided.1], by simp [decided.2]⟩
    | rejected =>
      simp only [Tunnel.Agrees, state] at decided
      exact ⟨by simp [decided.1], fun _ => decided.2, by simp [decided.2]⟩
    | approved | exchanged =>
      have approved := (agrees_approved (by simp [state])).mp decided
      refine ⟨by simp [approved.1], by simp [approved.1], ?_⟩
      intro token member
      rw [approved.1, approved.2 token member]

theorem deciding_holds {ι : Type} [DecidableEq ι] {tokens : Tokens ι}
    (reachable : Tokens.Reachable freshDecisions tokens) :
    deciding.Holds (servesUnder freshDecisions) tokens := by
  have initial : deciding.Holds (servesUnder freshDecisions) (Tokens.initial (ι := ι)) := by
    refine ⟨fun code => ⟨rfl, rfl⟩, ?_⟩
    intro i code decision impossible
    cases impossible
  exact initial.run deciding_stable deciding_starts reachable

/-- A call of this caller returns `Ok` to a decision on a code. -/
def Tokens.Decides {ι : Type} [DecidableEq ι] (meets : Meets) (i : ι) (code : Text) (before after : Tokens ι) : Prop :=
  Tokens.Step meets i before after ∧ ∃ decision, after.threads i = .done (some (.decided code decision (.ok ())))

theorem Tokens.Reachable.decides {ι : Type} [DecidableEq ι] {meets : Meets} {tokens : Tokens ι}
    (reachable : Tokens.Reachable meets tokens) (i : ι) {request : DbRequest} {next : Except String request.Value → Task}
    (waiting : tokens.threads i = .call request next) {reply : Except String request.Value} {after : History}
    (answered : servesUnder meets request tokens.shared reply after) {code : Text} {decision : Decision}
    (ended : next reply = .done (some (.decided code decision (.ok ())))) :
    ∃ later, Tokens.Decides meets i code tokens later ∧ Tokens.Reachable meets later ∧ later.shared = after :=
  ⟨_, ⟨.call reply after waiting answered, decision, (Function.update_self ..).trans ended⟩,
    reachable.call i waiting reply after answered.1 answered.2, rfl⟩

/-- A call that returns `Ok` has made the only decision. -/
theorem Tokens.Decides.only {ι : Type} [DecidableEq ι] {i : ι} {code : Text} {before after : Tokens ι}
    (decides : Tokens.Decides freshDecisions i code before after) (holds : deciding.Holds (servesUnder freshDecisions) before) :
    before.shared.decisionsOn code = [] ∧ after.shared.decisionsOn code ≠ [] := by
  obtain ⟨step, decision, ended⟩ := decides
  cases step with
  | start task idle started =>
    simp only [Function.update_self] at ended
    cases started <;> cases ended
  | call reply after waiting answered =>
    simp only [Function.update_self] at ended
    obtain ⟨undecided, decided⟩ := (holds.served deciding_stable waiting answered).2.decides code decision ended
    exact ⟨undecided, by simp [decided]⟩

/-- A history that has one device token, in this state. -/
def withToken (state : TokenState) (approvedByUserId : Text) : History :=
  { History.new with db := { DB.new with deviceTokens :=
    [{ Storage.newDeviceToken "d".toList "u".toList 0 with state, approvedByUserId }] } }

/-- Two callers and a device token that the first has created. -/
theorem created_reachable {meets : Meets}
    (met : meets (.insertDeviceToken (Storage.newDeviceToken "d".toList "u".toList 0)) .new (.ok ())) :
    ∃ tokens : Tokens Bool, Tokens.Reachable meets tokens ∧ tokens.shared = withToken .pending [] ∧
      ∀ i, ∃ last, tokens.threads i = .done last := by
  have initial : Tokens.Reachable meets (Tokens.initial (ι := Bool)) := .refl
  have started := initial.start false rfl (.create "d".toList "u".toList 0)
  have created := started.call false rfl (.ok ()) (withToken .pending []) met ⟨_, rfl, rfl⟩
  refine ⟨_, created, rfl, ?_⟩
  intro i
  cases i with
  | false => exact ⟨_, rfl⟩
  | true => exact ⟨_, rfl⟩

/-- In every run in which each update finds the row as its method had checked it,
the decisions on every code are final, a method that returned well has its
decision on record, no two calls on a code return well, and every step moves
every row along the edges only. -/
theorem device_decisions_final {ι : Type} [DecidableEq ι] {tokens : Tokens ι}
    (reachable : Tokens.Reachable freshDecisions tokens) :
    (∀ code, DecisionsFinal tokens.shared code) ∧
    (∀ i code decision, tokens.threads i = .done (some (.decided code decision (.ok ()))) →
      decision ∈ tokens.shared.decisionsOn code) ∧
    (∀ i code after, Tokens.Decides freshDecisions i code tokens after →
      ∀ later, Pool.Runs (servesUnder freshDecisions) Tasks after later →
        ∀ j last, ¬ Tokens.Decides freshDecisions j code later last) ∧
    ∀ i (after : Tokens ι), Tokens.Step freshDecisions i tokens after →
      ∀ code row, tokens.shared.row code = some row →
        ∃ row', after.shared.row code = some row' ∧ Relation.ReflGen Edge row.state row'.state := by
  have holds := deciding_holds reachable
  refine ⟨holds.valid.final, ?_, ?_, ?_⟩
  · intro i code decision idle
    exact holds.post idle code decision rfl
  · intro i code after first later run j last second
    have decided := (first.only holds).2
    have holds' : deciding.Holds (servesUnder freshDecisions) after := holds.step deciding_stable deciding_starts first.1
    have kept := decisions_final (holds'.run_grows deciding_stable deciding_starts run) decided
    have undecided := (second.only (holds'.run deciding_stable deciding_starts run)).1
    exact decided (kept.symm.trans undecided)
  · intro i after step code row found
    cases step with
    | call reply after waiting answered =>
      exact (holds.served deciding_stable waiting answered).1.rows code row found
    | start task idle started => exact ⟨row, found, .refl⟩

/-- The same history once decisions on the token were written. -/
def decidedBy (state : TokenState) (approvedByUserId : Text) (decisions : List Decision) : History :=
  { withToken state approvedByUserId with decided := decisions.map fun decision => ("d".toList, decision) }

/-- Such a run, in which one caller approves a device token. The same approval by the other one does not return well. -/
theorem device_decisions_final_approved : ∃ before approved : Tokens Bool,
    Tokens.Decides freshDecisions true "d".toList before approved ∧
    approved.shared.decisionsOn "d".toList = [.approve "alice".toList] ∧
    (∀ later, Pool.Runs (servesUnder freshDecisions) Tasks approved later →
      ∀ j last, ¬ Tokens.Decides freshDecisions j "d".toList later last) ∧
    ∀ code, DecisionsFinal approved.shared code := by
  have created : ∃ tokens : Tokens Bool, Tokens.Reachable freshDecisions tokens ∧ _ := created_reachable trivial
  obtain ⟨⟨history, threads⟩, reachable, rfl, idle⟩ := created
  obtain ⟨last, resting⟩ := idle true
  have started := reachable.start true resting (.approve "d".toList "alice".toList)
  have read := started.call true rfl (.ok (some _)) (withToken .pending []) trivial ⟨rfl, rfl⟩
  let row : DeviceToken :=
    { Storage.newDeviceToken "d".toList "u".toList 0 with state := .approved, approvedByUserId := "alice".toList }
  have writes : servesUnder freshDecisions (.updateDeviceToken (.decide (.approve "alice".toList)) row)
      (withToken .pending []) (.ok ()) (decidedBy .approved "alice".toList [.approve "alice".toList]) :=
    ⟨fun _ => ⟨_, rfl, .inl rfl⟩, _, rfl, rfl⟩
  obtain ⟨approved, decides, reachable', same⟩ := read.decides true rfl writes rfl
  refine ⟨_, approved, decides, ?_, (device_decisions_final read).2.2.1 true _ _ decides, (device_decisions_final reachable').1⟩
  rw [same]
  rfl

/-- An approval and a rejection that both read the row while it was pending. -/
theorem approval_and_rejection_both_succeed : ∃ tokens : Tokens Bool, Tokens.Reachable anyStep tokens ∧
    tokens.shared.decisionsOn "d".toList = [.approve "alice".toList, .reject] ∧
    tokens.threads true = .done (some (.decided "d".toList (.approve "alice".toList) (.ok ()))) ∧
    tokens.threads false = .done (some (.decided "d".toList .reject (.ok ()))) := by
  have created : ∃ tokens : Tokens Bool, Tokens.Reachable anyStep tokens ∧ _ := created_reachable trivial
  obtain ⟨⟨history, threads⟩, reachable, rfl, idle⟩ := created
  obtain ⟨last, resting⟩ := idle true
  obtain ⟨last', resting'⟩ := idle false
  have approving := reachable.start true resting (.approve "d".toList "alice".toList)
  have rejecting := approving.start false resting' (.reject "d".toList)
  have read := rejecting.call true rfl (.ok (some _)) (withToken .pending []) trivial ⟨rfl, rfl⟩
  have read' := read.call false rfl (.ok (some _)) (withToken .pending []) trivial ⟨rfl, rfl⟩
  have approved := read'.call true rfl (.ok ()) (decidedBy .approved "alice".toList [.approve "alice".toList])
    trivial ⟨_, rfl, rfl⟩
  have rejected := approved.call false rfl (.ok ())
    (decidedBy .rejected [] [.approve "alice".toList, .reject]) trivial ⟨_, rfl, rfl⟩
  exact ⟨_, rejected, rfl, rfl, rfl⟩

end Pos2.Tunnel
