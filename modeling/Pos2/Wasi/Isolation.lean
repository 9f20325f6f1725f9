import Pos2.Wasi.InTx

/-! The statements that host calls execute, in any order of calls of any guest tasks.
A transaction has the connection to itself from its `begin` to its `commit`,
`rollback` or `drop`. -/

namespace Pos2.Wasi
open Calls

abbrev Statement := Text × List Value

/-- A host call that was made, with what it returned and the statements it executed. -/
structure Turn where
  call : Call
  result : Except String call.Result
  statements : List Statement

/-- The transaction that a call is made on. -/
def Call.on : Call → Option Nat
  | .begin_ | .query _ _ | .execute _ _ => none
  | .transactionQuery self _ _ | .transactionExecute self _ _ | .commit self | .rollback self | .drop self => some self

/-- The error code. A `drop` has none. -/
def Call.refusal : (call : Call) → call.Result
  | .begin_ | .execute _ _ | .transactionExecute _ _ _ => .error .bad
  | .query _ _ | .transactionQuery _ _ _ => .error .bad
  | .commit _ | .rollback _ => .error .bad
  | .drop _ => ()

def Call.guest : Call → Bool
  | .query _ _ | .execute _ _ | .transactionQuery _ _ _ | .transactionExecute _ _ _ => true
  | _ => false

def Request.statements : Request → List Statement
  | .execute sql args | .query sql args => [(sql, args)]
  | _ => []

/-- BEGIN, COMMIT and ROLLBACK succeed. -/
def Call.HostSucceeds (call : Call) : (request : Request) → Except String request.Value → Prop
  | .execute _ _, reply => call.guest = false → ∃ value, reply = .ok value
  | _, _ => True

def recorded (call : Call) : Handler SqliteCalls (Store × List Statement) := fun request before reply after =>
  serves request before.1 reply after.1 ∧ call.HostSucceeds request reply ∧
    after.2 = before.2 ++ request.statements

def Turn.Happens (turn : Turn) (before after : Store) : Prop :=
  turn.call.run.Ends (recorded turn.call) (before, []) turn.result (after, turn.statements)

/-- The calls so far, the last one first. -/
inductive Turns : List Turn → Store → Prop where
  | new : Turns [] .new
  | next {turns before turn after} (earlier : Turns turns before) (happens : turn.Happens before after) :
      Turns (turn :: turns) after

def Turn.Begins (self : Nat) : Turn → Prop
  | ⟨.begin_, .ok (.ok rep), _⟩ => rep = self
  | _ => False

def Turn.Finishes (self : Nat) : Turn → Prop
  | ⟨.commit rep, _, _⟩ | ⟨.rollback rep, _, _⟩ | ⟨.drop rep, _, _⟩ => rep = self
  | _ => False

/-- A `commit` or `rollback` that did not return the error code. -/
def Turn.Settles (self : Nat) : Turn → Prop
  | ⟨.commit rep, .ok (.ok ()), _⟩ | ⟨.rollback rep, .ok (.ok ()), _⟩ => rep = self
  | _ => False

/-- After the `begin` of a transaction, and before its end. -/
def Within (self : Nat) : List Turn → Prop
  | [] => False
  | turn :: earlier => turn.Begins self ∨ Within self earlier ∧ ¬ turn.Finishes self

/-- After a `commit` or `rollback`, and before the `drop`. -/
def Over (self : Nat) : List Turn → Prop
  | [] => False
  | turn :: earlier => turn.Settles self ∨ Over self earlier ∧ turn.call ≠ .drop self

/-- The error code is returned and nothing is executed. A call on what is not in the table traps. -/
def Turn.Refused (turn : Turn) (before : Store) : Prop :=
  turn.statements = [] ∧ (turn.result = .ok turn.call.refusal ∨
    ∃ self error, turn.call.on = some self ∧ before.table self = none ∧ turn.result = .error error)

/-- What holds after some calls, and of whatever call is the next. -/
structure Isolated (turns : List Turn) (store : Store) : Prop where
  one : ∀ self other, store.Running self → store.Running other → self = other
  running : ∀ self, Within self turns → store.Running self
  outside : ∀ self (turn : Turn) after, Within self turns → turn.Happens store after → turn.call.on ≠ some self →
    turn.Refused store
  finished : ∀ self (turn : Turn) after, Over self turns → turn.Happens store after → turn.call.on = some self →
    turn.statements = [] ∧ turn.result = .ok turn.call.refusal
  dropped : ∀ self (turn : Turn) after, store.Running self → turn.Happens store after → turn.call = .drop self →
    turn.statements = [("ROLLBACK".toList, [])] ∧ after.transaction = false ∧ ¬ after.Running self

/-! ### What a call does -/

/-- The call finds that it is not to execute anything. -/
def Call.Barred (call : Call) (store : Store) : Prop :=
  match call.on with
  | none => store.inTx = true
  | some self => store.table self = some ⟨false⟩

def Call.Admitted (call : Call) (store : Store) : Prop :=
  match call.on with
  | none => store.inTx = false
  | some self => store.Running self

inductive Takes : Turn → Store → Store → Prop where
  | refused {call store} (barred : call.Barred store) (stays : ∀ self, call ≠ .drop self) :
      Takes ⟨call, .ok call.refusal, []⟩ store store
  | missing {call store self error} (on : call.on = some self) (absent : store.table self = none) :
      Takes ⟨call, .error error, []⟩ store store
  | states {call store result statement transaction} (guest : call.guest = true) (admitted : call.Admitted store) :
      Takes ⟨call, result, [statement]⟩ store { store with transaction }
  | begins {store self} (idle : store.inTx = false) (absent : store.table self = none) :
      Takes ⟨.begin_, .ok (.ok self), [("BEGIN".toList, [])]⟩ store
        ⟨true, true, Function.update store.table self (some ⟨true⟩)⟩
  | full {store error} (idle : store.inTx = false) :
      Takes ⟨.begin_, .error error, [("BEGIN".toList, [])]⟩ store ⟨true, true, store.table⟩
  | commits {store self} (running : store.Running self) :
      Takes ⟨.commit self, .ok (.ok ()), [("COMMIT".toList, [])]⟩ store
        ⟨false, false, Function.update store.table self (some ⟨false⟩)⟩
  | rollsBack {store self} (running : store.Running self) :
      Takes ⟨.rollback self, .ok (.ok ()), [("ROLLBACK".toList, [])]⟩ store
        ⟨false, false, Function.update store.table self (some ⟨false⟩)⟩
  | drops {store self} (running : store.Running self) :
      Takes ⟨.drop self, .ok (), [("ROLLBACK".toList, [])]⟩ store
        ⟨false, false, Function.update store.table self none⟩
  | discards {store self} (finished : store.table self = some ⟨false⟩) :
      Takes ⟨.drop self, .ok (), []⟩ store { store with table := Function.update store.table self none }

theorem Takes.refuses (call : Call) {store : Store} (barred : call.Barred store) (stays : ∀ self, call ≠ .drop self) :
    Takes ⟨call, .ok call.refusal, []⟩ store store := .refused barred stays

section
variable {call : Call} {store : Store} {after : Store × List Statement}

private theorem looked_recorded {guard : Request} {reply : Except String guard.Value} {so_far : List Statement}
    (looks : guard = .inTx ∨ ∃ self, guard = .getMut self)
    (answered : recorded call guard (store, so_far) reply after) :
    serves guard store reply store ∧ after = (store, so_far) := by
  obtain ⟨served, _, written⟩ := answered
  have same : after.1 = store := by
    rcases looks with rfl | ⟨self, rfl⟩ <;> cases reply with
    | ok value => exact served.2
    | error error => first | exact served.2 | exact served.elim
  have quiet : after.2 = so_far := by
    rcases looks with rfl | ⟨self, rfl⟩ <;> exact written.trans (List.append_nil _)
  exact ⟨same ▸ served, Prod.ext same quiet⟩

private theorem stated_recorded {statement : Request} {sql : Text} {args : List Value} {so_far : List Statement}
    {reply : Except String statement.Value} (states : statement = .execute sql args ∨ statement = .query sql args)
    (answered : recorded call statement (store, so_far) reply after) :
    after = ({ store with transaction := after.1.transaction }, so_far ++ [(sql, args)]) := by
  obtain ⟨served, _, written⟩ := answered
  have changes : after.1 = { store with transaction := after.1.transaction } := by
    rcases states with rfl | rfl
    · exact statement_changes (.inl ⟨sql, args, rfl⟩) served
    · exact statement_changes (.inr ⟨sql, args, rfl⟩) served
  refine Prod.ext changes (written.trans ?_)
  rcases states with rfl | rfl <;> rfl

/-- A call of a guest: it is refused, or has no such handle, or executes its statement. -/
theorem guest_ends {α : Type} {guard statement : Request} {refuses : guard.Value → Bool}
    {give : statement.Value → α} {result : Except String (Except ErrorCode α)} {sql : Text} {args : List Value}
    (looks : guard = .inTx ∨ ∃ self, guard = .getMut self)
    (states : statement = .execute sql args ∨ statement = .query sql args)
    (ends : Fallible.Ends (recorded call) (ask guard >>= fun looked =>
      if refuses looked = true then pure (.error .bad) else ask statement >>= fun value => pure (.ok (give value)))
      (store, []) result after) :
    (∃ looked, serves guard store (.ok looked) store ∧ refuses looked = true ∧
      result = .ok (.error .bad) ∧ after = (store, [])) ∨
    (∃ looked, serves guard store (.ok looked) store ∧ refuses looked = false ∧
      ∃ transaction, after = ({ store with transaction }, [(sql, args)])) ∨
    ∃ error, serves guard store (.error error) store ∧ result = .error error ∧ after = (store, []) := by
  rcases Fallible.ends_ask.mp ends with ⟨looked, between, answered, rest⟩ | ⟨error, answered, failed⟩
  · obtain ⟨found, rfl⟩ := looked_recorded looks answered
    split at rest
    next refused =>
      obtain ⟨returned, same⟩ := Fallible.ends_pure.mp rest
      exact .inl ⟨looked, found, refused, returned, same⟩
    next admitted =>
      refine .inr (.inl ⟨looked, found, Bool.eq_false_iff.mpr admitted, ?_⟩)
      rcases Fallible.ends_ask.mp rest with ⟨value, last, answered, rest⟩ | ⟨error, answered, _⟩
      · obtain ⟨_, rfl⟩ := Fallible.ends_pure.mp rest
        exact ⟨_, stated_recorded states answered⟩
      · exact ⟨_, stated_recorded states answered⟩
  · obtain ⟨absent, same⟩ := looked_recorded looks answered
    exact .inr (.inr ⟨error, absent, failed, same⟩)

/-- A request of the host. -/
theorem host_recorded {request : Request} {reply : Except String request.Value} {so_far : List Statement}
    (answered : recorded call request (store, so_far) reply after) (silent : request.statements = []) :
    serves request store reply after.1 ∧ after.2 = so_far :=
  ⟨answered.1, by rw [answered.2.2, silent, List.append_nil]⟩

/-- BEGIN, COMMIT and ROLLBACK. -/
theorem host_statement {sql : Text} {reply : Except String Nat} {so_far : List Statement} (host : call.guest = false)
    (answered : recorded call (.execute sql []) (store, so_far) reply after) :
    ∃ value, reply = .ok value ∧ Effect sql true store.transaction after.1.transaction ∧
      after = ({ store with transaction := after.1.transaction }, so_far ++ [(sql, [])]) := by
  obtain ⟨value, rfl⟩ := answered.2.1 host
  obtain ⟨transaction, effect, same⟩ := answered.1
  exact ⟨value, rfl, by rwa [same], stated_recorded (.inl rfl) answered⟩

end

/-! ### One lemma for each kind of call -/

section
variable {store after : Store} {statements : List Statement} {self : Nat}

private theorem stopped_of_found {tx : Transaction} (found : store.table self = some tx)
    (stopped : (!tx.running) = true) :
    store.table self = some ⟨false⟩ := by
  cases tx with
  | mk running =>
    cases running with
    | false => exact found
    | true => cases stopped

private theorem ended_effect {sql : Text} {before after : Bool} (ends : sql = "COMMIT".toList ∨ sql = "ROLLBACK".toList)
    (effect : Effect sql true before after) : after = false := by
  have other : sql ≠ "BEGIN".toList := by
    rcases ends with rfl | rfl <;> decide
  rw [Effect, if_neg other, if_pos ends] at effect
  exact effect.2

/-- The statement that ends a transaction, after the flag was cleared. -/
theorem stop_ends {call : Call} {α : Type} {value : α} {result : Except String α} {sql : Text}
    (host : call.guest = false) (ending : sql = "COMMIT".toList ∨ sql = "ROLLBACK".toList)
    (ends : Fallible.Ends (recorded call) (do
      ask (.setInTx false)
      let _ ← ask (.execute sql [])
      pure value) (store, []) result (after, statements)) :
    result = .ok value ∧ after = ⟨false, false, store.table⟩ ∧ statements = [(sql, [])] := by
  rcases Fallible.ends_ask.mp ends with ⟨_, between, answered, rest⟩ | ⟨_, answered, _⟩
  · obtain ⟨flagged, so_far⟩ := host_recorded answered rfl
    obtain ⟨cleared, recorded⟩ := between
    cases so_far
    rcases Fallible.ends_ask.mp rest with ⟨_, last, answered, rest⟩ | ⟨_, answered, _⟩
    · obtain ⟨_, _, effect, same⟩ := host_statement host answered
      obtain ⟨returned, rfl⟩ := Fallible.ends_pure.mp rest
      rw [ended_effect ending effect, show cleared = { store with inTx := false } from flagged] at same
      cases same
      exact ⟨returned, rfl, rfl⟩
    · obtain ⟨_, impossible, _⟩ := host_statement host answered
      cases impossible
  · exact (host_recorded answered rfl).1.elim

/-- `commit` and `rollback`. -/
theorem finish_ends {call : Call} {sql : Text} {result : Except String (Except ErrorCode Unit)}
    (host : call.guest = false) (ending : sql = "COMMIT".toList ∨ sql = "ROLLBACK".toList)
    (ends : (Sqlite.finish sql self).Ends (recorded call) (store, []) result (after, statements)) :
    (store.table self = some ⟨false⟩ ∧ result = .ok (.error .bad) ∧ after = store ∧ statements = []) ∨
    (store.Running self ∧ result = .ok (.ok ()) ∧ statements = [(sql, [])] ∧
      after = ⟨false, false, Function.update store.table self (some ⟨false⟩)⟩) ∨
    ∃ error, store.table self = none ∧ result = .error error ∧ after = store ∧ statements = [] := by
  rcases Fallible.ends_ask.mp ends with ⟨tx, between, answered, rest⟩ | ⟨error, answered, failed⟩
  · obtain ⟨⟨found, _⟩, rfl⟩ := looked_recorded (.inr ⟨self, rfl⟩) answered
    split at rest
    next stopped =>
      obtain ⟨returned, same⟩ := Fallible.ends_pure.mp rest
      cases same
      exact .inl ⟨stopped_of_found found stopped, returned, rfl, rfl⟩
    next running =>
      have running := running_of_found found (by simpa using running)
      rcases Fallible.ends_ask.mp rest with ⟨_, cleared, answered, rest⟩ | ⟨_, answered, _⟩
      · obtain ⟨⟨_, stopped⟩, so_far⟩ := host_recorded answered rfl
        obtain ⟨cleared, recorded⟩ := cleared
        cases so_far
        obtain ⟨returned, same, written⟩ := stop_ends host ending rest
        rw [show cleared = _ from stopped] at same
        exact .inr (.inl ⟨running, returned, written, same⟩)
      · exact (host_recorded answered rfl).1.elim
  · obtain ⟨⟨absent, _⟩, same⟩ := looked_recorded (.inr ⟨self, rfl⟩) answered
    cases same
    exact .inr (.inr ⟨error, absent, failed, rfl, rfl⟩)

private theorem drop_ends {result : Except String Unit}
    (ends : (Sqlite.drop self).Ends (recorded (.drop self)) (store, []) result (after, statements)) :
    Takes ⟨.drop self, result, statements⟩ store after := by
  rcases Fallible.ends_ask.mp ends with ⟨tx, between, answered, rest⟩ | ⟨error, answered, failed⟩
  · obtain ⟨⟨found, deleted⟩, so_far⟩ := host_recorded answered rfl
    obtain ⟨between, recorded⟩ := between
    cases so_far
    cases deleted
    split at rest
    next running =>
      obtain ⟨rfl, rfl, rfl⟩ := stop_ends rfl (.inr rfl) rest
      exact .drops (running_of_found found running)
    next stopped =>
      obtain ⟨rfl, same⟩ := Fallible.ends_pure.mp rest
      cases same
      exact .discards (stopped_of_found found (by simpa using stopped))
  · obtain ⟨⟨absent, same⟩, so_far⟩ := host_recorded answered rfl
    cases so_far
    cases same
    cases failed
    exact .missing rfl absent

private theorem begin_ends_takes {result : Except String (Except ErrorCode Nat)}
    (ends : Sqlite.begin_.Ends (recorded .begin_) (store, []) result (after, statements)) :
    Takes ⟨.begin_, result, statements⟩ store after := by
  rcases Fallible.ends_ask.mp ends with ⟨flag, between, answered, rest⟩ | ⟨_, answered, _⟩
  · obtain ⟨⟨flagged, _⟩, rfl⟩ := looked_recorded (.inl rfl) answered
    split at rest
    next busy =>
      obtain ⟨rfl, same⟩ := Fallible.ends_pure.mp rest
      cases same
      exact .refuses .begin_ (flagged.symm.trans busy) nofun
    next idle =>
      have idle : store.inTx = false := by
        rw [← show flag = store.inTx from flagged]
        exact Bool.eq_false_iff.mpr idle
      rcases Fallible.ends_ask.mp rest with ⟨_, opened, answered, rest⟩ | ⟨_, answered, _⟩
      · obtain ⟨_, _, effect, same⟩ := host_statement rfl answered
        have begun : opened = ({ store with transaction := true }, [("BEGIN".toList, [])]) := by
          rwa [show opened.1.transaction = true from effect.2] at same
        cases begun
        rcases Fallible.ends_ask.mp rest with ⟨_, flagged, answered, rest⟩ | ⟨_, answered, _⟩
        · obtain ⟨set, so_far⟩ := host_recorded answered rfl
          obtain ⟨flagged, recorded⟩ := flagged
          cases so_far
          cases set
          rcases Fallible.ends_ask.mp rest with ⟨rep, last, answered, rest⟩ | ⟨_, answered, failed⟩
          · obtain ⟨⟨absent, pushed⟩, so_far⟩ := host_recorded answered rfl
            obtain ⟨rfl, rfl⟩ := Fallible.ends_pure.mp rest
            cases so_far
            cases pushed
            exact .begins idle absent
          · obtain ⟨same, so_far⟩ := host_recorded answered rfl
            cases so_far
            cases same
            cases failed
            exact .full idle
        · exact (host_recorded answered rfl).1.elim
      · obtain ⟨_, impossible, _⟩ := host_statement rfl answered
        cases impossible
  · exact (looked_recorded (.inl rfl) answered).1.elim

end

section
variable {turn : Turn} {turns : List Turn} {store after : Store} {self : Nat}

theorem Turn.Happens.takes (happens : turn.Happens store after) : Takes turn store after := by
  obtain ⟨call, result, statements⟩ := turn
  cases call with
  | begin_ => exact begin_ends_takes happens
  | query sql args =>
    rcases guest_ends (.inl rfl) (.inr rfl) happens with ⟨_, ⟨flag, _⟩, busy, rfl, same⟩ |
      ⟨_, ⟨flag, _⟩, idle, _, same⟩ | ⟨_, impossible, _⟩
    · cases same
      exact .refuses (.query sql args) (flag.symm.trans busy) nofun
    · cases same
      exact .states rfl (flag.symm.trans idle)
    · exact impossible.elim
  | execute sql args =>
    rcases guest_ends (.inl rfl) (.inl rfl) happens with ⟨_, ⟨flag, _⟩, busy, rfl, same⟩ |
      ⟨_, ⟨flag, _⟩, idle, _, same⟩ | ⟨_, impossible, _⟩
    · cases same
      exact .refuses (.execute sql args) (flag.symm.trans busy) nofun
    · cases same
      exact .states rfl (flag.symm.trans idle)
    · exact impossible.elim
  | transactionQuery self sql args =>
    rcases guest_ends (.inr ⟨self, rfl⟩) (.inr rfl) happens with ⟨_, ⟨found, _⟩, stopped, rfl, same⟩ |
      ⟨tx, ⟨found, _⟩, running, _, same⟩ | ⟨_, ⟨absent, _⟩, rfl, same⟩
    · cases same
      exact .refuses (.transactionQuery self sql args) (stopped_of_found found stopped) nofun
    · cases same
      exact .states rfl (running_of_found found (by simpa using running))
    · cases same
      exact .missing rfl absent
  | transactionExecute self sql args =>
    rcases guest_ends (.inr ⟨self, rfl⟩) (.inl rfl) happens with ⟨_, ⟨found, _⟩, stopped, rfl, same⟩ |
      ⟨tx, ⟨found, _⟩, running, _, same⟩ | ⟨_, ⟨absent, _⟩, rfl, same⟩
    · cases same
      exact .refuses (.transactionExecute self sql args) (stopped_of_found found stopped) nofun
    · cases same
      exact .states rfl (running_of_found found (by simpa using running))
    · cases same
      exact .missing rfl absent
  | commit self =>
    rcases finish_ends rfl (.inl rfl) happens with ⟨stopped, rfl, rfl, rfl⟩ | ⟨running, rfl, rfl, rfl⟩ |
      ⟨error, absent, rfl, rfl, rfl⟩
    · exact .refuses (.commit self) stopped nofun
    · exact .commits running
    · exact .missing rfl absent
  | rollback self =>
    rcases finish_ends rfl (.inr rfl) happens with ⟨stopped, rfl, rfl, rfl⟩ | ⟨running, rfl, rfl, rfl⟩ |
      ⟨error, absent, rfl, rfl, rfl⟩
    · exact .refuses (.rollback self) stopped nofun
    · exact .rollsBack running
    · exact .missing rfl absent
  | drop self => exact drop_ends happens

/-- What the calls so far say of the store. -/
structure Tracks (turns : List Turn) (store : Store) : Prop where
  one : ∀ self other, store.Running self → store.Running other → self = other
  flagged : ∀ self, store.Running self → store.inTx = true
  running : ∀ self, Within self turns → store.Running self
  finished : ∀ self, Over self turns → store.table self = some ⟨false⟩

theorem Tracks.new : Tracks [] .new := ⟨fun _ _ => nofun, fun _ => nofun, fun _ => nofun, fun _ => nofun⟩

/-- Neither the flag nor the table changes. -/
theorem Tracks.still (tracks : Tracks turns store) {transaction : Bool} (begins : ∀ self, ¬ turn.Begins self)
    (settles : ∀ self, ¬ turn.Settles self) : Tracks (turn :: turns) { store with transaction } where
  one := tracks.one
  flagged := tracks.flagged
  running := fun self within => tracks.running self (within.resolve_left (begins self)).1
  finished := fun self finished => tracks.finished self (finished.resolve_left (settles self)).1

/-- The running transaction is stopped. -/
theorem Tracks.stop (tracks : Tracks turns store) (running : store.Running self) {left : Option Transaction}
    (stopped : left ≠ some ⟨true⟩) (begins : ∀ other, ¬ turn.Begins other) (finishes : turn.Finishes self)
    (settles : ∀ other, turn.Settles other → other = self ∧ left = some ⟨false⟩) :
    Tracks (turn :: turns) ⟨false, false, Function.update store.table self left⟩ := by
  have idle : ∀ other, ¬ Store.Running ⟨false, false, Function.update store.table self left⟩ other := by
    intro other runs
    have same : Function.update store.table self left other = some ⟨true⟩ := runs
    by_cases here : other = self
    · rw [here, Function.update_self] at same
      exact stopped same
    · rw [Function.update_of_ne here] at same
      exact here (tracks.one other self same running)
  refine ⟨fun other _ runs => absurd runs (idle other), fun other runs => absurd runs (idle other), ?_, ?_⟩
  · intro other within
    obtain ⟨within, goes_on⟩ := within.resolve_left (begins other)
    have same := tracks.one other self (tracks.running other within) running
    exact absurd (same ▸ finishes) goes_on
  · intro other finished
    change Function.update store.table self left other = some ⟨false⟩
    rcases finished with settled | ⟨finished, _⟩
    · obtain ⟨here, stays⟩ := settles other settled
      rw [here, Function.update_self, stays]
    · have stopped := tracks.finished other finished
      have apart : other ≠ self := by
        rintro rfl
        rw [running] at stopped
        cases stopped
      rw [Function.update_of_ne apart, stopped]

theorem Tracks.step (tracks : Tracks turns store) (takes : Takes turn store after) : Tracks (turn :: turns) after := by
  cases takes with
  | @refused call _ barred stays =>
    refine @Tracks.still _ _ _ tracks store.transaction ?_ ?_ <;> intro self does <;> cases call <;> exact does.elim
  | @missing call _ rep error on absent =>
    refine @Tracks.still _ _ _ tracks store.transaction ?_ ?_ <;> intro self does <;> cases call <;> exact does.elim
  | @states call _ result statement transaction guest admitted =>
    refine tracks.still ?_ ?_ <;> intro self does <;> cases call <;> first | exact does.elim | cases guest
  | @begins _ rep idle absent =>
    have none_running : ∀ other, ¬ store.Running other := by
      intro other running
      have busy := tracks.flagged other running
      rw [idle] at busy
      cases busy
    have only : ∀ other, Store.Running ⟨true, true, Function.update store.table rep (some ⟨true⟩)⟩ other →
        other = rep := by
      intro other running
      by_contra apart
      have same : Function.update store.table rep (some ⟨true⟩) other = some ⟨true⟩ := running
      rw [Function.update_of_ne apart] at same
      exact none_running other same
    refine ⟨?_, fun _ _ => rfl, ?_, ?_⟩
    · intro self other running others
      exact (only self running).trans (only other others).symm
    · intro self within
      rcases within with same | ⟨within, _⟩
      · cases same
        exact Function.update_self ..
      · exact absurd (tracks.running self within) (none_running self)
    · intro self finished
      rcases finished with impossible | ⟨finished, _⟩
      · exact impossible.elim
      · have stopped := tracks.finished self finished
        have apart : self ≠ rep := by
          rintro rfl
          rw [absent] at stopped
          cases stopped
        change Function.update store.table rep (some ⟨true⟩) self = some ⟨false⟩
        rw [Function.update_of_ne apart, stopped]
  | @full _ error idle =>
    refine ⟨tracks.one, fun _ _ => rfl, ?_, ?_⟩
    · intro self within
      exact tracks.running self (within.resolve_left id).1
    · intro self finished
      exact tracks.finished self (finished.resolve_left id).1
  | commits running => exact tracks.stop running (by simp) (fun _ => id) rfl fun other same => ⟨same.symm, rfl⟩
  | rollsBack running => exact tracks.stop running (by simp) (fun _ => id) rfl fun other same => ⟨same.symm, rfl⟩
  | drops running => exact tracks.stop running (by simp) (fun _ => id) rfl fun other impossible => impossible.elim
  | @discards _ rep finished =>
    have others : ∀ other, Function.update store.table rep none other = some ⟨true⟩ → store.Running other := by
      intro other running
      have apart : other ≠ rep := by
        rintro rfl
        rw [Function.update_self] at running
        cases running
      rwa [Function.update_of_ne apart] at running
    refine ⟨?_, ?_, ?_, ?_⟩
    · intro self other running running'
      exact tracks.one self other (others self running) (others other running')
    · intro self running
      exact tracks.flagged self (others self running)
    · intro self within
      obtain ⟨within, goes_on⟩ := within.resolve_left id
      have apart : self ≠ rep := fun same => goes_on same.symm
      change Function.update store.table rep none self = some ⟨true⟩
      rw [Function.update_of_ne apart]
      exact tracks.running self within
    · intro self finished
      obtain ⟨finished, stays⟩ := finished.resolve_left id
      have apart : self ≠ rep := fun same => stays (same ▸ rfl)
      change Function.update store.table rep none self = some ⟨false⟩
      rw [Function.update_of_ne apart]
      exact tracks.finished self finished

private theorem Turns.tracks (run : Turns turns store) : Tracks turns store := by
  induction run with
  | new => exact .new
  | next _ happens tracks => exact tracks.step happens.takes

theorem Call.Admitted.running {call : Call} (admitted : call.Admitted store) (busy : store.inTx = true) :
    ∃ rep, call.on = some rep ∧ store.Running rep := by
  unfold Call.Admitted at admitted
  cases on : call.on with
  | none =>
    rw [on] at admitted
    exact absurd (admitted.symm.trans busy) nofun
  | some rep =>
    rw [on] at admitted
    exact ⟨rep, rfl, admitted⟩

/-- Next to a transaction that runs, any other call is refused. -/
theorem Tracks.outside (tracks : Tracks turns store) (running : store.Running self) (takes : Takes turn store after)
    (elsewhere : turn.call.on ≠ some self) : turn.Refused store := by
  have busy := tracks.flagged self running
  have own : ∀ {rep}, turn.call.on = some rep → ¬ store.Running rep :=
    fun on runs => elsewhere (on.trans (congrArg some (tracks.one _ self runs running)))
  cases takes with
  | refused barred stays => exact ⟨rfl, .inl rfl⟩
  | missing on absent => exact ⟨rfl, .inr ⟨_, _, on, absent, rfl⟩⟩
  | states guest admitted =>
    obtain ⟨rep, on, runs⟩ := admitted.running busy
    exact absurd runs (own on)
  | begins idle absent => exact absurd (idle.symm.trans busy) nofun
  | full idle => exact absurd (idle.symm.trans busy) nofun
  | commits runs => exact absurd runs (own rfl)
  | rollsBack runs => exact absurd runs (own rfl)
  | drops runs => exact absurd runs (own rfl)
  | discards finished => exact ⟨rfl, .inl rfl⟩

/-- A call on a transaction that is finished is refused. -/
theorem Takes.finished (takes : Takes turn store after) (stopped : store.table self = some ⟨false⟩)
    (on : turn.call.on = some self) : turn.statements = [] ∧ turn.result = .ok turn.call.refusal := by
  have idle : ∀ {rep}, turn.call.on = some rep → ¬ store.Running rep := by
    intro rep same running
    cases on.symm.trans same
    cases stopped.symm.trans running
  cases takes with
  | refused barred stays => exact ⟨rfl, rfl⟩
  | missing same absent =>
    cases on.symm.trans same
    cases stopped.symm.trans absent
  | states guest admitted =>
    unfold Call.Admitted at admitted
    rw [show Call.on _ = _ from on] at admitted
    exact absurd admitted (idle on)
  | begins | full => cases on
  | commits runs => exact absurd runs (idle rfl)
  | rollsBack runs => exact absurd runs (idle rfl)
  | drops runs => exact absurd runs (idle rfl)
  | discards finished => exact ⟨rfl, rfl⟩

/-- A transaction that runs is rolled back when it is dropped. -/
theorem Takes.dropped (takes : Takes turn store after) (running : store.Running self)
    (drops : turn.call = .drop self) :
    turn.statements = [("ROLLBACK".toList, [])] ∧ after.transaction = false ∧ ¬ after.Running self := by
  cases takes with
  | refused barred stays => exact absurd drops (stays self)
  | missing on absent =>
    cases drops
    cases on
    cases absent.symm.trans running
  | states guest admitted =>
    cases drops
    cases guest
  | begins | full | commits | rollsBack => cases drops
  | drops =>
    cases drops
    refine ⟨rfl, rfl, fun runs => ?_⟩
    have same : Function.update store.table self none self = some ⟨true⟩ := runs
    rw [Function.update_self] at same
    cases same
  | discards finished =>
    cases drops
    cases finished.symm.trans running

/-- The statements of a call come from the one transaction that runs, if there is one. -/
theorem turns_isolated (run : Turns turns store) : Isolated turns store := by
  have tracks := run.tracks
  refine ⟨tracks.one, tracks.running, ?_, ?_, ?_⟩
  · intro self turn after within happens elsewhere
    exact tracks.outside (tracks.running self within) happens.takes elsewhere
  · intro self turn after finished happens on
    exact happens.takes.finished (tracks.finished self finished) on
  · intro self turn after running happens drops
    exact happens.takes.dropped running drops

end

/-- The `begin` of a first transaction. -/
theorem begin_happens :
    Turn.Happens ⟨.begin_, .ok (.ok 0), [("BEGIN".toList, [])]⟩ .new (withTransaction true true true) := by
  have looked : recorded .begin_ .inTx (.new, []) (.ok false) (.new, []) := ⟨looked_idle, trivial, rfl⟩
  have opened : recorded .begin_ (.execute "BEGIN".toList []) (.new, []) (.ok 0)
      (⟨true, false, fun _ => none⟩, [("BEGIN".toList, [])]) := ⟨⟨true, begin_effect, rfl⟩, fun _ => ⟨0, rfl⟩, rfl⟩
  have flagged : recorded .begin_ (.setInTx true) (⟨true, false, fun _ => none⟩, [("BEGIN".toList, [])]) (.ok ())
      (⟨true, true, fun _ => none⟩, [("BEGIN".toList, [])]) := ⟨rfl, trivial, rfl⟩
  have pushed : recorded .begin_ (.push ⟨true⟩) (⟨true, true, fun _ => none⟩, [("BEGIN".toList, [])]) (.ok 0)
      (withTransaction true true true, [("BEGIN".toList, [])]) := ⟨⟨rfl, rfl⟩, trivial, rfl⟩
  exact .call looked (.call opened (.call flagged (.call pushed (.done _ _))))

theorem turns_isolated_begun :
    ∃ turns, Within 0 turns ∧ Isolated turns (withTransaction true true true) := by
  have run : Turns [⟨.begin_, .ok (.ok 0), [("BEGIN".toList, [])]⟩] (withTransaction true true true) :=
    .next .new begin_happens
  refine ⟨_, ?_, turns_isolated run⟩
  exact Or.inl rfl

end Pos2.Wasi
