import Mathlib.Logic.Relation
import Pos2.Wasi.Sqlite

/-! Whether the flag of the context, the connection and the table agree on the open
transaction. They do as long as no guest statement opens or ends a transaction,
every COMMIT and ROLLBACK of the host ends one, and there is room in the table. -/

namespace Pos2.Wasi
open Calls

def Store.Running (store : Store) (self : Nat) : Prop := store.table self = some ⟨true⟩

/-- The three places agree. -/
structure Store.Agrees (store : Store) : Prop where
  connection : store.inTx = store.transaction
  one : store.inTx = true → ∃ self, store.Running self ∧ ∀ other, store.Running other → other = self
  none_ : store.inTx = false → ∀ self, ¬ store.Running self

/-- The statement of a guest leaves the open transaction alone, the one of the host
that is to end it does, and the table takes a new transaction. -/
def Call.Meets (call : Call) (request : Request) (before : Store) (reply : Except String request.Value)
    (after : Store) : Prop :=
  match request, reply with
  | .push _, reply => ∃ self, reply = .ok self
  | .execute _ _, _ | .query _ _, _ =>
    match call with
    | .begin_ => True
    | .commit _ | .rollback _ | .drop _ => after.transaction = false
    | _ => after.transaction = before.transaction
  | _, _ => True

def servesUnder (call : Call) : Handler SqliteCalls Store := fun request before reply after =>
  call.Meets request before reply after ∧ serves request before reply after

/-- Any host call, served as the rule for it says. -/
def HostCall (rule : Call → Handler SqliteCalls Store) (before after : Store) : Prop :=
  ∃ (call : Call) (result : Except String call.Result), call.run.Ends (rule call) before result after

def Store.Reachable (rule : Call → Handler SqliteCalls Store) (store : Store) : Prop :=
  Relation.ReflTransGen (HostCall rule) .new store

section
variable {before after : Store}

private theorem Store.new_agrees : Store.new.Agrees :=
  ⟨rfl, nofun, fun _ _ => nofun⟩

/-- A statement changes the open transaction only. -/
theorem statement_changes {request : Request} {reply : Except String request.Value}
    (statement : (∃ sql args, request = .execute sql args) ∨ ∃ sql args, request = .query sql args)
    (served : serves request before reply after) : after = { before with transaction := after.transaction } := by
  rcases statement with ⟨sql, args, rfl⟩ | ⟨sql, args, rfl⟩ <;> cases reply <;>
    obtain ⟨transaction, _, rfl⟩ := served <;> rfl

/-- Other things equal, the three places go on agreeing if the open transaction stays. -/
theorem Store.Agrees.statement (agrees : before.Agrees)
    (changes : after = { before with transaction := after.transaction }) :
    after.Agrees ↔ after.transaction = before.transaction := by
  rw [changes]
  constructor
  · intro later
    exact later.connection.symm.trans agrees.connection
  · intro same
    exact ⟨agrees.connection.trans same.symm, agrees.one, agrees.none_⟩

/-- A transaction that has been stopped leaves none that runs. -/
theorem Store.Agrees.stopped (agrees : before.Agrees) {self : Nat} (running : before.Running self)
    {left : Option Transaction} (stopped : left ≠ some ⟨true⟩) {transaction : Bool} :
    (⟨transaction, false, Function.update before.table self left⟩ : Store).Agrees ↔ transaction = false := by
  have begun : before.inTx = true := by
    by_contra idle
    exact agrees.none_ (Bool.eq_false_iff.mpr idle) self running
  obtain ⟨one, _, only⟩ := agrees.one begun
  constructor
  · intro later
    exact later.connection.symm
  · rintro rfl
    refine ⟨rfl, nofun, ?_⟩
    intro _ other again
    have same : Function.update before.table self left other = some ⟨true⟩ := again
    by_cases here : other = self
    · rw [here, Function.update_self] at same
      exact stopped same
    · rw [Function.update_of_ne here] at same
      exact here ((only other same).trans (only self running).symm)

/-- A transaction that begins is the only one that runs. -/
theorem Store.Agrees.begun (agrees : before.Agrees) (idle : before.inTx = false) (self : Nat) :
    (⟨true, true, Function.update before.table self (some ⟨true⟩)⟩ : Store).Agrees := by
  refine ⟨rfl, fun _ => ⟨self, Function.update_self .., ?_⟩, nofun⟩
  intro other running
  by_contra apart
  have same : Function.update before.table self (some ⟨true⟩) other = some ⟨true⟩ := running
  rw [Function.update_of_ne apart] at same
  exact agrees.none_ idle other same

end

/-! ### Calls with a note

Beside the store a note is taken of whether every call so far met the condition. -/

def noted (call : Call) : Handler SqliteCalls (Store × Prop) := fun request before reply after =>
  serves request before.1 reply after.1 ∧ (after.2 ↔ before.2 ∧ call.Meets request before.1 reply after.1)

/-- The three places agree exactly if the condition was met. -/
def Exact (after : Store × Prop) : Prop := after.1.Agrees ↔ after.2

section
variable {α : Type} {call : Call} {before after : Store} {program : Program SqliteCalls α} {result : α}

private theorem take_notes {asked : Prop} (ends : program.Ends serves before result after) :
    ∃ met, program.Ends (noted call) (before, asked) result (after, met) := by
  induction ends generalizing asked with
  | done value state => exact ⟨asked, .done _ _⟩
  | @call request next before reply between value after served _ ih =>
    obtain ⟨met, rest⟩ := @ih (asked ∧ call.Meets request before reply between)
    exact ⟨met, .call ⟨served, Iff.rfl⟩ rest⟩

private theorem under_of_noted {before after : Store × Prop} (ends : program.Ends (noted call) before result after)
    (met : after.2) : before.2 ∧ program.Ends (servesUnder call) before.1 result after.1 := by
  induction ends with
  | done value state => exact ⟨met, .done _ _⟩
  | call answered _ ih =>
    obtain ⟨so_far, rest⟩ := ih met
    obtain ⟨asked, meets⟩ := answered.2.mp so_far
    exact ⟨asked, .call ⟨meets, answered.1⟩ rest⟩

private theorem noted_of_under (ends : program.Ends (servesUnder call) before result after) :
    program.Ends (noted call) (before, True) result (after, True) := by
  induction ends with
  | done value state => exact .done _ _
  | @call request next before reply between value after answered _ ih =>
    have answered' : noted call request (before, True) reply (between, True) :=
      ⟨answered.2, iff_of_true trivial ⟨trivial, answered.1⟩⟩
    exact .call answered' ih

end

section
variable {call : Call} {before after : Store × Prop}

/-- A look at the flag or the table. -/
theorem looked {guard : Request} {reply : Except String guard.Value}
    (looks : guard = .inTx ∨ ∃ self, guard = .getMut self) (asked : before.2)
    (answered : noted call guard before reply after) : after.1 = before.1 ∧ after.2 := by
  obtain ⟨served, note⟩ := answered
  rcases looks with rfl | ⟨self, rfl⟩
  · cases reply with
    | ok value => exact ⟨served.2, note.mpr ⟨asked, trivial⟩⟩
    | error error => exact served.elim
  · cases reply with
    | ok value => exact ⟨served.2, note.mpr ⟨asked, trivial⟩⟩
    | error error => exact ⟨served.2, note.mpr ⟨asked, trivial⟩⟩

/-- A call that looks first, and then makes a statement of the guest or refuses to. -/
theorem guest_exact {α : Type} {guard statement : Request} {refuses : guard.Value → Bool}
    {give : statement.Value → α} {result : Except String (Except ErrorCode α)}
    (looks : guard = .inTx ∨ ∃ self, guard = .getMut self)
    (states : (∃ sql args, statement = .execute sql args) ∨ ∃ sql args, statement = .query sql args)
    (agrees : before.1.Agrees) (asked : before.2)
    (ends : Fallible.Ends (noted call) (ask guard >>= fun looked =>
      if refuses looked = true then pure (.error .bad) else ask statement >>= fun value => pure (.ok (give value)))
      before result after)
    (guest : ∀ before reply after, call.Meets statement before reply after ↔
      after.transaction = before.transaction) : Exact after := by
  have stated {between after : Store × Prop} {reply : Except String statement.Value} (same : between.1 = before.1)
      (asked : between.2) (answered : noted call statement between reply after) : Exact after := by
    have earlier : between.1.Agrees := same ▸ agrees
    have left_alone := earlier.statement (statement_changes states answered.1)
    have note : after.2 ↔ after.1.transaction = between.1.transaction := by
      rw [answered.2, guest]
      exact and_iff_right asked
    exact left_alone.trans note.symm
  rcases Fallible.ends_ask.mp ends with ⟨value, between, answered, rest⟩ | ⟨error, answered, _⟩
  · obtain ⟨same, so_far⟩ := looked looks asked answered
    split at rest
    · obtain ⟨_, rfl⟩ := Fallible.ends_pure.mp rest
      exact iff_of_true (same ▸ agrees) so_far
    · rcases Fallible.ends_ask.mp rest with ⟨value, last, answered, rest⟩ | ⟨error, answered, _⟩
      · obtain ⟨_, rfl⟩ := Fallible.ends_pure.mp rest
        exact stated same so_far answered
      · exact stated same so_far answered
  · obtain ⟨same, met⟩ := looked looks asked answered
    exact iff_of_true (same ▸ agrees) met

/-- The statement that ends a transaction, after its flags were cleared. -/
theorem stopped_exact {α : Type} {sql : Text} {self : Nat} {left : Option Transaction} {value : α}
    {result : Except String α} {store : Store} (agrees : store.Agrees) (running : store.Running self)
    (stopped : left ≠ some ⟨true⟩)
    (cleared : before.1 = { store with table := Function.update store.table self left }) (asked : before.2)
    (ends : Fallible.Ends (noted call) (do
      ask (.setInTx false)
      let _ ← ask (.execute sql [])
      pure value) before result after)
    (host : ∀ before reply after, call.Meets (.execute sql []) before reply after ↔ after.transaction = false) :
    Exact after := by
  rcases Fallible.ends_ask.mp ends with ⟨_, between, ⟨flagged, note⟩, rest⟩ | ⟨_, ⟨impossible, _⟩, _⟩
  · have so_far : between.2 := note.mpr ⟨asked, trivial⟩
    have flagged : between.1 = ⟨store.transaction, false, Function.update store.table self left⟩ := by
      rw [show between.1 = { before.1 with inTx := false } from flagged, cleared]
    have ended {reply : Except String Nat} (answered : noted call (.execute sql []) between reply after) :
        Exact after := by
      have changes := statement_changes (.inl ⟨sql, [], rfl⟩) answered.1
      rw [flagged] at changes
      have exact_ : after.1.Agrees ↔ after.1.transaction = false := by
        rw [changes]
        exact agrees.stopped running stopped
      have note : after.2 ↔ after.1.transaction = false := by
        rw [answered.2, host]
        exact and_iff_right so_far
      exact exact_.trans note.symm
    rcases Fallible.ends_ask.mp rest with ⟨value, last, answered, rest⟩ | ⟨error, answered, _⟩
    · obtain ⟨_, rfl⟩ := Fallible.ends_pure.mp rest
      exact ended answered
    · exact ended answered
  · exact impossible.elim

theorem running_of_found {store : Store} {self : Nat} {tx : Transaction} (found : store.table self = some tx)
    (running : tx.running = true) : store.Running self := by
  cases tx
  cases running
  exact found

/-- The end of a transaction by `commit` or `rollback`. -/
theorem finish_exact {sql : Text} {self : Nat} {result : Except String (Except ErrorCode Unit)}
    (agrees : before.1.Agrees) (asked : before.2) (ends : (Sqlite.finish sql self).Ends (noted call) before result after)
    (host : ∀ before reply after, call.Meets (.execute sql []) before reply after ↔ after.transaction = false) :
    Exact after := by
  rcases Fallible.ends_ask.mp ends with ⟨tx, between, answered, rest⟩ | ⟨_, answered, _⟩
  · obtain ⟨same, so_far⟩ := looked (.inr ⟨self, rfl⟩) asked answered
    have found : before.1.table self = some tx := answered.1.1
    split at rest
    next =>
      obtain ⟨_, rfl⟩ := Fallible.ends_pure.mp rest
      exact iff_of_true (same ▸ agrees) so_far
    next running =>
      have running := running_of_found found (by simpa using running)
      rcases Fallible.ends_ask.mp rest with ⟨_, last, ⟨⟨_, cleared⟩, note⟩, rest⟩ | ⟨_, ⟨impossible, _⟩, _⟩
      · rw [same] at cleared
        exact stopped_exact agrees running (by simp) cleared (note.mpr ⟨so_far, trivial⟩) rest host
      · exact impossible.elim
  · obtain ⟨same, met⟩ := looked (.inr ⟨self, rfl⟩) asked answered
    exact iff_of_true (same ▸ agrees) met

/-- A transaction that is gone and did not run. -/
theorem Store.Agrees.deleted {store : Store} {self : Nat} {tx : Transaction} (agrees : store.Agrees)
    (found : store.table self = some tx) (idle : ¬ tx.running = true) :
    Store.Agrees { store with table := Function.update store.table self none } := by
  have others (other : Nat) : Store.Running { store with table := Function.update store.table self none } other ↔
      store.Running other := by
    by_cases here : other = self
    · subst here
      simp only [Store.Running, Function.update_self, found, reduceCtorEq, Option.some_inj, false_iff]
      rintro rfl
      exact idle rfl
    · simp only [Store.Running, Function.update_of_ne here]
  refine ⟨agrees.connection, ?_, ?_⟩
  · intro begun
    simpa only [others] using agrees.one begun
  · intro idle
    simpa only [others] using agrees.none_ idle

private theorem drop_exact {self : Nat} {result : Except String Unit} (agrees : before.1.Agrees) (asked : before.2)
    (ends : (Sqlite.drop self).Ends (noted (.drop self)) before result after) : Exact after := by
  rcases Fallible.ends_ask.mp ends with ⟨tx, between, ⟨⟨found, cleared⟩, note⟩, rest⟩ | ⟨_, ⟨⟨_, same⟩, note⟩, _⟩
  · have so_far := note.mpr ⟨asked, trivial⟩
    split at rest
    next running =>
      exact stopped_exact agrees (running_of_found found running) (by simp) cleared so_far rest fun _ _ _ => Iff.rfl
    next idle =>
      obtain ⟨_, rfl⟩ := Fallible.ends_pure.mp rest
      exact iff_of_true (cleared ▸ agrees.deleted found idle) so_far
  · have same : after.1 = before.1 := same
    exact iff_of_true (same ▸ agrees) (note.mpr ⟨asked, trivial⟩)

private theorem begin_exact {result : Except String (Except ErrorCode Nat)} (agrees : before.1.Agrees)
    (asked : before.2)
    (ends : Sqlite.begin_.Ends (noted .begin_) before result after) : Exact after := by
  rcases Fallible.ends_ask.mp ends with ⟨flag, between, answered, rest⟩ | ⟨_, ⟨impossible, _⟩, _⟩
  · obtain ⟨same, so_far⟩ := looked (.inl rfl) asked answered
    have agrees : between.1.Agrees := same ▸ agrees
    split at rest
    next =>
      obtain ⟨_, rfl⟩ := Fallible.ends_pure.mp rest
      exact iff_of_true agrees so_far
    next idle =>
      have idle : between.1.inTx = false := by
        rw [same, ← show flag = before.1.inTx from answered.1.1]
        simpa using idle
      rcases Fallible.ends_ask.mp rest with ⟨_, opened, ⟨⟨transaction, effect, opens⟩, note⟩, rest⟩ |
        ⟨_, ⟨⟨transaction, effect, opens⟩, note⟩, _⟩
      · have so_far := note.mpr ⟨so_far, trivial⟩
        rcases Fallible.ends_ask.mp rest with ⟨_, flagged, ⟨flags, note⟩, rest⟩ | ⟨_, ⟨impossible, _⟩, _⟩
        · have so_far := note.mpr ⟨so_far, trivial⟩
          have flags : flagged.1 = ⟨true, true, between.1.table⟩ := by
            have begun : transaction = true := effect.2
            rw [show flagged.1 = { opened.1 with inTx := true } from flags, opens, begun]
          rcases Fallible.ends_ask.mp rest with ⟨rep, last, ⟨⟨_, pushed⟩, note⟩, rest⟩ | ⟨_, ⟨full, note⟩, _⟩
          · obtain ⟨_, rfl⟩ := Fallible.ends_pure.mp rest
            rw [flags] at pushed
            exact iff_of_true (pushed ▸ agrees.begun idle rep) (note.mpr ⟨so_far, rep, rfl⟩)
          · -- The flag is set, and no transaction runs.
            have full : after.1 = ⟨true, true, between.1.table⟩ := Eq.trans full flags
            apply iff_of_false
            · intro later
              rw [full] at later
              obtain ⟨self, running, _⟩ := later.one rfl
              exact agrees.none_ idle self running
            · intro met
              obtain ⟨_, impossible⟩ := (note.mp met).2
              cases impossible
        · exact impossible.elim
      · have kept : transaction = between.1.transaction := effect
        rw [kept] at opens
        exact iff_of_true (opens ▸ agrees) (note.mpr ⟨so_far, trivial⟩)
  · exact impossible.elim

theorem Call.exact {result : Except String call.Result} (agrees : before.1.Agrees) (asked : before.2)
    (ends : call.run.Ends (noted call) before result after) : Exact after := by
  cases call with
  | begin_ => exact begin_exact agrees asked ends
  | query sql args =>
    exact guest_exact (.inl rfl) (.inr ⟨sql, args, rfl⟩) agrees asked ends fun _ _ _ => Iff.rfl
  | execute sql args =>
    exact guest_exact (.inl rfl) (.inl ⟨sql, args, rfl⟩) agrees asked ends fun _ _ _ => Iff.rfl
  | transactionQuery self sql args =>
    exact guest_exact (.inr ⟨self, rfl⟩) (.inr ⟨sql, args, rfl⟩) agrees asked ends fun _ _ _ => Iff.rfl
  | transactionExecute self sql args =>
    exact guest_exact (.inr ⟨self, rfl⟩) (.inl ⟨sql, args, rfl⟩) agrees asked ends fun _ _ _ => Iff.rfl
  | commit self => exact finish_exact agrees asked ends fun _ _ _ => Iff.rfl
  | rollback self => exact finish_exact agrees asked ends fun _ _ _ => Iff.rfl
  | drop self => exact drop_exact agrees asked ends

end

/-- A call that meets the condition. -/
theorem Store.Agrees.call {call : Call} {result : Except String call.Result} {before after : Store}
    (agrees : before.Agrees) (ends : call.run.Ends (servesUnder call) before result after) : after.Agrees :=
  (Call.exact agrees trivial (noted_of_under ends)).mpr trivial

/-- In every run whose calls all meet the condition the three places agree, and the
first call that does not meet it leaves them at odds. -/
theorem in_tx_matches {store : Store} (reachable : store.Reachable servesUnder) :
    store.Agrees ∧ ∀ (call : Call) (result : Except String call.Result) after,
      call.run.Ends serves store result after →
        (after.Agrees ↔ call.run.Ends (servesUnder call) store result after) := by
  have agrees : store.Agrees := by
    induction reachable with
    | refl => exact Store.new_agrees
    | tail _ move ih =>
      obtain ⟨call, result, ends⟩ := move
      exact ih.call ends
  refine ⟨agrees, ?_⟩
  intro call result after ends
  constructor
  · intro later
    obtain ⟨met, notes⟩ := take_notes ends
    exact (under_of_noted notes ((Call.exact agrees trivial notes).mp later)).2
  · intro met
    exact agrees.call met

/-- A transaction of the first handle, whether the flag is set, whether the connection
is in it, and whether it runs. -/
def withTransaction (transaction inTx running : Bool) : Store :=
  ⟨transaction, inTx, Function.update (fun _ => none) 0 (some ⟨running⟩)⟩

theorem begin_effect : Effect "BEGIN".toList true false true := by
  simp [Effect]

/-- A `begin` that succeeds. -/
theorem begin_ends : Sqlite.begin_.Ends (servesUnder .begin_) .new (.ok (.ok 0)) (withTransaction true true true) := by
  have looked : servesUnder .begin_ .inTx .new (.ok false) .new := ⟨trivial, rfl, rfl⟩
  have opened : servesUnder .begin_ (.execute "BEGIN".toList []) .new (.ok 0) ⟨true, false, fun _ => none⟩ :=
    ⟨trivial, true, begin_effect, rfl⟩
  have flagged : servesUnder .begin_ (.setInTx true) ⟨true, false, fun _ => none⟩ (.ok ())
      ⟨true, true, fun _ => none⟩ := ⟨trivial, rfl⟩
  have pushed : servesUnder .begin_ (.push ⟨true⟩) ⟨true, true, fun _ => none⟩ (.ok 0)
      (withTransaction true true true) := ⟨⟨0, rfl⟩, rfl, rfl⟩
  exact .call looked (.call opened (.call flagged (.call pushed (.done _ _))))

/-- A run of one `begin`. -/
theorem in_tx_matches_begun : (withTransaction true true true).Agrees :=
  (in_tx_matches (.single ⟨.begin_, .ok (.ok 0), begin_ends⟩)).1

theorem looked_idle : serves .inTx .new (.ok false) .new := ⟨rfl, rfl⟩

theorem served {call : Call} {result : Except String call.Result} {before after : Store}
    (ends : call.run.Ends (servesUnder call) before result after) : call.run.Ends serves before result after := by
  unfold Fallible.Ends at ends ⊢
  generalize call.run = program at ends ⊢
  induction ends with
  | done value state => exact .done value state
  | call answered _ ih => exact .call answered.2 ih

/-- A COMMIT that fails and leaves the transaction open, a table with no room for the
transaction, and a BEGIN of the guest. -/
theorem in_tx_at_odds :
    (∃ store : Store, store.Reachable (fun _ => serves) ∧ store.inTx = false ∧ store.transaction = true) ∧
    (∃ store : Store, store.Reachable (fun _ => serves) ∧ store.inTx = true ∧ ∀ self, ¬ store.Running self) ∧
    ∃ (sql : Text) (result : Except String (Except ErrorCode Nat)) (store : Store),
      (Sqlite.execute sql []).Ends serves .new result store ∧ store.inTx = false ∧ store.transaction = true := by
  refine ⟨⟨withTransaction true false false, ?_, rfl, rfl⟩, ⟨⟨true, true, fun _ => none⟩, ?_, rfl, fun _ => nofun⟩,
    "BEGIN".toList, .ok (.ok 0), ⟨true, false, fun _ => none⟩, ?_, rfl, rfl⟩
  · have begun : HostCall (fun _ => serves) .new (withTransaction true true true) :=
      ⟨.begin_, .ok (.ok 0), served begin_ends⟩
    have stopped : serves (.setRunning 0 false) (withTransaction true true true) (.ok ())
        (withTransaction true true false) := ⟨by simp [withTransaction], by simp [withTransaction]⟩
    have flagged : serves (.setInTx false) (withTransaction true true false) (.ok ())
        (withTransaction true false false) := rfl
    have busy : serves (.execute "COMMIT".toList []) (withTransaction true false false) (.error "busy")
        (withTransaction true false false) := ⟨true, by simp [Effect, withTransaction], rfl⟩
    have found : serves (.getMut 0) (withTransaction true true true) (.ok ⟨true⟩) (withTransaction true true true) :=
      ⟨rfl, rfl⟩
    have ends : (Sqlite.commit 0).Ends serves (withTransaction true true true) (.error "busy")
        (withTransaction true false false) :=
      .call found (.call stopped (.call flagged (.call busy (.done _ _))))
    exact .tail (.single begun) ⟨.commit 0, .error "busy", ends⟩
  · have opened : serves (.execute "BEGIN".toList []) .new (.ok 0) ⟨true, false, fun _ => none⟩ :=
      ⟨true, begin_effect, rfl⟩
    have flagged : serves (.setInTx true) ⟨true, false, fun _ => none⟩ (.ok ()) ⟨true, true, fun _ => none⟩ := rfl
    have full : serves (.push ⟨true⟩) ⟨true, true, fun _ => none⟩ (.error "full") ⟨true, true, fun _ => none⟩ := rfl
    have ends : Sqlite.begin_.Ends serves .new (.error "full") ⟨true, true, fun _ => none⟩ :=
      .call looked_idle (.call opened (.call flagged (.call full (.done _ _))))
    exact .single ⟨.begin_, .error "full", ends⟩
  · have opened : serves (.execute "BEGIN".toList []) .new (.ok 0) ⟨true, false, fun _ => none⟩ :=
      ⟨true, begin_effect, rfl⟩
    exact .call looked_idle (.call opened (.done _ _))

end Pos2.Wasi
