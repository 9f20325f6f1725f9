import Pos2.Loader.Stocked

/-! Downloading and extracting store more, step by step: each call leaves what is
stored under digests complete. -/

namespace Pos2.Loader
open Calls

/-- The machine, and which images are torn. -/
structure Depot where
  machine : Machine
  torn : List Text

abbrev Depot.fs (depot : Depot) : Fs := depot.machine.fs

/-- What the answers to a function can be trusted to be. -/
abbrev Heeds := (request : Request) → Depot → Except String request.Value → Prop

/-- The calls of a function on the storage. -/
def tending (formats : Formats) (contents : Contents) (heeds : Heeds) : Handler LoaderCalls Depot :=
  fun request before reply after =>
    careful formats contents (fun request => request.alters = true) request before.machine reply after.machine ∧
      after.torn = tears before.torn (.asks request reply) ∧ heeds request before reply

/-- The storage stays complete, some paths and the links stay as they are, and what
is stored stays. -/
structure Goes (formats : Formats) (contents : Contents) (listed : Prop) (held : Path → Prop) (before after : Depot) : Prop where
  stocked : Stocked formats contents listed after.torn after.fs
  same : ∀ path, held path → after.fs path = before.fs path
  stays : ∀ dir ∈ storageDirs, ∀ name, Digest name → before.fs (dir ++ [name]) ≠ none → after.fs (dir ++ [name]) ≠ none
  torn : ∀ sha, Digest sha → sha ∈ after.torn → sha ∈ before.torn
  links : ∀ path ∈ switches, after.fs path = before.fs path
  child : after.machine.child = before.machine.child

/-- A call that changes nothing under a digest, and leaves some paths as they are. -/
structure Aside (held : Path → Prop) (request : Request) : Prop where
  stores : Stores request
  apart : ∀ path, request.Reaches path → ¬ Stands path ∧ ¬ held path

section
variable {formats : Formats} {contents : Contents} {listed : Prop} {heeds : Heeds} {held : Path → Prop}
  {before middle after : Depot} {request : Request} {reply : Except String request.Value}

theorem Goes.refl (stocked : Stocked formats contents listed before.torn before.fs) :
    Goes formats contents listed held before before :=
  ⟨stocked, fun _ _ => rfl, fun _ _ _ _ there => there, fun _ _ member => member, fun _ _ => rfl, rfl⟩

theorem Goes.trans (first : Goes formats contents listed held before middle)
    (second : Goes formats contents listed held middle after) : Goes formats contents listed held before after where
  stocked := second.stocked
  same := fun path here => (second.same path here).trans (first.same path here)
  stays := fun dir stored name digest there => second.stays dir stored name digest (first.stays dir stored name digest there)
  torn := fun sha digest member => first.torn sha digest (second.torn sha digest member)
  links := fun path switch => (second.links path switch).trans (first.links path switch)
  child := second.child.trans first.child

theorem goes_course (formats : Formats) (contents : Contents) (listed : Prop) (held : Path → Prop) :
    Fallible.Course (Goes formats contents listed held) :=
  ⟨Goes.trans, fun went => .refl went.stocked⟩

theorem Stocked.elsewhere (stocked : Stocked formats contents listed before.torn before.fs) (stores : Stores request)
    (served : tending formats contents heeds request before reply after) {path : Path} (apart : ¬ request.Reaches path) :
    after.fs path = before.fs path := by
  have arrived := stocked.linked.untouched (stocked.linked.lands (before.machine.arrived_lands request))
  exact (serves_elsewhere (stores.plain arrived) served.1.1 apart).trans (before.machine.arrived_other apart)

theorem Stocked.keeps (stocked : Stocked formats contents listed before.torn before.fs) (stores : Stores request)
    (served : tending formats contents heeds request before reply after) :
    Untouched before.fs after.fs ∧ after.machine.child = before.machine.child := by
  have arrives := stocked.linked.lands (before.machine.arrived_lands request)
  obtain ⟨untouched, child⟩ := stores.keeps (stocked.linked.untouched arrives) served.1.1
  exact ⟨arrives.trans untouched, child.trans (before.machine.arrived_child request)⟩

theorem Stocked.stays_linked (stocked : Stocked formats contents listed before.torn before.fs) (stores : Stores request)
    (served : tending formats contents heeds request before reply after) : Linked after.fs :=
  stocked.linked.untouched (stocked.keeps stores served).1

theorem Aside.goes (aside : Aside held request) (proper : contents.Proper formats)
    (stocked : Stocked formats contents listed before.torn before.fs)
    (served : tending formats contents heeds request before reply after) : Goes formats contents listed held before after := by
  obtain ⟨untouched, child⟩ := stocked.keeps aside.stores served
  have same {path : Path} (apart : ¬ request.Reaches path) : after.fs path = before.fs path :=
    stocked.elsewhere aside.stores served apart
  have stands {path : Path} (here : Stands path) : after.fs path = before.fs path :=
    same fun reached => (aside.apart path reached).1 here
  have torn (sha : Text) (digest : Digest sha) : sha ∈ before.torn ↔ sha ∈ after.torn := by
    rw [served.2.1]
    refine (tears_apart fun rest here => ?_).symm
    subst here
    exact (aside.apart _ rfl).1 (digest.stands extracted_stored rest)
  refine ⟨?_, ?_, ?_, fun sha digest => (torn sha digest).mpr, untouched.links, child⟩
  · exact stocked.beside proper (stocked.stays_linked aside.stores served) (fun _ here => stands here) torn
  · exact fun path here => same fun reached => (aside.apart path reached).2 here
  · intro dir stored name digest there
    rwa [stands (digest.entry_stands stored)]

theorem Aside.reads (reads : request.reads = true) : Aside held request := by
  refine ⟨.read reads, fun path reached => ?_⟩
  cases request <;> first | exact reached.elim | cases reads

theorem Depot.eq_of (machine : after.machine = before.machine) (torn : after.torn = before.torn) : after = before := by
  cases after
  cases machine
  cases torn
  rfl

/-- A call that fails does nothing, but writing may have begun. -/
theorem failed_depot {error : String} (served : tending formats contents heeds request before (.error error) after)
    (other : ∀ path text, request ≠ .writeAll path text) (still : before.machine.arrived request = before.machine) :
    after = before := by
  have failed := served.1.1
  rw [still] at failed
  refine Depot.eq_of (Machine.eq_of (Request.fails_nothing failed.1 other) failed.2) ?_
  rw [served.2.1]
  cases request <;> rfl

theorem reads_depot (reads : request.reads = true) (served : tending formats contents heeds request before reply after) :
    after = before := by
  have still : before.machine.arrived request = before.machine := Machine.arrived_reads reads
  cases reply with
  | error error =>
    refine failed_depot served (fun path text here => ?_) still
    subst here
    cases reads
  | ok value =>
    have done := served.1.1
    rw [still] at done
    have child : after.machine.child = before.machine.child := by
      have child := done.2
      cases request with
      | spawn | wait | waitTimeout | kill => cases reads
      | _ => exact child
    refine Depot.eq_of (Machine.eq_of (Request.reads_nothing reads done.1) child) ?_
    rw [served.2.1]
    cases request with
    | remove => cases reads
    | _ => rfl

end

section
variable (formats : Formats) (contents : Contents) (listed : Prop) (heeds : Heeds) (held : Path → Prop) {α : Type}

/-- The function stores more. -/
abbrev Tends (post : α → Depot → Prop) (function : Loads α) (state : Depot) : Prop :=
  Fallible.Along (tending formats contents heeds) (Goes formats contents listed held) post function state

end

section
variable {formats : Formats} {contents : Contents} {listed : Prop} {heeds : Heeds} {held : Path → Prop} {state : Depot}
  {α β : Type} {middle : α → Depot → Prop} {post : β → Depot → Prop}

theorem Tends.bind {first : Loads α} {rest : α → Loads β} (tends : Tends formats contents listed heeds held middle first state)
    (then_ : ∀ value after, Goes formats contents listed held state after → middle value after →
      Tends formats contents listed heeds held post (rest value) after) :
    Tends formats contents listed heeds held post (first >>= rest) state :=
  Fallible.Along.bind (goes_course formats contents listed held) tends then_

theorem Tends.pure {value : β} (stocked : Stocked formats contents listed state.torn state.fs) (holds : post value state) :
    Tends formats contents listed heeds held post (Pure.pure value) state :=
  Fallible.Along.pure (.refl stocked) holds

theorem Tends.fail (error : String) (stocked : Stocked formats contents listed state.torn state.fs) :
    Tends formats contents listed heeds held post (Fallible.fail error) state :=
  Fallible.Along.fail error (.refl stocked)

theorem Tends.ofExcept {result : Except String β} (stocked : Stocked formats contents listed state.torn state.fs)
    (holds : ∀ value, result = .ok value → post value state) :
    Tends formats contents listed heeds held post (Fallible.ofExcept result) state :=
  Fallible.Along.ofExcept (.refl stocked) holds

theorem Tends.ask {request : Request} {post : request.Value → Depot → Prop}
    (answered : ∀ reply after, tending formats contents heeds request state reply after →
      Goes formats contents listed held state after ∧ ∀ value, reply = .ok value → post value after) :
    Tends formats contents listed heeds held post (Loader.ask request) state := by
  intro reply after served
  obtain ⟨goes, holds⟩ := answered reply after served
  refine ⟨goes, ?_⟩
  cases reply with
  | ok value => exact ⟨goes, holds value rfl⟩
  | error error => exact goes

/-- Functions that change nothing under a digest. -/
theorem Tends.aside {ends : α → Prop} {function : Loads α} (uses : function.Uses (Aside held) ends)
    (proper : contents.Proper formats) (stocked : Stocked formats contents listed state.torn state.fs) :
    Tends formats contents listed heeds held (fun value _ => ends value) function state := by
  have start : Goes formats contents listed held state state := .refl stocked
  have run : function.Alone (tending formats contents heeds) (Goes formats contents listed held) (Goes formats contents listed held state)
      (fun value after => ends value ∧ Goes formats contents listed held state after) state := by
    refine Fallible.Uses.alone uses ?_ start
    intro request before reply after aside went served
    have goes := aside.goes proper went.stocked served
    exact ⟨goes, went.trans goes⟩
  exact run.mono (fun _ went => went) fun _ _ ⟨ended, went⟩ => ⟨went, ended⟩

/-- A call that reads, with what is known of its answer. -/
theorem Tends.read {request : Request} (reads : request.reads = true) {post : request.Value → Depot → Prop}
    (proper : contents.Proper formats) (stocked : Stocked formats contents listed state.torn state.fs)
    (answered : ∀ value, request.OnDisk state.fs value state.fs → contents.Answers formats request state.fs (.ok value) →
      post value state) : Tends formats contents listed heeds held post (Loader.ask request) state := by
  apply Tends.ask
  intro reply after served
  refine ⟨(Aside.reads reads).goes proper stocked served, ?_⟩
  rintro value rfl
  cases reads_depot reads served
  have done := served.1.1
  rw [Machine.arrived_reads reads] at done
  exact answered value done.1 served.1.2.1

/-- What stays along the way is there at the end. -/
theorem Tends.keeping {wider : Path → Prop} {function : Loads β} (tends : Tends formats contents listed heeds wider post function state)
    (implies : ∀ path, held path → wider path) :
    Tends formats contents listed heeds held
      (fun value after => (∀ path, wider path → after.fs path = state.fs path) ∧ post value after) function state := by
  have weaker {before after : Depot} (goes : Goes formats contents listed wider before after) : Goes formats contents listed held before after :=
    ⟨goes.stocked, fun path here => goes.same path (implies path here), goes.stays, goes.torn, goes.links, goes.child⟩
  have run : Program.Alone (tending formats contents heeds) (Goes formats contents listed held) _ function state :=
    Program.Alone.keeps tends (fun _ _ (_ : True) goes => ⟨weaker goes, trivial⟩) trivial
  apply Program.Alone.mono run
  intro result after ⟨_, outcome⟩
  cases result with
  | ok value => exact ⟨weaker outcome.1, outcome.1.same, outcome.2⟩
  | error error => exact weaker outcome

end
end Pos2.Loader
