import Pos2.Loader.Past

/-! Which versions are skipped as failed. The marker is written before the version
is tried, so it tells the truth only if nothing comes in between. -/

namespace Pos2.Loader
open Calls

/-- A task skips a version: the marker that it reads names it. -/
def Skips (formats : Formats) (version : Text) (before : World) (i : Nat) (after : World) : Prop :=
  ∃ (rest : Bool → Loads Unit) (text : Text), before.tasks i = wasUpdateAttempted version >>= rest ∧
    before.machine.fs.readToString updateAttemptFile = some text ∧ trim text = version ∧
    Step formats before (.task i (.readToString updateAttemptFile)) after ∧ after.tasks i = rest true

section
variable {formats : Formats} {world after : World}

theorem Linked.readMarker {fs : Fs} (linked : Linked fs) (text : Text) :
    fs.readToString updateAttemptFile = some text ↔ fs updateAttemptFile = some (.file text) := by
  unfold Fs.readToString
  rw [Fs.follow_plain linked.updateAttempt_plain, Option.bind_eq_bind, Option.bind_some]
  cases found : fs updateAttemptFile with
  | none => simp
  | some node =>
    cases node with
    | filling content coming => exact (linked.marker content coming found).elim
    | _ => simp

/-- The marker names a version, and so does one of the links. -/
structure Names (fs : Fs) (link : Path) (sha : Text) : Prop where
  marker : fs updateAttemptFile = some (.file sha)
  trimmed : trim sha = sha
  link : fs link = some (.link (.absolute (entrypointOf sha)))

/-- What the marker and the links hold while a version is handed over. -/
def Handing.Holds (handing : Handing) (sha : Text) (fs : Fs) : Prop :=
  match handing with
  | .fills => fs updateAttemptFile = some (.file [])
  | .looks | .removes | .links => fs updateAttemptFile = some (.file sha) ∧ trim sha = sha
  | .renames => Names fs tmpSymlink sha
  | .exits => Names fs entrypointAttemptPath sha

/-- The way of a version from the marker to its trial. -/
inductive OnItsWay (i : Nat) (world : World) : Prop where
  | hands (handing : Handing) (sha : Text) (rest : Except String Unit → Loads Unit) (app : Process)
      (alive : world.machine.child = .running app) (here : world.tasks i = Program.bind (handing.program sha) rest)
      (holds : handing.Holds sha world.machine.fs)
  | exited (sha : Text) (gone : world.machine.child = .exited (some restartExitCode))
      (names : Names world.machine.fs entrypointAttemptPath sha)
  | loops (sha : Text) (gone : world.machine.child = .none) (names : Names world.machine.fs entrypointAttemptPath sha)
      (here : world.supervisor = Program.done (.ok .again) ∨ world.supervisor = Round.looks.program ∨
        world.supervisor = Round.takes.program)
  | spawns (sha : Text) (gone : world.machine.child = .none)
      (names : Names world.machine.fs entrypointAttemptingPath sha)
      (here : world.supervisor = Round.spawnsTrial.program)
  | ends (gone : world.machine.child = .none) (error : String) (here : world.supervisor = Program.done (.error error))

/-- A marker that stands for itself names a version that was tried. -/
structure Honest (past : Past) (world : World) : Prop where
  holds : world.Holds
  phase : Phase world.supervisor world.machine
  orderly : ∀ i, past.marking ≠ some i → Orderly (world.tasks i)
  marker : past.marking = none → ∀ text, world.machine.fs updateAttemptFile = some (.file text) →
    entrypointOf (trim text) ∈ past.tried
  onItsWay : ∀ i, past.marking = some i → OnItsWay i world

theorem Handing.Does.holds {sha : Text} {handing next : Handing} {before after : Fs} (linked : Linked before)
    (does : Handing.Does sha handing before next after) (trimmed : handing = .fills → trim sha = sha)
    (holds : handing.Holds sha before) : next.Holds sha after := by
  cases does with
  | fills =>
    refine ⟨?_, trimmed rfl⟩
    have empty : before updateAttemptFile = some (.file []) := holds
    rw [Fs.append_plain linked.updateAttempt_plain, empty]
    exact Function.update_self ..
  | finds | findsNone => exact holds
  | removes removed => exact ⟨(Fs.remove_other removed (by decide)).trans holds.1, holds.2⟩
  | links made =>
    obtain ⟨_, rfl, _⟩ := linked.symlink (by decide) made
    exact ⟨(Fs.put_other _ _ (by decide)).trans holds.1, holds.2, Function.update_self ..⟩
  | renames renamed =>
    obtain ⟨passed, _⟩ := linked.rename (by decide) (by decide) (by decide) renamed
    exact ⟨(passed.others _ (by decide) (by decide) rfl).trans holds.marker, holds.trimmed,
      passed.arrived.trans holds.link⟩

variable {i : Nat}

theorem Handing.Holds.kept {handing : Handing} {sha : Text} {before after : Fs} (holds : handing.Holds sha before)
    (links : ∀ path ∈ switches, after path = before path)
    (marker : after updateAttemptFile = before updateAttemptFile) : handing.Holds sha after := by
  cases handing with
  | fills => exact marker.trans holds
  | looks | removes | links => exact ⟨marker.trans holds.1, holds.2⟩
  | renames => exact ⟨marker.trans holds.marker, holds.trimmed, (links _ (by decide)).trans holds.link⟩
  | exits => exact ⟨marker.trans holds.marker, holds.trimmed, (links _ (by decide)).trans holds.link⟩

/-- What has been written arrives meanwhile. -/
theorem OnItsWay.lands {machine : Machine} {fs : Fs} {supervisor : Loads Verdict} {tasks : Nat → Loads Unit}
    (way : OnItsWay i ⟨machine, supervisor, tasks⟩) (linked : Linked machine.fs) (lands : machine.fs.Lands fs) :
    OnItsWay i ⟨{ machine with fs }, supervisor, tasks⟩ := by
  have links := (linked.lands lands).links
  have marker := linked.lands_marker lands
  have names {path : Path} {sha : Text} (switch : path ∈ switches) (names : Names machine.fs path sha) : Names fs path sha :=
    ⟨marker.trans names.marker, names.trimmed, (links path switch).trans names.link⟩
  cases way with
  | hands handing sha rest app alive here holds => exact .hands handing sha rest app alive here (holds.kept links marker)
  | exited sha gone named => exact .exited sha gone (names (by decide) named)
  | loops sha gone named here => exact .loops sha gone (names (by decide) named) here
  | spawns sha gone named here => exact .spawns sha gone (names (by decide) named) here
  | ends gone error here => exact .ends gone error here

/-- Another task stores an image meanwhile. -/
theorem OnItsWay.beside {request : Request} {app : Process} {machine : Machine} {j : Nat} {task : Loads Unit}
    {reply : Except String request.Value} (way : OnItsWay i world) (linked : Linked world.machine.fs)
    (alive : world.machine.child = .running app) (other : i ≠ j) (stores : Stores request)
    (served : serves request world.machine reply machine) :
    OnItsWay i ⟨machine, world.supervisor, Function.update world.tasks j task⟩ := by
  obtain ⟨untouched, child⟩ := stores.keeps linked served
  cases way with
  | hands handing sha rest app alive here holds =>
    refine .hands handing sha rest app (child.trans alive) ((Function.update_of_ne other _ _).trans here) ?_
    exact holds.kept untouched.links (stores.beyond linked served marker_beyond)
  | exited sha gone | loops sha gone | spawns sha gone | ends gone =>
    rw [gone] at alive
    cases alive

theorem OnItsWay.task {request : Request} {app : Process} (way : OnItsWay i world) (linked : Linked world.machine.fs)
    (alive : world.machine.child = .running app) (succeeds : Succeeds world i request after)
    (trimmed : ∀ text, request = .writeAll updateAttemptFile text → trim text = text) :
    OnItsWay i after ∧ ∃ (handing : Handing) (sha : Text), request = handing.request sha := by
  obtain ⟨next, value, waiting, served, _, tasks⟩ := succeeds
  cases way with
  | hands handing sha rest app alive here holds =>
    rw [handing.program_bind, waiting] at here
    cases here
    obtain ⟨does, child⟩ := handing.does sha served
    refine ⟨.hands (handing.succeed sha value) sha rest app (child.trans alive) ?_ ?_, handing, sha, rfl⟩
    · exact (congrFun tasks i).trans (Function.update_self ..)
    · refine does.holds linked ?_ holds
      rintro rfl
      exact trimmed sha rfl
  | exited sha gone | loops sha gone | spawns sha gone | ends gone =>
    rw [gone] at alive
    cases alive

/-- Where the supervisor has a child it calls for news of it only. -/
theorem Transition.watching {round : Round} {before after : Machine} {supervisor : Loads Verdict}
    (transition : Transition round before supervisor after) (busy : round.hasChild = true) :
    after.fs = before.fs ∧ (after.child = before.child ∨
      after.child = .none ∧ ((∃ error, supervisor = Program.done (.error error)) ∨
        ∃ code, before.child = .exited code ∧ supervisor = Program.done (.ok (afterExit code)))) := by
  cases transition with
  | finds | findsNone | takes | spawnsTrial | spawns => cases busy
  | fails | timesOut | stands | gone | killFails => exact ⟨rfl, .inl rfl⟩
  | reaps waiting exited => exact ⟨rfl, .inr ⟨rfl, .inr ⟨_, exited, rfl⟩⟩⟩
  | kills => exact ⟨rfl, .inr ⟨rfl, .inl ⟨timeoutError, rfl⟩⟩⟩

theorem Round.request_spawn {round : Round} {path : Path} (same : round.request = .spawn path true) :
    round = .spawnsTrial := by
  cases round with
  | spawnsTrial => rfl
  | _ => cases same

/-- A child is there, and it is the round in which the supervisor has one. -/
theorem Phase.watching {request : Request} (phase : Phase world.supervisor world.machine)
    (linked : Linked world.machine.fs) (step : Step formats world (.supervisor request) after)
    (child : world.machine.child ≠ .none) :
    ∃ round : Round, round.hasChild = true ∧ request = round.request ∧
      Transition round world.machine after.supervisor after.machine ∧
      after.tasks = tasksOf after.machine.child world.tasks := by
  cases phase with
  | prepares uses quiet => exact (child quiet).elim
  | loops round here matching => exact ⟨round, matching.mpr child, step.transition linked here⟩
  | ended verdict here =>
    cases step with
    | supervisor => cases here

theorem OnItsWay.watched {request : Request} (way : OnItsWay i world) (phase : Phase world.supervisor world.machine)
    (linked : Linked world.machine.fs) (step : Step formats world (.supervisor request) after)
    (child : world.machine.child ≠ .none) : OnItsWay i after ∧ ∀ path, request ≠ .spawn path true := by
  obtain ⟨round, busy, asked, transition, tasks⟩ := phase.watching linked step child
  obtain ⟨disk, ended⟩ := transition.watching busy
  have quiet (path : Path) : request ≠ .spawn path true := by
    intro same
    rw [asked] at same
    rw [Round.request_spawn same] at busy
    cases busy
  refine ⟨?_, quiet⟩
  cases way with
  | hands handing sha rest app alive here holds =>
    rcases ended with same | ⟨gone, ⟨error, failed⟩ | ⟨code, exited, _⟩⟩
    · refine .hands handing sha rest app (same.trans alive) ?_ (disk ▸ holds)
      rw [tasks, same, alive]
      exact here
    · exact .ends gone error failed
    · rw [alive] at exited
      cases exited
  | exited sha gone names =>
    rcases ended with same | ⟨gone', ⟨error, failed⟩ | ⟨code, exited, again⟩⟩
    · exact .exited sha (same.trans gone) (disk ▸ names)
    · exact .ends gone' error failed
    · rw [gone] at exited
      cases exited
      exact .loops sha gone' (disk ▸ names) (.inl again)
  | loops sha gone | spawns sha gone | ends gone => exact (child gone).elim

/-- A trial is spawned. -/
def Tries (before : World) (request : Request) (after : World) (sha : Text) : Prop :=
  (∃ path app, request = .spawn path true ∧ after.machine.child = .running app ∧ app.program = entrypointOf sha) ∧
    after.machine.fs updateAttemptFile = some (.file sha) ∧ trim sha = sha ∧ before.machine.child = .none

theorem OnItsWay.spawned {request : Request} (way : OnItsWay i world)
    (linked : Linked world.machine.fs) (step : Step formats world (.supervisor request) after)
    (resolves : request = .exists_ entrypointAttemptPath → world.machine.fs.exists_ entrypointAttemptPath = true)
    (quiet : world.machine.child = .none) :
    (OnItsWay i after ∧ after.machine.child = .none) ∨ ∃ sha, Tries world request after sha := by
  have none_ (error : String) (child : after.machine.child = .none)
      (here : after.supervisor = Program.done (.error error)) : OnItsWay i after ∧ after.machine.child = .none :=
    ⟨.ends child error here, child⟩
  cases way with
  | hands handing sha rest app alive =>
    rw [quiet] at alive
    cases alive
  | exited sha gone =>
    rw [quiet] at gone
    cases gone
  | ends gone error here =>
    cases step with
    | supervisor => cases here
  | loops sha gone names here =>
    rcases here with here | here | here
    · cases step with
      | supervisor => cases here
    · obtain ⟨rfl, transition, _⟩ := step.transition linked here
      have there := resolves rfl
      obtain ⟨machine, supervisor, tasks⟩ := after
      dsimp only at transition
      cases transition with
      | fails error => exact .inl (none_ error gone rfl)
      | finds => exact .inl ⟨.loops sha gone names (.inr (.inr rfl)), gone⟩
      | findsNone missing =>
        rw [there] at missing
        cases missing
      | reaps waiting => rcases waiting with impossible | impossible <;> cases impossible
    · obtain ⟨_, transition, _⟩ := step.transition linked here
      obtain ⟨machine, supervisor, tasks⟩ := after
      dsimp only at transition
      cases transition with
      | fails error => exact .inl (none_ error gone rfl)
      | takes renamed =>
        obtain ⟨passed, _⟩ := linked.rename (by decide) (by decide) (by decide) renamed
        refine .inl ⟨.spawns sha gone ⟨?_, names.trimmed, passed.arrived.trans names.link⟩ rfl, gone⟩
        exact (passed.others _ (by decide) (by decide) rfl).trans names.marker
      | reaps waiting => rcases waiting with impossible | impossible <;> cases impossible
  | spawns sha gone names here =>
    obtain ⟨rfl, transition, _⟩ := step.transition linked here
    obtain ⟨machine, supervisor, tasks⟩ := after
    dsimp only at transition
    cases transition with
    | fails error => exact .inl (none_ error gone rfl)
    | @spawnsTrial _ app spawned =>
      have link := spawned.2.1
      rw [names.link] at link
      injection link with link
      injection link with link
      injection link with link
      exact .inr ⟨sha, ⟨_, app, rfl, rfl, link.symm⟩, names.marker, names.trimmed, quiet⟩
    | reaps waiting => rcases waiting with impossible | impossible <;> cases impossible

private theorem Past.next_tries {past : Past} {request : Request} {sha : Text} (tries : Tries world request after sha) :
    past.next (.supervisor request) after = ⟨past.tried ++ [entrypointOf sha], none⟩ := by
  obtain ⟨⟨path, app, rfl, alive, program⟩, _⟩ := tries
  simp only [Past.next, alive, program]

/-- A supervisor's call forgets nothing and creates no marker. -/
theorem Past.next_supervisor (past : Past) (after : World) (request : Request) :
    past.tried ⊆ (past.next (.supervisor request) after).tried ∧
      (past.marking = none → (past.next (.supervisor request) after).marking = none) := by
  cases request with
  | spawn path trial =>
    cases trial with
    | false => exact ⟨List.Subset.refl _, id⟩
    | true => cases child : after.machine.child <;> simp [Past.next, child]
  | _ => exact ⟨List.Subset.refl _, id⟩

/-- Nobody else writes the marker. -/
theorem Updates.marker {self : Process} {request : Request} {before after : Machine}
    {reply : Except String request.Value} (updates : Updates self request) (linked : Linked before.fs)
    (served : serves request before reply after) (create : request ≠ .create updateAttemptFile)
    (write : ∀ text, request ≠ .writeAll updateAttemptFile text) {text : Text}
    (found : after.fs updateAttemptFile = some (.file text)) : before.fs updateAttemptFile = some (.file text) := by
  have failed (fails : request.Fails before.fs after.fs) (other : ∀ path text, request ≠ .writeAll path text) :
      before.fs updateAttemptFile = some (.file text) := by
    rwa [Request.fails_nothing fails other] at found
  match updates, reply, served with
  | .store stores, _, served => rwa [← stores.beyond linked served marker_beyond]
  | .mark, _, _ => exact (create rfl).elim
  | .write text, _, _ => exact (write text rfl).elim
  | .unmark, .error _, ⟨fails, _⟩ | .link _, .error _, ⟨fails, _⟩ | .unlink, .error _, ⟨fails, _⟩
  | .attempt, .error _, ⟨fails, _⟩ | .commit _, .error _, ⟨fails, _⟩ => exact failed fails (by simp)
  | .exit _, .error _, ⟨impossible, _⟩ => exact impossible.elim
  | .unmark, .ok _, ⟨disk, _⟩ =>
    rw [disk.2.2.2, Function.update_self] at found
    cases found
  | .unlink, .ok _, ⟨disk, _⟩ => rwa [Fs.remove_other disk.2 (by decide)] at found
  | .link sha, .ok _, ⟨disk, _⟩ => rwa [(linked.symlink (by decide) disk).2.1, Fs.put_other _ _ (by decide)] at found
  | .attempt, .ok _, ⟨disk, _⟩ | .commit _, .ok _, ⟨disk, _⟩ =>
    rwa [(linked.rename (by decide) (by decide) (by decide) disk).1.others _ (by decide) (by decide) rfl] at found

theorem Prepares.marker {request : Request} {before after : Machine} {reply : Except String request.Value}
    (prepares : Prepares request) (linked : Linked before.fs) (served : serves request before reply after) :
    after.fs updateAttemptFile = before.fs updateAttemptFile := by
  match prepares, reply, served with
  | .store stores, _, served => exact stores.beyond linked served marker_beyond
  | .link sha, .error _, ⟨fails, _⟩ => rw [Request.fails_nothing fails (by simp)]
  | .link sha, .ok _, ⟨disk, _⟩ => rw [(linked.symlink (by decide) disk).2.1, Fs.put_other _ _ (by decide)]

theorem Transition.marker {round : Round} {before after : Machine} {supervisor : Loads Verdict} (linked : Linked before.fs)
    (transition : Transition round before supervisor after) :
    after.fs updateAttemptFile = before.fs updateAttemptFile := by
  cases transition with
  | takes renamed =>
    exact (linked.rename (by decide) (by decide) (by decide) renamed).1.others _ (by decide) (by decide) rfl
  | _ => rfl

theorem Phase.marker {request : Request} (phase : Phase world.supervisor world.machine)
    (linked : Linked world.machine.fs) (step : Step formats world (.supervisor request) after) :
    after.machine.fs updateAttemptFile = world.machine.fs updateAttemptFile := by
  cases phase with
  | prepares uses =>
    cases step with
    | supervisor reply served => exact uses.1.marker linked served
  | loops round here => exact (step.transition linked here).2.1.marker linked
  | ended verdict here =>
    cases step with
    | supervisor => cases here

theorem Honest.supervisor {past : Past} {request : Request} (honest : Honest past world)
    (step : Step formats world (.supervisor request) after)
    (unbroken : Unbroken past world (.supervisor request) after) :
    Honest (past.next (.supervisor request) after) after := by
  have holds := honest.holds.step step
  have phase := honest.phase.step honest.holds step
  have linked := honest.holds.valid.linked
  have tasks : after.tasks = tasksOf after.machine.child world.tasks := by
    cases step with
    | supervisor => rfl
  have orderly (j : Nat) (other : past.marking ≠ some j) : Orderly (after.tasks j) := by
    rw [tasks]
    cases after.machine.child with
    | running app => exact honest.orderly j other
    | none | exited code => exact .done _
  cases marking : past.marking with
  | none =>
    obtain ⟨kept, still⟩ := past.next_supervisor after request
    have still := still marking
    refine ⟨holds, phase, fun j _ => orderly j (by simp [marking]), ?_, by simp [still]⟩
    intro _ text found
    rw [honest.phase.marker linked step] at found
    exact kept (honest.marker marking text found)
  | some i =>
    have way := honest.onItsWay i marking
    have goes (same : past.next (.supervisor request) after = past) (way : OnItsWay i after) :
        Honest (past.next (.supervisor request) after) after := by
      rw [same]
      refine ⟨holds, phase, orderly, by simp [marking], ?_⟩
      intro j this
      rw [marking] at this
      cases this
      exact way
    by_cases quiet : world.machine.child = .none
    · rcases way.spawned linked step (unbroken.calm i marking) quiet with ⟨way, gone⟩ | ⟨sha, tries⟩
      · exact goes (Past.next_quiet (.inr gone)) way
      · rw [Past.next_tries tries]
        refine ⟨holds, phase, ?_, ?_, nofun⟩
        · intro j _
          have idle : world.tasks = idle := honest.holds.resting fun app alive => by simp [quiet] at alive
          rw [tasks, idle, tasksOf_idle]
          exact .done _
        · intro _ text found
          rw [tries.2.1] at found
          cases found
          rw [tries.2.2.1]
          exact List.mem_append_right _ (List.mem_singleton.mpr rfl)
    · obtain ⟨way, other⟩ := way.watched honest.phase linked step quiet
      exact goes (Past.next_quiet (.inl other)) way

private theorem update_orderly {tasks : Nat → Loads Unit} {task : Loads Unit} (marking : Option Nat)
    (orderly : ∀ j, marking ≠ some j → Orderly (tasks j)) (new : marking ≠ some i → Orderly task) (j : Nat)
    (other : marking ≠ some j) : Orderly (Function.update tasks i task j) := by
  by_cases this : j = i
  · subst this
    rw [Function.update_self]
    exact new other
  · rw [Function.update_of_ne this]
    exact orderly j other

private theorem Handing.request_unmarked (handing : Handing) (sha : Text) :
    handing.request sha ≠ .create updateAttemptFile := by
  cases handing <;> exact nofun

theorem Honest.task {past : Past} {request : Request} (honest : Honest past world)
    (step : Step formats world (.task i request) after) (unbroken : Unbroken past world (.task i request) after) :
    Honest (past.next (.task i request) after) after := by
  have holds := honest.holds.step step
  have phase := honest.phase.step honest.holds step
  have linked := honest.holds.valid.linked
  cases step with
  | @task machine after supervisor tasks app _ next _ reply alive waiting served =>
  cases marking : past.marking with
  | some j =>
    have calm := unbroken.calm j marking
    by_cases this : i = j
    · subst this
      have succeeds : Succeeds _ i request _ := (if_pos rfl).mp calm
      have trimmed (text : Text) (writes : request = .writeAll updateAttemptFile text) : trim text = text :=
        unbroken.trimmed i text (by rw [writes])
      obtain ⟨way, handing, sha, asked⟩ := (honest.onItsWay i marking).task linked alive succeeds trimmed
      rw [past.next_task (asked ▸ handing.request_unmarked sha)]
      refine ⟨holds, phase, update_orderly _ honest.orderly fun other => (other marking).elim, by simp [marking], ?_⟩
      intro k same
      rw [marking] at same
      cases same
      exact way
    · have keeps : Stores request ∧ _ := (if_neg this).mp calm
      have orderly := honest.orderly i (by simp [marking, Ne.symm this])
      dsimp only at orderly
      rw [waiting] at orderly
      rw [past.next_task keeps.1.unmarked.1]
      refine ⟨holds, phase, update_orderly _ honest.orderly fun _ => orderly.next keeps.1.unmarked.1 reply, by simp [marking], ?_⟩
      intro k same
      rw [marking] at same
      cases same
      exact (honest.onItsWay j marking).beside linked alive (Ne.symm this) keeps.1 served
  | none =>
    have orderly := honest.orderly i (by simp [marking])
    dsimp only at orderly
    rw [waiting] at orderly
    cases orderly with
    | call other unwritten rest =>
      have uses := honest.holds.tasks app alive i
      dsimp only at uses
      rw [waiting] at uses
      rw [past.next_task other]
      refine ⟨holds, phase, update_orderly _ honest.orderly fun _ => rest reply, ?_, by simp [marking]⟩
      intro _ text found
      exact honest.marker marking text (uses.1.marker linked served other unwritten found)
    | mark sha rest fills fails =>
      obtain ⟨next', _, waiting', created, _, updated⟩ := unbroken.creates i rfl
      dsimp only at waiting' created updated
      rw [waiting] at waiting'
      cases waiting'
      have here := (congrFun updated i).trans (Function.update_self ..)
      have empty : after.fs updateAttemptFile = some (.file []) := by
        rw [Fs.create_plain linked.updateAttempt_plain created.1]
        exact Function.update_self ..
      refine ⟨holds, phase, ?_, nofun, ?_⟩
      · intro j other
        refine update_orderly (some i) (fun k _ => honest.orderly k (by simp [marking])) ?_ j other
        exact fun this => (this rfl).elim
      · intro j this
        cases this
        exact .hands .fills sha rest app (created.2.trans alive) (here.trans fills) empty

/-- The supervisor begins its next round. -/
theorem OnItsWay.round {machine : Machine} {tasks : Nat → Loads Unit}
    (way : OnItsWay i ⟨machine, Program.done (.ok .again), tasks⟩) : OnItsWay i ⟨machine, superviseRound, tasks⟩ := by
  cases way with
  | hands handing sha rest app alive here holds => exact .hands handing sha rest app alive here holds
  | exited sha gone names => exact .exited sha gone names
  | loops sha gone names => exact .loops sha gone names (.inr (.inl rfl))
  | spawns sha gone names here =>
    rw [Round.program_call] at here
    cases here
  | ends gone error here => cases here

/-- The app exits where it was asked to. -/
theorem OnItsWay.exit {app : Process} {code : Option Int} (way : OnItsWay i world)
    (alive : world.machine.child = .running app) (undisturbed : Undisturbed i world (.exit code) after) :
    OnItsWay i ⟨{ world.machine with child := .exited code }, world.supervisor, idle⟩ := by
  obtain ⟨rfl, next, asked⟩ := undisturbed
  cases way with
  | hands handing sha rest app alive here holds =>
    rw [handing.program_bind, asked] at here
    cases handing with
    | exits => exact .exited sha rfl holds
    | _ => cases here
  | exited sha gone | loops sha gone | spawns sha gone | ends gone =>
    rw [gone] at alive
    cases alive

/-- Another task starts. -/
theorem OnItsWay.start {app : Process} {task : Loads Unit} {j : Nat} {result : Except String Unit} (way : OnItsWay i world)
    (alive : world.machine.child = .running app) (ended : world.tasks j = Program.done result) :
    OnItsWay i ⟨world.machine, world.supervisor, Function.update world.tasks j task⟩ := by
  cases way with
  | hands handing sha rest app alive here holds =>
    refine .hands handing sha rest app alive ?_ holds
    have other : i ≠ j := by
      rintro rfl
      rw [handing.program_bind, ended] at here
      cases here
    exact (Function.update_of_ne other _ _).trans here
  | exited sha gone | loops sha gone | spawns sha gone | ends gone =>
    rw [gone] at alive
    cases alive

theorem Honest.step {past : Past} {event : Event} (honest : Honest past world) (step : Step formats world event after)
    (unbroken : Unbroken past world event after) : Honest (past.next event after) after := by
  have holds := honest.holds.step step
  have phase := honest.phase.step honest.holds step
  have whole := step
  cases step with
  | supervisor => exact honest.supervisor whole unbroken
  | task => exact honest.task whole unbroken
  | round => exact ⟨holds, phase, honest.orderly, honest.marker, fun i marking => (honest.onItsWay i marking).round⟩
  | start j alive ended starts =>
    refine ⟨holds, phase, update_orderly _ honest.orderly fun _ => starts.orderly, honest.marker, ?_⟩
    exact fun i marking => (honest.onItsWay i marking).start alive ended
  | exit code alive =>
    refine ⟨holds, phase, fun _ _ => .done _, honest.marker, ?_⟩
    exact fun i marking => (honest.onItsWay i marking).exit alive (unbroken.calm i marking)
  | arrives arrived =>
    have linked := honest.holds.valid.linked
    refine ⟨holds, phase, honest.orderly, fun free text found => ?_, fun i marking => ?_⟩
    · exact honest.marker free text ((linked.lands_marker arrived.lands).symm.trans found)
    · exact (honest.onItsWay i marking).lands linked arrived.lands
  | restart =>
    refine ⟨holds, phase, fun _ _ => .done _, honest.marker, ?_⟩
    exact fun i marking => (unbroken.calm i marking).elim

private theorem initial_honest {disk : Fs} (fresh : Fresh disk) : Honest ⟨[], none⟩ (.initial formats disk) := by
  refine ⟨World.initial_holds fresh, .prepares startSupervisor_prepares rfl, fun _ _ => .done _, ?_, nofun⟩
  intro _ text found
  have missing : disk updateAttemptFile = none := fresh _ (List.prefix_append _ _)
  have found : disk updateAttemptFile = some (.file text) := found
  rw [missing] at found
  cases found

theorem Honest.run {past : Past} {disk : Fs} (fresh : Fresh disk)
    (run : Remembers formats Unbroken (.initial formats disk) past world) : Honest past world := by
  induction run with
  | start => exact initial_honest fresh
  | step _ permitted step before => exact before.step step permitted

/-- In a run in which nothing comes between a marker and its trial, a version that
is skipped as failed has been spawned on trial before. -/
theorem skipped_was_tried {past : Past} {disk : Fs} (fresh : Fresh disk)
    (run : Remembers formats Unbroken (.initial formats disk) past world) {version : Text}
    (skips : Skips formats version world i after)
    (unbroken : Unbroken past world (.task i (.readToString updateAttemptFile)) after) :
    entrypointOf version ∈ past.tried := by
  have honest := Honest.run fresh run
  obtain ⟨rest, text, waiting, read, rfl, step, _⟩ := skips
  have linked := honest.holds.valid.linked
  cases marking : past.marking with
  | none => exact honest.marker marking text ((linked.readMarker text).mp read)
  | some j =>
    have calm := unbroken.calm j marking
    by_cases this : i = j
    · subst this
      have succeeds : Succeeds _ i _ _ := (if_pos rfl).mp calm
      cases step with
      | task _ reply alive =>
      obtain ⟨_, handing, sha, asked⟩ := (honest.onItsWay i marking).task linked alive succeeds (fun _ => nofun)
      cases handing <;> cases asked
    · exact (((if_neg this).mp calm).2 rfl).elim

end

/-- A round that has found the second version, at the marker. -/
def secondAttempted (attempted : Bool) : Loads Unit := do
  let _ ← (if attempted then pure () else installUpdate oneLayer ⟨"app".toList, none⟩ "v2".toList).attempt
  pure ()

/-- What a reading of the marker tells about a version. -/
def attempted (version : Text) : Except String Text → Bool
  | .ok text => trim text = version
  | .error _ => false

/-- A task about to read a marker that names its version. -/
theorem reading_skips {formats : Formats} {world : World} {i : Nat} {app : Process} {version text : Text}
    {next : Except String Text → Loads Unit} (rest : Bool → Loads Unit) (alive : world.machine.child = .running app)
    (waiting : world.tasks i = Program.call (Request.readToString updateAttemptFile) next)
    (follows : ∀ reply, next reply = rest (attempted version reply))
    (read : world.machine.fs.readToString updateAttemptFile = some text) (same : trim text = version) :
    ∃ after, Skips formats version world i after := by
  obtain ⟨machine, supervisor, tasks⟩ := world
  have served : serves (.readToString updateAttemptFile) machine (.ok text) machine := ⟨⟨read, rfl⟩, rfl⟩
  have reads : wasUpdateAttempted version >>= rest = Program.call (Request.readToString updateAttemptFile) next := by
    refine congrArg (Program.call _) (funext fun reply => ?_)
    rw [follows reply]
    cases reply <;> rfl
  refine ⟨_, rest, text, waiting.trans reads.symm, read, same, Step.task i (.ok text) alive waiting served, ?_⟩
  have named : attempted version (.ok text) = true := decide_eq_true same
  exact (Function.update_self ..).trans ((follows _).trans (congrArg rest named))

theorem secondTrimmed : trim "v2".toList = "v2".toList := by decide

/-- The second version is handed over, runs on trial and exits uncommitted. The
first one reads the marker then, and skips it. -/
theorem skipped_was_tried_again : ∃ (past : Past) (world : World),
    Remembers oneLayer Unbroken (.initial oneLayer volume) past world ∧
      ∃ after, Skips oneLayer "v2".toList world 0 after ∧ entrypointOf "v2".toList ∈ past.tried := by
  have free : ∀ (before : World) (event : Event) (after : World), event.Quiet →
      Unbroken ⟨[], none⟩ before event after := fun _ _ _ => .quiet rfl
  have fresh : Remembers oneLayer Unbroken (.initial oneLayer volume) ⟨[], none⟩ _ := .start
  have looping := (fresh.supervise (registry "v1".toList) free).quiet free (by exact trivial) .round
  have running := looping.supervise (registry "v1".toList) free
  have started := running.quiet free (by exact trivial) (.start 0 rfl rfl .markReady)
  have reading := started.asks (registry "v2".toList) free rfl
  have unmarked := reading.answered (registry "v2".toList) rfl rfl rfl (.reads rfl)
  have creating := unmarked.asks (registry "v2".toList) free rfl
  have filling := creating.hands (registry "v2".toList) rfl rfl rfl nofun nofun
  have looking := filling.hands (registry "v2".toList) rfl rfl rfl (fun i same => (Option.some.inj same).symm)
    fun text same => (Request.writeAll.inj same).2 ▸ secondTrimmed
  have linking := looking.hands (registry "v2".toList) rfl rfl rfl (fun i same => (Option.some.inj same).symm) nofun
  have named := linking.hands (registry "v2".toList) rfl rfl rfl (fun i same => (Option.some.inj same).symm) nofun
  have exiting := named.hands (registry "v2".toList) rfl rfl rfl (fun i same => (Option.some.inj same).symm) nofun
  have exited := exiting.exits rfl rfl (fun i same => (Option.some.inj same).symm)
  have again := (exited.reaps (.inr rfl) rfl).step .round .round
  have pending := again.takesOver (registry "v2".toList) .looks rfl fun _ => rfl
  have taken := pending.takesOver (registry "v2".toList) .takes rfl nofun
  have tried := taken.takesOver (registry "v2".toList) .spawnsTrial rfl nofun
  have failed := tried.step (.quiet rfl (by exact trivial)) (.exit (some 42) rfl)
  have back := ((failed.reaps (.inl rfl) rfl).step .round .round).supervise (registry "v2".toList) fun _ _ _ => .quiet rfl
  have started' := back.step (.quiet rfl (by exact trivial)) (.start 0 rfl rfl (.updateRound "app".toList))
  have rereading := started'.asks (registry "v2".toList) (fun _ _ _ => .quiet rfl) rfl
  refine ⟨_, _, rereading, ?_⟩
  apply Exists.imp fun after (skips : Skips oneLayer "v2".toList _ 0 after) =>
    ⟨skips, skipped_was_tried volume_fresh rereading skips (.reads rfl)⟩
  refine reading_skips secondAttempted rfl rfl (fun reply => ?_) rfl secondTrimmed
  cases reply <;> rfl

/-- Any run that remembers. -/
abbrev FreePast (past : Past) (world : World) : Prop :=
  Remembers oneLayer (fun _ _ _ _ => True) (.initial oneLayer volume) past world

/-- The container is killed once the marker for the second version is written. The
version is skipped from then on, and has never been tried. -/
theorem skipped_untried : ∃ (past : Past) (world : World), FreePast past world ∧
    (∃ after, Skips oneLayer "v2".toList world 0 after) ∧ past.tried = [] := by
  have free : ∀ (before : World) (event : Event) (after : World), event.Quiet → True := fun _ _ _ _ => trivial
  have fresh : FreePast ⟨[], none⟩ _ := .start
  have looping := (fresh.supervise (registry "v1".toList) free).quiet free (by exact trivial) .round
  have running := looping.supervise (registry "v1".toList) free
  have started := running.quiet free (by exact trivial) (.start 0 rfl rfl .markReady)
  have reading := started.asks (registry "v2".toList) free rfl
  have unmarked := reading.answered (registry "v2".toList) rfl rfl rfl trivial
  have creating := unmarked.asks (registry "v2".toList) free rfl
  have filling := creating.answered (registry "v2".toList) rfl rfl rfl trivial
  have marked := filling.answered (registry "v2".toList) rfl rfl rfl trivial
  have killed := marked.quiet free (by exact trivial) .restart
  have again := (killed.supervise (registry "v2".toList) free).quiet free (by exact trivial) .round
  have back := again.supervise (registry "v2".toList) free
  have checks := back.quiet free (by exact trivial) (.start 0 rfl rfl (.updateRound "app".toList))
  have skips := checks.asks (registry "v2".toList) free rfl
  refine ⟨_, _, skips, ?_, rfl⟩
  refine reading_skips secondAttempted rfl rfl (fun reply => ?_) rfl rfl
  cases reply <;> rfl

end Pos2.Loader
