import Pos2.Loader.Handing
import Pos2.Loader.Trial

/-! Runs that remember which versions were tried, and whether a marker has been
created since. -/

namespace Pos2.Loader
open Calls

/-- What a run has to remember: the programs spawned on trial, and the task that has
created the marker since. -/
structure Past where
  tried : List Path
  marking : Option Nat

def Past.next (past : Past) (event : Event) (after : World) : Past :=
  match event with
  | .task i (.create path) => if path = updateAttemptFile then { past with marking := some i } else past
  | .supervisor (.spawn _ true) =>
    match after.machine.child with
    | .running app => ⟨past.tried ++ [app.program], none⟩
    | _ => past
  | _ => past

/-- A run that remembers. -/
inductive Remembers (formats : Formats) (allowed : Past → World → Event → World → Prop) (start : World) :
    Past → World → Prop where
  | start : Remembers formats allowed start ⟨[], none⟩ start
  | step {past : Past} {before after : World} {event : Event} (run : Remembers formats allowed start past before)
      (permitted : allowed past before event after) (step : Step formats before event after) :
      Remembers formats allowed start (past.next event after) after

/-- A call of a task that does not fail. -/
def Succeeds (before : World) (i : Nat) (request : Request) (after : World) : Prop :=
  ∃ (next : Except String request.Value → Loads Unit) (value : request.Value),
    before.tasks i = Program.call request next ∧ serves request before.machine (.ok value) after.machine ∧
    after.supervisor = before.supervisor ∧ after.tasks = Function.update before.tasks i (next (.ok value))

/-- Once a task has created the marker: its calls do not fail, other tasks keep to
the images, the app exits as this task asks, the link resolves when the supervisor
looks at it, and the container lives. -/
def Undisturbed (i : Nat) (before : World) (event : Event) (after : World) : Prop :=
  match event with
  | .task j request => if j = i then Succeeds before i request after else
      Stores request ∧ request ≠ .readToString updateAttemptFile
  | .supervisor request => request = .exists_ entrypointAttemptPath →
      before.machine.fs.exists_ entrypointAttemptPath = true
  | .exit code => code = some restartExitCode ∧ ∃ next, before.tasks i = Program.call (Request.exit restartExitCode) next
  | .round | .start _ | .arrives => True
  | .restart => False

/-- Nothing comes between the marker and the trial. -/
structure Unbroken (past : Past) (before : World) (event : Event) (after : World) : Prop where
  creates : ∀ i, event = .task i (.create updateAttemptFile) → Succeeds before i (.create updateAttemptFile) after
  trimmed : ∀ i text, event = .task i (.writeAll updateAttemptFile text) → trim text = text
  calm : ∀ i, past.marking = some i → Undisturbed i before event after

section
variable {after : World} {i : Nat}

theorem Past.next_quiet {past : Past} {request : Request}
    (quiet : (∀ path, request ≠ .spawn path true) ∨ after.machine.child = .none) :
    past.next (.supervisor request) after = past := by
  cases request with
  | spawn path trial =>
    cases trial with
    | false => rfl
    | true =>
      rcases quiet with quiet | gone
      · exact (quiet path rfl).elim
      · simp only [Past.next, gone]
  | _ => rfl

theorem Past.next_task {past : Past} {request : Request} (other : request ≠ .create updateAttemptFile) :
    past.next (.task i request) after = past := by
  cases request with
  | create path =>
    have different : path ≠ updateAttemptFile := fun same => other (same ▸ rfl)
    simp only [Past.next, if_neg different]
  | _ => rfl

end

/-- The calls at which a run given by answers is to be looked at. -/
def Request.stops : Request → Bool
  | .create path | .readToString path | .writeAll path _ => path = updateAttemptFile
  | .spawn _ trial => trial
  | _ => false

section
variable {formats : Formats} {allowed : Past → World → Event → World → Prop} {start : World} {past : Past}
  {machine : Machine} {supervisor : Loads Verdict}

/-- An event of which a run has nothing to remember. -/
def Event.Quiet : Event → Prop
  | .task _ request | .supervisor request => request.stops = false
  | _ => True

theorem Event.Passes.quiet {event : Event} (passes : event.Passes Request.stops) : event.Quiet := by
  cases event with
  | task | supervisor => exact passes
  | _ => trivial

theorem Event.Quiet.kept {event : Event} (quiet : event.Quiet) (after : World) : past.next event after = past := by
  cases event with
  | task i request =>
    apply Past.next_task
    rintro rfl
    cases quiet
  | supervisor request =>
    apply Past.next_quiet
    refine .inl ?_
    rintro path rfl
    cases quiet
  | _ => rfl

theorem Unbroken.quiet {before after : World} {event : Event} (free : past.marking = none) (quiet : event.Quiet) :
    Unbroken past before event after := by
  refine ⟨?_, ?_, ?_⟩
  · rintro i rfl
    cases quiet
  · rintro i text rfl
    cases quiet
  · intro i marking
    rw [free] at marking
    cases marking

theorem Unbroken.reads {before after : World} {i : Nat} (free : past.marking = none) :
    Unbroken past before (.task i (.readToString updateAttemptFile)) after := by
  refine ⟨nofun, nofun, fun i marking => ?_⟩
  rw [free] at marking
  cases marking

theorem Unbroken.round {before after : World} : Unbroken past before .round after := ⟨nofun, nofun, fun _ _ => trivial⟩

theorem Remembers.quiet {before after : World} {event : Event} (run : Remembers formats allowed start past before)
    (free : ∀ before event after, event.Quiet → allowed past before event after) (quiet : event.Quiet)
    (step : Step formats before event after) : Remembers formats allowed start past after := by
  have stepped := run.step (free _ _ _ quiet) step
  rwa [quiet.kept] at stepped

theorem Remembers.carried (free : ∀ before event after, event.Quiet → allowed past before event after) :
    Carried formats Request.stops (Remembers formats allowed start past) :=
  fun _ _ _ run passes step => run.quiet free passes.quiet step

/-- The supervisor goes on, with no app at work, until it waits or spawns a trial. -/
theorem Remembers.supervise (outside : Outside)
    (run : Remembers formats allowed start past ⟨machine, supervisor, idle⟩)
    (free : ∀ before event after, event.Quiet → allowed past before event after) :
    Remembers formats allowed start past
      ⟨(Program.advance (Machine.answerUntil Request.stops outside) supervisor machine).2,
        (Program.advance (Machine.answerUntil Request.stops outside) supervisor machine).1, idle⟩ :=
  (Remembers.carried free).supervise outside run

/-- The only task of an app goes on until it waits or comes to the marker. -/
theorem Remembers.asks (outside : Outside) {task : Loads Unit} {app : Process}
    (run : Remembers formats allowed start past ⟨machine, supervisor, Function.update idle 0 task⟩)
    (free : ∀ before event after, event.Quiet → allowed past before event after)
    (running : machine.child = .running app) :
    Remembers formats allowed start past
      ⟨(Program.advance (Machine.answerUntil Request.stops outside) task machine).2, supervisor,
        Function.update idle 0 (Program.advance (Machine.answerUntil Request.stops outside) task machine).1⟩ :=
  (Remembers.carried free).asks outside run running

/-- The only task of an app is given one answer. -/
theorem Remembers.answered (outside : Outside) {task : Loads Unit} {app : Process} {request : Request}
    {next : Except String request.Value → Loads Unit} {reply : Except String request.Value} {after : Machine}
    (run : Remembers formats allowed start past ⟨machine, supervisor, Function.update idle 0 task⟩)
    (running : machine.child = .running app) (waiting : task = Program.call request next)
    (answer : machine.answer outside request = some (reply, after))
    (permitted : allowed past ⟨machine, supervisor, Function.update idle 0 task⟩ (.task 0 request)
      ⟨after, supervisor, Function.update idle 0 (next reply)⟩) :
    Remembers formats allowed start (past.next (.task 0 request) ⟨after, supervisor, Function.update idle 0 (next reply)⟩)
      ⟨after, supervisor, Function.update idle 0 (next reply)⟩ := by
  have step : Step formats ⟨machine, supervisor, Function.update idle 0 task⟩ (.task 0 request) _ :=
    .task 0 reply running ((Function.update_self 0 task idle).trans waiting) (Machine.answer_serves answer)
  rw [Function.update_idem] at step
  exact run.step permitted step

end

section
variable {formats : Formats} {start : World} {past : Past} {machine after : Machine} {supervisor : Loads Verdict}
  {task : Loads Unit} {app : Process}

theorem Succeeds.answered (outside : Outside) {request : Request} {next : Except String request.Value → Loads Unit}
    {value : request.Value} (waiting : task = Program.call request next)
    (answer : machine.answer outside request = some (.ok value, after)) :
    Succeeds ⟨machine, supervisor, Function.update idle 0 task⟩ 0 request
      ⟨after, supervisor, Function.update idle 0 (next (.ok value))⟩ := by
  have asked : Function.update idle 0 task 0 = Program.call request next := (Function.update_self 0 task idle).trans waiting
  exact ⟨next, value, asked, Machine.answer_serves answer, rfl, (Function.update_idem ..).symm⟩

/-- The task that hands a version over makes its next call. -/
theorem Remembers.hands (outside : Outside) {request : Request} {next : Except String request.Value → Loads Unit}
    {value : request.Value} (run : Remembers formats Unbroken start past ⟨machine, supervisor, Function.update idle 0 task⟩)
    (running : machine.child = .running app) (waiting : task = Program.call request next)
    (answer : machine.answer outside request = some (.ok value, after))
    (marking : ∀ i, past.marking = some i → i = 0)
    (trimmed : ∀ text, request = .writeAll updateAttemptFile text → trim text = text) :
    Remembers formats Unbroken start
      (past.next (.task 0 request) ⟨after, supervisor, Function.update idle 0 (next (.ok value))⟩)
      ⟨after, supervisor, Function.update idle 0 (next (.ok value))⟩ := by
  have succeeds : Succeeds ⟨machine, supervisor, Function.update idle 0 task⟩ 0 request
      ⟨after, supervisor, Function.update idle 0 (next (.ok value))⟩ := .answered outside waiting answer
  refine run.answered outside running waiting answer ⟨?_, ?_, ?_⟩
  · intro i same
    cases same
    exact succeeds
  · intro i text same
    cases same
    exact trimmed text rfl
  · intro i marked
    cases marking i marked
    dsimp only [Undisturbed]
    rwa [if_pos rfl]

/-- The app exits as the task asks. -/
theorem Remembers.exits {next : Except String Empty → Loads Unit}
    (run : Remembers formats Unbroken start past ⟨machine, supervisor, Function.update idle 0 task⟩)
    (running : machine.child = .running app) (waiting : task = Program.call (Request.exit restartExitCode) next)
    (marking : ∀ i, past.marking = some i → i = 0) :
    Remembers formats Unbroken start past
      ⟨{ machine with child := .exited (some restartExitCode) }, supervisor, idle⟩ := by
  have asked : Function.update idle 0 task 0 = _ := (Function.update_self 0 task idle).trans waiting
  have step : Step formats ⟨machine, supervisor, Function.update idle 0 task⟩ (.exit (some restartExitCode)) _ :=
    .exit _ running
  have unbroken : Unbroken past ⟨machine, supervisor, Function.update idle 0 task⟩ (.exit (some restartExitCode))
      ⟨{ machine with child := .exited (some restartExitCode) }, supervisor, idle⟩ := by
    refine ⟨nofun, nofun, fun i marked => ?_⟩
    cases marking i marked
    exact ⟨rfl, next, asked⟩
  exact run.step unbroken step

/-- The supervisor makes its next call while a version is handed over. -/
theorem Remembers.supervised (round : Round) {reply : Except String round.request.Value}
    (run : Remembers formats Unbroken start past ⟨machine, round.program, idle⟩)
    (served : serves round.request machine reply after)
    (resolves : round = .looks → machine.fs.exists_ entrypointAttemptPath = true) :
    Remembers formats Unbroken start (past.next (.supervisor round.request) ⟨after, round.next reply, idle⟩)
      ⟨after, round.next reply, idle⟩ := by
  have step : Step formats ⟨machine, round.program, idle⟩ (.supervisor round.request) _ :=
    Round.step round reply served
  rw [tasksOf_idle] at step
  refine run.step ⟨nofun, nofun, fun i _ => ?_⟩ step
  intro looking
  apply resolves
  cases round with
  | looks => rfl
  | checks =>
    have same := Request.exists_.inj looking
    revert same
    decide
  | _ => cases looking

theorem Remembers.takesOver (outside : Outside) (round : Round) {reply : Except String round.request.Value}
    (run : Remembers formats Unbroken start past ⟨machine, round.program, idle⟩)
    (answer : machine.answer outside round.request = some (reply, after))
    (resolves : round = .looks → machine.fs.exists_ entrypointAttemptPath = true) :
    Remembers formats Unbroken start (past.next (.supervisor round.request) ⟨after, round.next reply, idle⟩)
      ⟨after, round.next reply, idle⟩ :=
  run.supervised round (Machine.answer_serves answer) resolves

theorem Remembers.reaps {code : Option Int} {round : Round} (waiting : round = .watches ∨ round = .waits)
    (run : Remembers formats Unbroken start past ⟨machine, round.program, idle⟩) (gone : machine.child = .exited code) :
    Remembers formats Unbroken start past ⟨{ machine with child := .none }, Program.done (.ok (afterExit code)), idle⟩ := by
  rcases waiting with rfl | rfl
  · have served : serves .waitTimeout machine (.ok (some code)) { machine with child := .none } := ⟨rfl, gone, rfl⟩
    exact run.supervised .watches served nofun
  · have served : serves .wait machine (.ok code) { machine with child := .none } := ⟨rfl, gone, rfl⟩
    exact run.supervised .waits served nofun

end

end Pos2.Loader
