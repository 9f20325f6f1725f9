import Pos2.Loader.Answers
import Pos2.Loader.Supervision

/-! Rollback. The entrypoint changes only when an app on trial commits itself, so
a trial that ends otherwise leaves the version before it in place. -/

namespace Pos2.Loader
open Calls

/-- The machine is in order, the supervisor goes on as it should whatever the app
does, and every task of the app makes calls of an app only. -/
structure World.Holds (world : World) : Prop where
  valid : Valid world.machine
  supervisor : SupervisorFollows world.supervisor world.machine
  tasks : ∀ app, world.machine.child = .running app → ∀ i, (world.tasks i).Uses (Updates app) fun _ => True
  resting : (∀ app, world.machine.child ≠ .running app) → world.tasks = idle

section
variable {formats : Formats} {world after : World} {event : Event}

private theorem idle_uses (app : Process) (i : Nat) : (idle i).Uses (Updates app) fun _ => True :=
  .pure trivial

theorem World.initial_holds {disk : Fs} (fresh : Fresh disk) : (World.initial formats disk).Holds := by
  have linked : Linked disk := by
    refine ⟨?_, ?_, ?_⟩
    · intro path switch node found
      rw [fresh path (switch_own switch)] at found
      cases found
    · intro path target own found
      rw [fresh path own] at found
      cases found
    · intro content coming found
      rw [fresh updateAttemptFile (List.prefix_append _ _)] at found
      cases found
  have valid : Valid ⟨disk, .none⟩ := .childless linked fun _ => nofun
  exact ⟨valid, startSupervisor_follows valid rfl, fun _ => nofun, fun _ => rfl⟩

private theorem update_uses {tasks : Nat → Loads Unit} {task : Loads Unit} {i : Nat} {app : Process}
    (uses : task.Uses (Updates app) fun _ => True) (others : ∀ j, (tasks j).Uses (Updates app) fun _ => True)
    (j : Nat) : (Function.update tasks i task j).Uses (Updates app) fun _ => True := by
  by_cases this : j = i
  · subst this
    rwa [Function.update_self]
  · rw [Function.update_of_ne this]
    exact others j

theorem World.Holds.step (holds : world.Holds) (step : Step formats world event after) :
    after.Holds := by
  have here : Relies world.machine world.machine := .refl holds.valid
  cases step with
  | @supervisor machine after tasks request next reply served =>
    obtain ⟨supervises, follows⟩ := holds.supervisor _ reply after here served
    refine ⟨supervises.valid, follows, ?_, ?_⟩
    · intro app running i
      have running' : after.child = .running app := running
      simp only [running', tasksOf]
      rcases supervises.child app running with before | quiet
      · exact holds.tasks app before i
      · have rest : tasks = idle := holds.resting quiet
        rw [rest]
        exact idle_uses app i
    · intro quiet
      have quiet' : ∀ app, after.child ≠ .running app := quiet
      cases child : after.child with
      | running app => exact (quiet' app child).elim
      | none => simp only [tasksOf]
      | exited code => simp only [tasksOf]
  | @round machine tasks =>
    have quiet : machine.child = .none := holds.supervisor _ here .again rfl rfl
    exact ⟨holds.valid, superviseRound_follows machine quiet, holds.tasks, holds.resting⟩
  | @task machine after supervisor tasks app request next i reply alive waiting served =>
    have uses := holds.tasks app alive i
    dsimp only at uses
    rw [waiting] at uses
    have did := uses.1.step holds.valid alive served
    have valid := did.valid holds.valid
    have relies : Relies machine after := ⟨valid, fun quiet => (quiet app alive).elim⟩
    refine ⟨valid, holds.supervisor.mono Relies.trans relies, ?_, ?_⟩
    · intro other running j
      have same : other = app := by
        rw [did.child, alive] at running
        cases running
        rfl
      subst same
      exact update_uses (uses.2 reply) (holds.tasks other alive) j
    · intro quiet
      exact (quiet app (did.child.trans alive)).elim
  | @start machine supervisor tasks app result task i alive ended starts =>
    refine ⟨holds.valid, holds.supervisor, ?_, fun quiet => (quiet app alive).elim⟩
    intro other running j
    rw [alive] at running
    cases running
    refine update_uses ?_ (holds.tasks app alive) j
    cases starts with
    | markReady => exact markReady_updates
    | updateRound reference => exact updateRound_updates reference
  | @exit machine supervisor tasks app code alive =>
    have valid : Valid { machine with child := .exited code } := .childless holds.valid.linked fun _ => nofun
    have relies : Relies machine { machine with child := .exited code } :=
      ⟨valid, fun quiet => (quiet app alive).elim⟩
    exact ⟨valid, holds.supervisor.mono Relies.trans relies, fun _ => nofun, fun _ => rfl⟩
  | @arrives machine supervisor tasks fs arrived =>
    have lands := arrived.lands
    have valid : Valid { machine with fs } := holds.valid.lands lands
    have relies : Relies machine { machine with fs } := ⟨valid, fun _ => ⟨rfl, lands⟩⟩
    exact ⟨valid, holds.supervisor.mono Relies.trans relies, holds.tasks, holds.resting⟩
  | restart =>
    have valid := holds.valid.reaped
    exact ⟨valid, startSupervisor_follows valid rfl, fun _ => nofun, fun _ => rfl⟩

/-- The rename of `mark_ready`, by a process on trial: the entrypoint becomes the
image that this process runs from. -/
def Commits (before : World) (event : Event) (after : World) : Prop :=
  ∃ i app sha, event = .task i (.rename entrypointAttemptingPath entrypointPath) ∧
    before.machine.child = .running app ∧ app.trial = true ∧ app.program = entrypointOf sha ∧
    Committed app before.machine.fs after.machine.fs

theorem World.Holds.kept (holds : world.Holds) (step : Step formats world event after) {node : Node}
    (found : world.machine.fs entrypointPath = some node) :
    after.machine.fs entrypointPath = some node ∨ Commits world event after := by
  cases step with
  | supervisor reply served =>
    obtain ⟨supervises, _⟩ := holds.supervisor _ reply _ (.refl holds.valid) served
    exact .inl (supervises.kept node found)
  | @task machine after supervisor tasks app request next i reply alive waiting served =>
    have uses := holds.tasks app alive i
    dsimp only at uses
    rw [waiting] at uses
    rcases (uses.1.step holds.valid alive served).entrypoint with same | ⟨rfl, trial, committed⟩
    · exact .inl (same.trans found)
    · obtain ⟨sha, program⟩ := holds.valid.program app alive
      exact .inr ⟨i, app, sha, rfl, alive, trial, program, committed⟩
  | arrives arrived => exact .inl (((holds.valid.linked.lands arrived.lands).links _ (by decide)).trans found)
  | _ => exact .inl found

theorem World.Holds.run {allowed : World → Event → World → Prop} (holds : world.Holds)
    (run : Runs formats allowed world after) : after.Holds := by
  induction run with
  | refl => exact holds
  | tail _ move ih =>
    obtain ⟨event, step, _⟩ := move
    exact ih.step step

/-- A run without a commit leaves the entrypoint as it is. -/
theorem World.Holds.kept_run (holds : world.Holds)
    (run : Runs formats (fun before event after => ¬ Commits before event after) world after) {node : Node}
    (found : world.machine.fs entrypointPath = some node) : after.machine.fs entrypointPath = some node := by
  induction run with
  | refl => exact found
  | tail earlier move ih =>
    obtain ⟨event, step, uncommitted⟩ := move
    rcases (holds.run earlier).kept step ih with same | commits
    · exact same
    · exact (uncommitted commits).elim

/-- Whatever happens, the entrypoint once it is there changes only by a commit. As
long as there is none it stays, and a version that is spawned without a pending
attempt is the one it names. -/
theorem entrypoint_rollback (reachable : world.Reachable formats) :
    (∀ event after, Step formats world event after → ∀ node, world.machine.fs entrypointPath = some node →
      after.machine.fs entrypointPath = some node ∨ Commits world event after) ∧
    ∀ after, Runs formats (fun before event after => ¬ Commits before event after) world after →
      ∀ node, world.machine.fs entrypointPath = some node →
        after.machine.fs entrypointPath = some node ∧
        ∀ path last app, Step formats after (.supervisor (.spawn path false)) last →
          last.machine.child = .running app →
          after.machine.fs.exists_ entrypointAttemptPath = false ∧ node = .link (.absolute app.program) := by
  obtain ⟨disk, fresh, run⟩ := reachable
  have holds : world.Holds := (World.initial_holds fresh).run run
  clear run
  refine ⟨?_, ?_⟩
  · intro event after step node found
    exact holds.kept step found
  · intro after run node found
    have same := holds.kept_run run found
    have later := holds.run run
    refine ⟨same, ?_⟩
    intro path last app step running
    cases step with
    | supervisor reply served =>
      obtain ⟨supervises, _⟩ := later.supervisor _ reply _ (.refl later.valid) served
      obtain ⟨absent, link⟩ := supervises.spawned path rfl
      refine ⟨absent, ?_⟩
      have named := link app running
      rw [same] at named
      exact Option.some.inj named

end

/-- The first version has found an update, the second one is on trial, and as long
as it does not commit the entrypoint stays. -/
theorem entrypoint_rollback_on_trial : ∃ world : World,
    world.machine.child = .running ⟨true, entrypointOf "v2".toList, entrypointOf "v2".toList⟩ ∧
    ∀ after, Runs oneLayer (fun before event after => ¬ Commits before event after) world after →
      after.machine.fs entrypointPath = some (.link (.absolute (entrypointOf "v1".toList))) := by
  have start : FreeRuns oneLayer (.initial oneLayer volume) _ := .refl
  have looping := (start.supervise (registry "v1".toList)).step .round
  have running := looping.supervise (registry "v1".toList)
  have started := running.step (.start 0 rfl rfl .markReady)
  have updated := started.task (registry "v2".toList) 0 rfl
  have exited := (updated.step (.exit (some 42) rfl)).reaped rfl rfl
  have trial := (exited.step .round).supervise (registry "v2".toList)
  have reachable : World.Reachable oneLayer _ := ⟨volume, volume_fresh, trial⟩
  refine ⟨_, ?_, fun after run => ((entrypoint_rollback reachable).2 after run _ ?_).1⟩
  · rfl
  · rfl

end Pos2.Loader
