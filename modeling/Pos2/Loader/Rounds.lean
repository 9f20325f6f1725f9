import Pos2.Loader.Rollback

/-! The rounds of the supervisor as a machine: where it is in a round, and what
one call does from there. -/

namespace Pos2.Loader
open Calls

/-- Where the supervisor is once it has come to its loop. -/
inductive Round where
  | looks
  | takes
  | spawnsTrial
  | spawns
  | watches
  | checks
  | aborts
  | waits
  deriving DecidableEq

def timeoutError : String := "DOCKERLOADER_TRIAL timeout hit, aborting"

def awaitExit : Loads Verdict := do return afterExit (← ask .wait)

def abortTrial : Loads Verdict := do
  let _ ← (ask .kill).attempt
  .fail timeoutError

def checkTrial : Loads Verdict := do
  if ← ask (.exists_ entrypointAttemptingPath) then abortTrial else awaitExit

def spawnTrial : Loads Verdict := do
  ask (.spawn entrypointAttemptingPath true)
  watchTrial

def spawnEntrypoint : Loads Verdict := do
  ask (.spawn entrypointPath false)
  awaitExit

def takeAttempt : Loads Verdict := do
  ask (.rename entrypointAttemptPath entrypointAttemptingPath)
  spawnTrial

def Round.program : Round → Loads Verdict
  | .looks => superviseRound
  | .takes => takeAttempt
  | .spawnsTrial => spawnTrial
  | .spawns => spawnEntrypoint
  | .watches => watchTrial
  | .checks => checkTrial
  | .aborts => abortTrial
  | .waits => awaitExit

/-- There is a child, or was one that is not reaped. -/
def Round.hasChild : Round → Bool
  | .watches | .checks | .aborts | .waits => true
  | _ => false

/-- The process that a link makes the supervisor spawn. -/
def Spawned (fs : Fs) (path : Path) (trial : Bool) (app : Process) : Prop :=
  app.trial = trial ∧ fs path = some (.link (.absolute app.program)) ∧ fs.follow path = some app.exe ∧
    ∃ content, fs app.exe = some (.file content)

/-- What one call of the supervisor does. -/
inductive Transition : Round → Machine → Loads Verdict → Machine → Prop where
  | fails {round : Round} {machine : Machine} (error : String) (other : round ≠ .aborts) :
      Transition round machine (.fail error) machine
  | finds {machine : Machine} (pending : machine.fs.exists_ entrypointAttemptPath = true) :
      Transition .looks machine Round.takes.program machine
  | findsNone {machine : Machine} (pending : machine.fs.exists_ entrypointAttemptPath = false) :
      Transition .looks machine Round.spawns.program machine
  | takes {machine : Machine} {fs : Fs}
      (renamed : machine.fs.rename entrypointAttemptPath entrypointAttemptingPath fs) :
      Transition .takes machine Round.spawnsTrial.program { machine with fs }
  | spawnsTrial {machine : Machine} {app : Process} (spawned : Spawned machine.fs entrypointAttemptingPath true app) :
      Transition .spawnsTrial machine Round.watches.program { machine with child := .running app }
  | spawns {machine : Machine} {app : Process} (spawned : Spawned machine.fs entrypointPath false app) :
      Transition .spawns machine Round.waits.program { machine with child := .running app }
  | reaps {round : Round} {machine : Machine} {code : Option Int} (waiting : round = .watches ∨ round = .waits)
      (exited : machine.child = .exited code) :
      Transition round machine (Program.done (.ok (afterExit code))) { machine with child := .none }
  | timesOut {machine : Machine} : Transition .watches machine Round.checks.program machine
  | stands {machine : Machine} (there : machine.fs.exists_ entrypointAttemptingPath = true) :
      Transition .checks machine Round.aborts.program machine
  | gone {machine : Machine} (gone : machine.fs.exists_ entrypointAttemptingPath = false) :
      Transition .checks machine Round.waits.program machine
  | kills {machine : Machine} : Transition .aborts machine (.fail timeoutError) { machine with child := .none }
  | killFails {machine : Machine} : Transition .aborts machine (.fail timeoutError) machine

/-- The call that a round waits for, and what follows on its reply. -/
def Round.request : Round → Request
  | .looks => .exists_ entrypointAttemptPath
  | .takes => .rename entrypointAttemptPath entrypointAttemptingPath
  | .spawnsTrial => .spawn entrypointAttemptingPath true
  | .spawns => .spawn entrypointPath false
  | .watches => .waitTimeout
  | .checks => .exists_ entrypointAttemptingPath
  | .aborts => .kill
  | .waits => .wait

def Round.next : (round : Round) → Except String round.request.Value → Loads Verdict
  | .looks, .ok true => takeAttempt
  | .looks, .ok false => spawnEntrypoint
  | .takes, .ok _ => spawnTrial
  | .spawnsTrial, .ok _ => watchTrial
  | .spawns, .ok _ => awaitExit
  | .watches, .ok (some status) => Program.done (.ok (afterExit status))
  | .watches, .ok none => checkTrial
  | .checks, .ok true => abortTrial
  | .checks, .ok false => awaitExit
  | .waits, .ok status => Program.done (.ok (afterExit status))
  | .aborts, _ => .fail timeoutError
  | .looks, .error error | .takes, .error error | .spawnsTrial, .error error | .spawns, .error error
  | .watches, .error error | .checks, .error error | .waits, .error error => .fail error

theorem Round.program_call (round : Round) : round.program = Program.call round.request round.next := by
  cases round with
  | looks =>
    refine congrArg (Program.call _) (funext fun reply => ?_)
    match reply with
    | .ok true => exact congrArg (Program.call _) (funext fun reply => by cases reply <;> rfl)
    | .ok false => rfl
    | .error error => rfl
  | checks =>
    refine congrArg (Program.call _) (funext fun reply => ?_)
    match reply with
    | .ok true => rfl
    | .ok false => rfl
    | .error error => rfl
  | watches =>
    refine congrArg (Program.call _) (funext fun reply => ?_)
    match reply with
    | .ok none => rfl
    | .ok (some status) => rfl
    | .error error => rfl
  | _ => exact congrArg (Program.call _) (funext fun reply => by cases reply <;> rfl)

theorem spawned {path : Path} {trial : Bool} {before after : Machine} (linked : Linked before.fs)
    (switch : path ∈ switches) (served : serves (.spawn path trial) before (.ok ()) after) :
    ∃ app, Spawned before.fs path trial app ∧ after = { before with child := .running app } := by
  obtain ⟨disk, exe, content, follow, file, child⟩ := served
  have link : ∃ sha, before.fs path = some (.link (.absolute (entrypointOf sha))) := by
    cases found : before.fs path with
    | none =>
      rw [Fs.follow_plain (by simp [found]), Option.some_inj] at follow
      rw [← follow, found] at file
      cases file
    | some node =>
      obtain ⟨sha, rfl⟩ := linked.links path switch node found
      exact ⟨sha, rfl⟩
  obtain ⟨sha, link⟩ := link
  rw [link] at child
  refine ⟨⟨trial, entrypointOf sha, exe⟩, ⟨rfl, link, follow, content, file⟩, ?_⟩
  obtain ⟨fs, _⟩ := after
  cases disk
  cases child
  rfl

theorem Round.transition (round : Round) {before after : Machine} {reply : Except String round.request.Value}
    (linked : Linked before.fs) (served : serves round.request before reply after) :
    Transition round before (round.next reply) after := by
  obtain ⟨fs, child⟩ := after
  cases reply with
  | error error =>
    cases round with
    | aborts =>
      obtain ⟨disk, same⟩ := served
      cases disk
      cases same
      exact .killFails
    | _ =>
      obtain ⟨disk, same⟩ := served
      cases disk
      cases same
      exact .fails error nofun
  | ok value =>
    cases round with
    | looks =>
      obtain ⟨⟨looked, disk⟩, same⟩ := served
      cases disk
      cases same
      cases value with
      | true => exact .finds looked.symm
      | false => exact .findsNone looked.symm
    | checks =>
      obtain ⟨⟨looked, disk⟩, same⟩ := served
      cases disk
      cases same
      cases value with
      | true => exact .stands looked.symm
      | false => exact .gone looked.symm
    | takes =>
      obtain ⟨renamed, same⟩ := served
      cases same
      exact .takes renamed
    | spawnsTrial =>
      obtain ⟨app, spawned, after⟩ := spawned linked (by decide) served
      cases after
      exact .spawnsTrial spawned
    | spawns =>
      obtain ⟨app, spawned, after⟩ := spawned linked (by decide) served
      cases after
      exact .spawns spawned
    | watches =>
      cases value with
      | none =>
        obtain ⟨disk, same⟩ := served
        cases disk
        cases same
        exact .timesOut
      | some code =>
        obtain ⟨disk, exited, gone⟩ := served
        cases disk
        cases gone
        exact .reaps (.inl rfl) exited
    | aborts =>
      obtain ⟨disk, gone⟩ := served
      cases disk
      cases gone
      exact .kills
    | waits =>
      obtain ⟨disk, exited, gone⟩ := served
      cases disk
      cases gone
      exact .reaps (.inr rfl) exited

section
variable {formats : Formats} {world after : World}

theorem Step.transition {request : Request} {round : Round} (step : Step formats world (.supervisor request) after)
    (linked : Linked world.machine.fs) (here : world.supervisor = round.program) :
    request = round.request ∧ Transition round world.machine after.supervisor after.machine ∧
      after.tasks = tasksOf after.machine.child world.tasks := by
  cases step with
  | supervisor reply served =>
    rw [round.program_call] at here
    cases here
    exact ⟨rfl, round.transition linked served, rfl⟩

theorem Round.step (round : Round) {machine after : Machine} {tasks : Nat → Loads Unit}
    (reply : Except String round.request.Value) (served : serves round.request machine reply after) :
    Step formats ⟨machine, round.program, tasks⟩ (.supervisor round.request)
      ⟨after, round.next reply, tasksOf after.child tasks⟩ := by
  rw [round.program_call]
  exact .supervisor reply served

/-- Where the supervisor is, and whether it has a child there. -/
inductive Phase (supervisor : Loads Verdict) (machine : Machine) : Prop where
  | prepares (uses : supervisor.Uses Prepares fun _ => True) (quiet : machine.child = .none)
  | loops (round : Round) (here : supervisor = round.program) (matching : round.hasChild = true ↔ machine.child ≠ .none)
  | ended (verdict : Except String Verdict) (here : supervisor = Program.done verdict)
      (again : verdict = .ok .again → machine.child = .none)

theorem Transition.phase {round : Round} {before after : Machine} {supervisor : Loads Verdict}
    (transition : Transition round before supervisor after)
    (matching : round.hasChild = true ↔ before.child ≠ .none) : Phase supervisor after := by
  cases transition with
  | fails error => exact .ended (.error error) rfl nofun
  | finds | findsNone | takes | timesOut | stands | gone => exact .loops _ rfl matching
  | spawnsTrial | spawns => exact .loops _ rfl ⟨fun _ => nofun, fun _ => rfl⟩
  | reaps => exact .ended _ rfl fun _ => rfl
  | kills | killFails => exact .ended (.error timeoutError) rfl nofun

/-- What the app does is no change to the supervisor. -/
theorem Phase.app {supervisor : Loads Verdict} {before after : Machine} (phase : Phase supervisor before)
    (was : before.child ≠ .none) (still : after.child ≠ .none) : Phase supervisor after := by
  cases phase with
  | prepares uses quiet => exact (was quiet).elim
  | loops round here matching => exact .loops round here ⟨fun _ => still, fun _ => matching.mpr was⟩
  | ended verdict here again => exact .ended verdict here fun ends => (was (again ends)).elim

theorem Phase.disk {supervisor : Loads Verdict} {before after : Machine} (phase : Phase supervisor before)
    (child : after.child = before.child) : Phase supervisor after := by
  cases phase with
  | prepares uses quiet => exact .prepares uses (child.trans quiet)
  | loops round here matching => exact .loops round here (child ▸ matching)
  | ended verdict here again => exact .ended verdict here fun ends => child.trans (again ends)

theorem Phase.step {event : Event} (holds : world.Holds) (phase : Phase world.supervisor world.machine)
    (step : Step formats world event after) : Phase after.supervisor after.machine := by
  have whole := step
  cases step with
  | supervisor reply served =>
    cases phase with
    | prepares uses quiet => exact .prepares (uses.2 reply) (uses.1.supervises holds.valid quiet served).2
    | loops round here matching =>
      exact (whole.transition holds.valid.linked here).2.1.phase matching
    | ended verdict here => cases here
  | round =>
    cases phase with
    | prepares uses quiet => exact .loops .looks rfl ⟨nofun, fun busy => (busy quiet).elim⟩
    | loops round here =>
      rw [round.program_call] at here
      cases here
    | ended verdict here again =>
      cases here
      exact .loops .looks rfl ⟨nofun, fun busy => (busy (again rfl)).elim⟩
  | @task machine after supervisor tasks app request next i reply alive waiting served =>
    have uses := holds.tasks app alive i
    dsimp only at uses
    rw [waiting] at uses
    have same := (uses.1.step holds.valid alive served).child
    exact phase.app (by simp [alive]) (by simp [same, alive])
  | start i alive => exact phase
  | exit code alive => exact phase.app (by simp [alive]) nofun
  | arrives => exact phase.disk rfl
  | restart => exact .prepares startSupervisor_prepares rfl

theorem World.Reachable.phase (reachable : world.Reachable formats) :
    world.Holds ∧ Phase world.supervisor world.machine := by
  obtain ⟨disk, fresh, run⟩ := reachable
  induction run with
  | refl => exact ⟨World.initial_holds fresh, .prepares startSupervisor_prepares rfl⟩
  | tail _ move before =>
    obtain ⟨event, step, _⟩ := move
    exact ⟨before.1.step step, before.2.step before.1 step⟩

end
end Pos2.Loader
