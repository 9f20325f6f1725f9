import Pos2.Loader.World

/-! A machine that answers what it can by itself: nothing fails without a cause,
directories cannot be listed, and nobody returns from waiting or exiting. A thread
of the world can be run against it until it waits. -/

namespace Pos2.Loader
open Calls

/-- What is outside the machine. -/
structure Outside where
  vars : String → Option Text
  manifests : Reference → Option (Manifest × Text)
  blobs : Text → Option Text
  uuid : Text

namespace Machine

def reply {α : Type} (machine : Machine) : Option α → Except String α × Machine
  | some value => (.ok value, machine)
  | none => (.error "failed", machine)

def write (machine : Machine) : Option Fs → Except String Unit × Machine
  | some fs => (.ok (), { machine with fs })
  | none => (.error "failed", machine)

/-- A rename of a file or a link to a free name, or over a file or a link, or of a
directory to a free name. -/
def renamed (fs : Fs) (source target : Path) : Option Fs :=
  if source = target ∨ source <+: target ∨ !fs.hasParent target then none else
  match fs source, fs target with
  | none, _ => none
  | some .dir, some _ => none
  | some _, some .dir => none
  | some _, _ => some (fs.move source target)

def answer (outside : Outside) : (request : Request) → Machine → Option (Except String request.Value × Machine)
  | .exists_ path, machine => some (.ok (machine.fs.exists_ path), machine)
  | .createDir path, machine => some (machine.write (machine.fs.createDir path))
  | .create path, machine => some (machine.write (machine.fs.create path))
  | .write path text, machine =>
    if machine.fs.fills path then none else some (.ok text.length, { machine with fs := machine.fs.write path text [] })
  | .writeAll path text, machine => some (.ok (), { machine with fs := machine.fs.append path text })
  | .readToString path, machine => some (machine.reply (machine.fs.readToString path))
  | .isDir path, machine => some (machine.reply ((machine.fs path).map fun node => decide (node = .dir)))
  | .symlink target path, machine => some (machine.write (machine.fs.symlink target path))
  | .rename source target, machine => some (machine.write (renamed machine.fs source target))
  | .removeFile path, machine => some <| machine.write <|
      match machine.fs path with
      | some (.file _) | some (.link _) => some (Function.update machine.fs path none)
      | _ => none
  | .unpack path entry, machine => some (.ok (), { machine with fs := machine.fs.unpack path entry })
  | .readDir _, machine => some (machine.reply none)
  | .tree _, machine => some (machine.reply none)
  | .remove _, machine => some (machine.reply none)
  | .uuid, machine => some (.ok outside.uuid, machine)
  | .var name, machine => some (machine.reply (outside.vars name))
  | .pullManifest reference, machine => some (machine.reply (outside.manifests reference))
  | .pullBlob _ digest, machine => some (machine.reply (outside.blobs digest))
  | .pullBlobStream _ digest, machine =>
    some (machine.reply ((outside.blobs digest).map fun blob => [.ok blob]))
  | .spawn path trial, machine =>
    match machine.fs.follow path with
    | none => some (.error "failed", machine)
    | some exe =>
      match machine.fs exe with
      | some (.file _) => some (.ok (), { machine with child := .running ⟨trial,
          match machine.fs path with | some (.link target) => target.from path | _ => path, exe⟩ })
      | _ => some (.error "failed", machine)
  | .wait, _ | .waitTimeout, _ | .kill, _ | .exit _, _ => none

/-- The same up to certain calls. -/
def answerUntil (stops : Request → Bool) (outside : Outside) (request : Request) (machine : Machine) :
    Option (Except String request.Value × Machine) :=
  if stops request then none else machine.answer outside request

variable {outside : Outside} {before after : Machine}

theorem answerUntil_some {stops : Request → Bool} {request : Request} {answered : Except String request.Value × Machine}
    (same : before.answerUntil stops outside request = some answered) :
    stops request = false ∧ before.answer outside request = some answered := by
  unfold answerUntil at same
  cases stopped : stops request with
  | true =>
    rw [stopped] at same
    cases same
  | false =>
    rw [stopped] at same
    exact ⟨rfl, same⟩

private theorem renamed_rename {fs moved : Fs} {source target : Path} (same : renamed fs source target = some moved) :
    fs.rename source target moved := by
  unfold renamed at same
  split at same
  next => cases same
  next apart =>
    simp only [Bool.not_eq_true', not_or, Bool.not_eq_false] at apart
    rw [Fs.rename, if_neg apart.1]
    cases there : fs source with
    | none =>
      rw [there] at same
      cases same
    | some node =>
      cases here : fs target with
      | none =>
        rw [there, here] at same
        cases node <;> cases same <;> exact ⟨rfl, apart.2.2, apart.2.1, trivial⟩
      | some other =>
        rw [there, here] at same
        cases node <;> cases other <;> cases same <;> exact ⟨rfl, apart.2.2, apart.2.1, trivial⟩

theorem answer_serves {request : Request} {answered : Except String request.Value}
    (same : before.answer outside request = some (answered, after)) :
    serves request before answered after := by
  cases request with
  | exists_ path =>
    cases same
    exact ⟨⟨rfl, rfl⟩, rfl⟩
  | createDir path | create path | symlink target path =>
    simp only [answer, write, Option.some_inj] at same
    split at same
    next made =>
      cases same
      exact ⟨made, rfl⟩
    next =>
      cases same
      exact ⟨rfl, rfl⟩
  | rename source target =>
    simp only [answer, write, Option.some_inj] at same
    split at same
    next made =>
      cases same
      exact ⟨renamed_rename made, rfl⟩
    next =>
      cases same
      exact ⟨rfl, rfl⟩
  | removeFile path =>
    simp only [answer, write, Option.some_inj] at same
    split at same
    next removed =>
      cases same
      split at removed
      · cases removed
        next found => exact ⟨⟨by simp [found], by simp [found], by simp [found], rfl⟩, rfl⟩
      · cases removed
        next found => exact ⟨⟨by simp [found], by simp [found], by simp [found], rfl⟩, rfl⟩
      · cases removed
    next =>
      cases same
      exact ⟨rfl, rfl⟩
  | write path text =>
    simp only [answer] at same
    split at same
    next => cases same
    next fills =>
      cases same
      refine ⟨⟨Bool.eq_false_iff.mpr fills, Nat.le_refl _, List.length_pos_iff.mpr, text, [], ?_, rfl⟩, rfl⟩
      rw [List.take_length, List.append_nil]
  | writeAll path text | unpack path entry =>
    cases same
    exact ⟨rfl, rfl⟩
  | readToString path =>
    simp only [answer, reply, Option.some_inj] at same
    split at same
    next read =>
      cases same
      exact ⟨⟨read, rfl⟩, rfl⟩
    next =>
      cases same
      exact ⟨rfl, rfl⟩
  | isDir path =>
    simp only [answer, reply, Option.some_inj] at same
    split at same
    next looked =>
      cases same
      obtain ⟨node, found, rfl⟩ := Option.map_eq_some_iff.mp looked
      exact ⟨⟨by simp [found], by simp [found], rfl⟩, rfl⟩
    next =>
      cases same
      exact ⟨rfl, rfl⟩
  | var name | pullManifest reference | pullBlob reference digest | pullBlobStream reference digest =>
    simp only [answer, reply, Option.some_inj] at same
    split at same <;> cases same <;> exact ⟨rfl, rfl⟩
  | readDir path | tree path | remove path =>
    cases same
    exact ⟨rfl, rfl⟩
  | uuid =>
    cases same
    exact ⟨rfl, rfl⟩
  | spawn path trial =>
    simp only [answer] at same
    split at same
    next =>
      cases same
      exact ⟨rfl, rfl⟩
    next exe follow =>
      split at same
      next content file =>
        cases same
        exact ⟨rfl, exe, content, follow, file, rfl⟩
      next =>
        cases same
        exact ⟨rfl, rfl⟩
  | wait | waitTimeout | kill | exit code => cases same

/-- An answer takes no running child away. -/
theorem answer_running {request : Request} {answered : Except String request.Value} {app : Process}
    (running : before.child = .running app) (same : before.answer outside request = some (answered, after)) :
    ∃ other, after.child = .running other := by
  have served := answer_serves same
  cases answered with
  | error error => exact ⟨app, served.2.trans running⟩
  | ok value =>
    cases request with
    | spawn path trial =>
      obtain ⟨exe, content, _, _, child⟩ := served.2
      exact ⟨_, child⟩
    | wait | waitTimeout | kill | exit code => cases same
    | _ => exact ⟨app, Eq.trans served.2 running⟩

end Machine

variable {formats : Formats} {start : World} {machine : Machine}
  {supervisor : Loads Verdict}

theorem tasksOf_idle (child : Child) : tasksOf child idle = idle := by
  cases child <;> rfl

/-- A call that is not one of certain ones. -/
def Event.Passes (stops : Request → Bool) : Event → Prop
  | .task _ request | .supervisor request => stops request = false
  | _ => False

/-- What all calls keep but certain ones. -/
def Carried (formats : Formats) (stops : Request → Bool) (holds : World → Prop) : Prop :=
  ∀ before event after, holds before → event.Passes stops → Step formats before event after → holds after

section
variable {stops : Request → Bool} {holds : World → Prop}

/-- The supervisor goes on, with no app at work, until it waits or comes to a certain call. -/
theorem Carried.supervise (carried : Carried formats stops holds) (outside : Outside) (here : holds ⟨machine, supervisor, idle⟩) :
    holds ⟨(Program.advance (Machine.answerUntil stops outside) supervisor machine).2,
      (Program.advance (Machine.answerUntil stops outside) supervisor machine).1, idle⟩ := by
  induction supervisor generalizing machine with
  | done result => exact here
  | call request next ih =>
    unfold Program.advance
    cases same : machine.answerUntil stops outside request with
    | none => exact here
    | some answered =>
      obtain ⟨reply, after⟩ := answered
      obtain ⟨passes, same⟩ := Machine.answerUntil_some same
      have supervised : Event.Passes stops (.supervisor request) := passes
      have stepped := carried _ _ _ here supervised (.supervisor reply (Machine.answer_serves same))
      rw [tasksOf_idle] at stepped
      exact ih reply stepped

/-- A task of the running app goes on until it waits or comes to a certain call. -/
theorem Carried.task (carried : Carried formats stops holds) (outside : Outside) (i : Nat) {tasks : Nat → Loads Unit}
    {app : Process} (here : holds ⟨machine, supervisor, tasks⟩) (running : machine.child = .running app) :
    holds ⟨(Program.advance (Machine.answerUntil stops outside) (tasks i) machine).2, supervisor,
      Function.update tasks i (Program.advance (Machine.answerUntil stops outside) (tasks i) machine).1⟩ := by
  generalize waiting : tasks i = task
  induction task generalizing machine tasks app with
  | done result =>
    rw [Program.advance, ← waiting, Function.update_eq_self]
    exact here
  | call request next ih =>
    unfold Program.advance
    cases same : machine.answerUntil stops outside request with
    | none =>
      rw [← waiting, Function.update_eq_self]
      exact here
    | some answered =>
      obtain ⟨reply, after⟩ := answered
      obtain ⟨passes, same⟩ := Machine.answerUntil_some same
      obtain ⟨other, running'⟩ := Machine.answer_running running same
      have asked : Event.Passes stops (.task i request) := passes
      have stepped := carried _ _ _ here asked (.task i reply running waiting (Machine.answer_serves same))
      have rest := ih reply stepped running' (Function.update_self ..)
      have once (task : Loads Unit) : Function.update (Function.update tasks i (next reply)) i task =
          Function.update tasks i task := Function.update_idem ..
      exact once _ ▸ rest

/-- The only task of an app goes on. -/
theorem Carried.asks (carried : Carried formats stops holds) (outside : Outside) {task : Loads Unit} {app : Process}
    (here : holds ⟨machine, supervisor, Function.update idle 0 task⟩) (running : machine.child = .running app) :
    holds ⟨(Program.advance (Machine.answerUntil stops outside) task machine).2, supervisor,
      Function.update idle 0 (Program.advance (Machine.answerUntil stops outside) task machine).1⟩ := by
  have goes := carried.task outside 0 here running
  have once (task' : Loads Unit) : Function.update (Function.update idle 0 task) 0 task' = Function.update idle 0 task' :=
    Function.update_idem ..
  rw [Function.update_self] at goes
  exact once _ ▸ goes

end

/-- Runs in which anything may happen. -/
abbrev FreeRuns (formats : Formats) : World → World → Prop := Runs formats fun _ _ _ => True

theorem FreeRuns.step {world after : World} {event : Event} (run : FreeRuns formats start world)
    (step : Step formats world event after) : FreeRuns formats start after :=
  .tail run ⟨event, step, trivial⟩

theorem FreeRuns.carried (stops : Request → Bool) : Carried formats stops (FreeRuns formats start) :=
  fun _ _ _ run _ step => run.step step

/-- The supervisor goes on, with no app at work, until it waits. -/
theorem FreeRuns.supervise (outside : Outside) (run : FreeRuns formats start ⟨machine, supervisor, idle⟩) :
    FreeRuns formats start ⟨(Program.advance (Machine.answer outside) supervisor machine).2,
      (Program.advance (Machine.answer outside) supervisor machine).1, idle⟩ :=
  (FreeRuns.carried fun _ => false).supervise outside run

/-- The supervisor learns how its child has exited. -/
theorem FreeRuns.reaped {tasks : Nat → Loads Unit} {code : Option Int} {next : Except String (Option Int) → Loads Verdict}
    (run : FreeRuns formats start ⟨machine, supervisor, tasks⟩) (waiting : supervisor = Program.call Request.wait next)
    (gone : machine.child = .exited code) :
    FreeRuns formats start ⟨{ machine with child := .none }, next (.ok code), idle⟩ := by
  subst waiting
  have served : serves .wait machine (.ok code) { machine with child := .none } := ⟨rfl, gone, rfl⟩
  exact run.step (@Step.supervisor formats machine { machine with child := .none } tasks .wait next (.ok code) served)

theorem FreeRuns.taskUntil (stops : Request → Bool) (outside : Outside) (i : Nat) {tasks : Nat → Loads Unit}
    {app : Process} (run : FreeRuns formats start ⟨machine, supervisor, tasks⟩) (running : machine.child = .running app) :
    FreeRuns formats start ⟨(Program.advance (Machine.answerUntil stops outside) (tasks i) machine).2, supervisor,
      Function.update tasks i (Program.advance (Machine.answerUntil stops outside) (tasks i) machine).1⟩ :=
  (FreeRuns.carried stops).task outside i run running

theorem FreeRuns.task (outside : Outside) (i : Nat) {tasks : Nat → Loads Unit} {app : Process}
    (run : FreeRuns formats start ⟨machine, supervisor, tasks⟩) (running : machine.child = .running app) :
    FreeRuns formats start ⟨(Program.advance (Machine.answer outside) (tasks i) machine).2, supervisor,
      Function.update tasks i (Program.advance (Machine.answer outside) (tasks i) machine).1⟩ :=
  run.taskUntil (fun _ => false) outside i running

/-- Formats in which every image has one layer, with an entrypoint in it. -/
def oneLayer : Formats where
  parseReference text := .ok ⟨text, none⟩
  toJson _ := []
  readImage _ := .ok ⟨"c".toList, ["l".toList]⟩
  readManifest _ := .error "no manifest"
  entries _ := ([⟨"entrypoint".toList, [], .file [], Node.empty_whole⟩], .ok ())

/-- A registry at one version. -/
def registry (sha : Text) : Outside where
  vars _ := some "app".toList
  manifests _ := some (.image ⟨"c".toList, ["l".toList]⟩, sha)
  blobs _ := some []
  uuid := "u".toList

/-- A disk with nothing on it but the volume. -/
def volume : Fs := Function.update (fun _ => none) ["data".toList] (some .dir)

theorem volume_fresh : Fresh volume := by
  intro path own
  refine Function.update_of_ne ?_ _ _
  rintro rfl
  revert own
  decide

end Pos2.Loader
