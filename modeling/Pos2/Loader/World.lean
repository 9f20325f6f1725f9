import Pos2.Loader.Update

/-! One supervisor and the apps it spawns, over a disk that outlives them. The
container may be killed between any two calls, and is then started again. -/

namespace Pos2.Loader
open Calls

/-- The supervisor, and what the running app does at once. -/
structure World where
  machine : Machine
  supervisor : Loads Verdict
  tasks : Nat → Loads Unit

/-- Nothing to do. -/
def idle : Nat → Loads Unit := fun _ => Program.done (.ok ())

/-- What an app may call at any time, any number of times. -/
inductive Starts (formats : Formats) (self : Process) : Loads Unit → Prop where
  | markReady : Starts formats self (markReady formats self)
  | updateRound (reference : Text) : Starts formats self (updateRound formats self reference)

/-- What happens in a step. -/
inductive Event where
  | supervisor (request : Request)
  | round
  | task (i : Nat) (request : Request)
  | start (i : Nat)
  | exit (code : Option Int)
  | arrives
  | restart

/-- The tasks of a process end with it. -/
def tasksOf (child : Child) (tasks : Nat → Loads Unit) : Nat → Loads Unit :=
  match child with
  | .running _ => tasks
  | _ => idle

inductive Step (formats : Formats) : World → Event → World → Prop where
  | supervisor {machine after : Machine} {tasks : Nat → Loads Unit} {request : Request}
      {next : Except String request.Value → Loads Verdict}
      (reply : Except String request.Value) (served : serves request machine reply after) :
      Step formats ⟨machine, Program.call request next, tasks⟩ (.supervisor request)
        ⟨after, next reply, tasksOf after.child tasks⟩
  | round {machine : Machine} {tasks : Nat → Loads Unit} :
      Step formats ⟨machine, Program.done (.ok .again), tasks⟩ .round ⟨machine, superviseRound, tasks⟩
  | task {machine after : Machine} {supervisor : Loads Verdict} {tasks : Nat → Loads Unit} {process : Process}
      {request : Request} {next : Except String request.Value → Loads Unit} (i : Nat)
      (reply : Except String request.Value) (alive : machine.child = .running process)
      (waiting : tasks i = Program.call request next) (served : serves request machine reply after) :
      Step formats ⟨machine, supervisor, tasks⟩ (.task i request)
        ⟨after, supervisor, Function.update tasks i (next reply)⟩
  | start {machine : Machine} {supervisor : Loads Verdict} {tasks : Nat → Loads Unit} {process : Process}
      {result : Except String Unit} {task : Loads Unit} (i : Nat)
      (alive : machine.child = .running process) (ended : tasks i = Program.done result)
      (starts : Starts formats process task) :
      Step formats ⟨machine, supervisor, tasks⟩ (.start i) ⟨machine, supervisor, Function.update tasks i task⟩
  /-- The app exits: of itself, by `exit` in one of its tasks, or on a signal. -/
  | exit {machine : Machine} {supervisor : Loads Verdict} {tasks : Nat → Loads Unit} {process : Process}
      (code : Option Int) (alive : machine.child = .running process) :
      Step formats ⟨machine, supervisor, tasks⟩ (.exit code)
        ⟨{ machine with child := .exited code }, supervisor, idle⟩
  /-- A write goes on behind the back of its writer. -/
  | arrives {machine : Machine} {supervisor : Loads Verdict} {tasks : Nat → Loads Unit} {fs : Fs}
      (arrived : machine.fs.Arrives fs) :
      Step formats ⟨machine, supervisor, tasks⟩ .arrives ⟨{ machine with fs }, supervisor, tasks⟩
  /-- The container is killed and started again. -/
  | restart {machine : Machine} {supervisor : Loads Verdict} {tasks : Nat → Loads Unit} :
      Step formats ⟨machine, supervisor, tasks⟩ .restart
        ⟨{ machine with child := .none }, startSupervisor formats, idle⟩

def World.initial (formats : Formats) (disk : Fs) : World := ⟨⟨disk, .none⟩, startSupervisor formats, idle⟩

/-- Some step, of which the event and the worlds around it may be told. -/
def Moves (formats : Formats) (allowed : World → Event → World → Prop) (before after : World) : Prop :=
  ∃ event, Step formats before event after ∧ allowed before event after

abbrev Runs (formats : Formats) (allowed : World → Event → World → Prop) : World → World → Prop :=
  Relation.ReflTransGen (Moves formats allowed)

/-- A disk that no loader has been on. -/
def Fresh (disk : Fs) : Prop := ∀ path, dockerloaderDir <+: path → disk path = none

def World.Reachable (formats : Formats) (world : World) : Prop :=
  ∃ disk, Fresh disk ∧ Runs formats (fun _ _ _ => True) (.initial formats disk) world

end Pos2.Loader
