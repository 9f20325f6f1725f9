import Mathlib.Data.List.Nodup
import Mathlib.Logic.Function.Basic
import Mathlib.Logic.Relation

/-! The worker of `wasi3experiment/src/wasmtimewrapper.rs` with its callers. Every
`submit` has an item and a one-shot channel of its own, so `ι` names all three.
One poll of the worker is one step: a task that completes has also sent. -/

namespace Pos2.Wasi

/-- How a call into the guest ends. A response that the host cannot turn into one
of its own is `malformed`, a call that it cannot make is `refused`. A trap ends no
call: it ends `run_concurrent`. -/
inductive GuestOutcome (ρ : Type) where
  | response (res : ρ)
  | malformed
  | errorCode
  | refused (message : String)

/-- What an item sends to its caller. -/
inductive Reply (ρ : Type) where
  | initialized (result : Except String Unit)
  | handled (res : ρ)

/-- How the body of an item ends. -/
inductive Ran (ρ : Type) where
  | value (reply : Reply ρ)
  | panic

/-- The bodies that `WasmInstance` submits, in its `initialize` and its `handle`. -/
inductive Work where
  | initializing
  | handle
  deriving DecidableEq, Repr

/-- `initialize` passes a failure on as a value, `handle` unwraps it. -/
def Work.body {ρ : Type} : Work → GuestOutcome ρ → Ran ρ
  | .initializing, .response _ | .initializing, .malformed => .value (.initialized (.ok ()))
  | .initializing, .errorCode => .value (.initialized (.error "failed to start worker"))
  | .initializing, .refused message => .value (.initialized (.error message))
  | .handle, .response res => .value (.handled res)
  | .handle, .malformed | .handle, .errorCode | .handle, .refused _ => .panic

/-- Where a caller of `submit` is. -/
inductive Caller (ρ : Type) where
  | idle
  | sending
  | waiting
  | received (reply : Reply ρ)
  | lost
  | cancelled
  | panicked

inductive WorkerPhase where
  | selecting
  | draining
  | returned
  | panicked
  deriving DecidableEq, Repr

/-- The receiver of the channel is there. -/
def WorkerPhase.listens : WorkerPhase → Bool
  | .selecting | .draining => true
  | .returned | .panicked => false

def CHANNEL_SIZE : Nat := 1024

/-- `slots` are the one-shot channels; `accepted`, `started`, `completed` and
`dropped` keep what became of the items. -/
structure WorkWorker (ι ρ : Type) where
  phase : WorkerPhase
  stopped : Bool
  sendersGone : Bool
  callers : ι → Caller ρ
  queue : List ι
  running : List ι
  slots : ι → Option (Reply ρ)
  accepted : List ι
  started : List ι
  completed : List (ι × GuestOutcome ρ)
  dropped : List ι

namespace WorkWorker
variable {ι ρ : Type} [DecidableEq ι]

def initial : WorkWorker ι ρ where
  phase := .selecting
  stopped := false
  sendersGone := false
  callers := fun _ => .idle
  queue := []
  running := []
  slots := fun _ => none
  accepted := []
  started := []
  completed := []
  dropped := []

def setCaller (worker : WorkWorker ι ρ) (i : ι) (caller : Caller ρ) : WorkWorker ι ρ :=
  { worker with callers := Function.update worker.callers i caller }

/-- A panic unwinds `run`: the channel and every task are dropped. -/
def unwind (worker : WorkWorker ι ρ) : WorkWorker ι ρ :=
  { worker with
    phase := .panicked
    queue := []
    running := []
    dropped := worker.dropped ++ worker.queue }

/-- `send.send(f(accessor, state).await).unwrap()` -/
def complete (work : ι → Work) (worker : WorkWorker ι ρ) (i : ι) (outcome : GuestOutcome ρ) : WorkWorker ι ρ :=
  match (work i).body outcome, worker.callers i with
  | .panic, _ => worker.unwind
  | .value _, .cancelled => worker.unwind
  | .value reply, _ =>
    { worker with
      running := worker.running.erase i
      slots := Function.update worker.slots i (some reply)
      completed := worker.completed ++ [(i, outcome)] }

/-- The steps of the callers, the worker's select and its guest, whose code may run
on behind a response. -/
inductive Event (ι ρ : Type) where
  | submit (i : ι)
  | send (i : ι)
  | sendFails (i : ι)
  | cancel (i : ι)
  | receive (i : ι)
  | lose (i : ι)
  | stop
  | dropSenders
  | seesStop
  | seesEnd
  | recv
  | completes (i : ι) (outcome : GuestOutcome ρ)
  | traps (i : ι)
  | hostPanics (i : ι)
  | returns

variable (work : ι → Work)

inductive Step : Event ι ρ → WorkWorker ι ρ → WorkWorker ι ρ → Prop where
  | submit {worker i} (idle : worker.callers i = .idle) (open_ : worker.sendersGone = false) :
      Step (.submit i) worker (worker.setCaller i .sending)
  | send {worker i} (sending : worker.callers i = .sending) (listens : worker.phase.listens = true)
      (room : worker.queue.length < CHANNEL_SIZE) :
      Step (.send i) worker { worker.setCaller i .waiting with
        queue := worker.queue ++ [i], accepted := worker.accepted ++ [i] }
  | sendFails {worker i} (sending : worker.callers i = .sending) (closed : worker.phase.listens = false) :
      Step (.sendFails i) worker (worker.setCaller i .panicked)
  | cancel {worker i} (pending : worker.callers i = .sending ∨ worker.callers i = .waiting) :
      Step (.cancel i) worker (worker.setCaller i .cancelled)
  | receive {worker i reply} (waiting : worker.callers i = .waiting) (sent : worker.slots i = some reply) :
      Step (.receive i) worker (worker.setCaller i (.received reply))
  | lose {worker i} (waiting : worker.callers i = .waiting) (unsent : worker.slots i = none)
      (gone : i ∉ worker.queue ∧ i ∉ worker.running) :
      Step (.lose i) worker (worker.setCaller i .lost)
  | stop {worker} : Step .stop worker { worker with stopped := true }
  | dropSenders {worker} (unused : ∀ i, worker.callers i ≠ .sending) :
      Step .dropSenders worker { worker with sendersGone := true }
  | seesStop {worker} (selecting : worker.phase = .selecting) (stopped : worker.stopped = true) :
      Step .seesStop worker { worker with phase := .draining }
  | seesEnd {worker} (selecting : worker.phase = .selecting) (gone : worker.sendersGone = true)
      (empty : worker.queue = []) :
      Step .seesEnd worker { worker with phase := .draining }
  | recv {worker i rest} (selecting : worker.phase = .selecting) (queued : worker.queue = i :: rest) :
      Step .recv worker { worker with
        queue := rest, running := worker.running ++ [i], started := worker.started ++ [i] }
  | completes {worker i outcome} (listens : worker.phase.listens = true) (runs : i ∈ worker.running) :
      Step (.completes i outcome) worker (worker.complete work i outcome)
  -- `run_concurrent` returns the trap, and `run` unwraps it
  | traps {worker i} (listens : worker.phase.listens = true) (started : i ∈ worker.started) :
      Step (.traps i) worker worker.unwind
  -- a host function that the guest of `i` calls panics
  | hostPanics {worker i} (listens : worker.phase.listens = true) (started : i ∈ worker.started) :
      Step (.hostPanics i) worker worker.unwind
  | returns {worker} (draining : worker.phase = .draining) (idle : worker.running = []) :
      Step .returns worker { worker with
        phase := .returned, queue := [], dropped := worker.dropped ++ worker.queue }

/-- Which events are to happen in a state. -/
abbrev Rules (ι ρ : Type) := WorkWorker ι ρ → Event ι ρ → Prop

def anything : Rules ι ρ := fun _ _ => True

/-- Every task that completes has a value for a caller who is still there, no guest
traps and no host function panics, and the worker returns with nothing queued. -/
def benign : Rules ι ρ
  | worker, .completes i outcome => (∃ reply, (work i).body outcome = .value reply) ∧ worker.callers i ≠ .cancelled
  | _, .traps _ | _, .hostPanics _ => False
  | worker, .returns => worker.queue = []
  | _, _ => True

/-- A run with its events. -/
inductive Run (rules : Rules ι ρ) (worker : WorkWorker ι ρ) : List (Event ι ρ) → WorkWorker ι ρ → Prop where
  | start : Run rules worker [] worker
  | step {events before event after} (run : Run rules worker events before) (allowed : rules before event)
      (step : Step work event before after) : Run rules worker (events ++ [event]) after

/-- A run without end. Where there is no event, nothing happens. -/
def Endless (rules : Rules ι ρ) (workers : Nat → WorkWorker ι ρ) (events : Nat → Option (Event ι ρ)) : Prop :=
  ∀ n, match events n with
    | none => workers (n + 1) = workers n
    | some event => rules (workers n) event ∧ Step work event (workers n) (workers (n + 1))

/-- The worker takes what is queued (or returns), the guest ends its calls, and
callers are polled. -/
structure Fair (workers : Nat → WorkWorker ι ρ) (events : Nat → Option (Event ι ρ)) : Prop where
  takes : ∀ n, (workers n).queue ≠ [] → ∃ m ≥ n, events m = some .recv ∨ events m = some .returns
  ends : ∀ n i, i ∈ (workers n).running → (workers n).callers i = .waiting →
    ∃ m ≥ n, (workers m).callers i ≠ .waiting ∨ ∃ outcome, events m = some (.completes i outcome)
  polls : ∀ n i, (workers n).callers i = .waiting → (workers n).slots i ≠ none →
    ∃ m ≥ n, (workers m).callers i ≠ .waiting ∨ events m = some (.receive i)

end WorkWorker
end Pos2.Wasi
