import Mathlib.Logic.Function.Basic
import Mathlib.Logic.Relation

/-! Programs that share an object and reach it one atomic call at a time. A
program is the tree of its calls; between two of them every other thread may
make calls of its own. Nothing here depends on what the object is. -/

namespace Calls

/-- The requests a shared object understands and the type of each reply. -/
structure Interface where
  Request : Type
  Reply : Request → Type

inductive Program (I : Interface) (α : Type) : Type where
  | done (value : α) : Program I α
  | call (request : I.Request) (next : I.Reply request → Program I α) : Program I α

namespace Program
variable {I : Interface} {α β σ : Type}

def bind : Program I α → (α → Program I β) → Program I β
  | .done value, rest => rest value
  | .call request next, rest => .call request fun reply => (next reply).bind rest

def request (request : I.Request) : Program I (I.Reply request) :=
  .call request .done

instance : Monad (Program I) where
  pure := .done
  bind := .bind

@[simp] theorem pure_eq (value : α) : (pure value : Program I α) = .done value := rfl

@[simp] theorem bind_eq (program : Program I α) (rest : α → Program I β) :
    program >>= rest = program.bind rest := rfl

@[simp] theorem done_bind (value : α) (rest : α → Program I β) :
    (done value : Program I α).bind rest = rest value := rfl

@[simp] theorem call_bind (request : I.Request) (next : I.Reply request → Program I α)
    (rest : α → Program I β) :
    (call request next).bind rest = .call request fun reply => (next reply).bind rest := rfl

@[simp] theorem request_bind (asked : I.Request) (rest : I.Reply asked → Program I β) :
    (request asked).bind rest = .call asked rest := rfl

theorem bind_done (program : Program I α) : program.bind .done = program := by
  induction program with
  | done value => rfl
  | call request next ih => exact congrArg (call request) (funext ih)

theorem bind_assoc {γ : Type} (program : Program I α) (middle : α → Program I β) (last : β → Program I γ) :
    (program.bind middle).bind last = program.bind fun value => (middle value).bind last := by
  induction program with
  | done value => rfl
  | call request next ih => exact congrArg (call request) (funext ih)

/-- Run a program on its own against an object that answers deterministically. -/
def run (serve : (request : I.Request) → σ → I.Reply request × σ) : Program I α → σ → α × σ
  | .done value, state => (value, state)
  | .call request next, state =>
    let (reply, after) := serve request state
    (next reply).run serve after

variable (serve : (request : I.Request) → σ → I.Reply request × σ)

@[simp] theorem run_done (value : α) (state : σ) :
    (done value : Program I α).run serve state = (value, state) := rfl

@[simp] theorem run_call (request : I.Request) (next : I.Reply request → Program I α) (state : σ) :
    (call request next).run serve state =
      (next (serve request state).1).run serve (serve request state).2 := rfl

theorem run_bind (program : Program I α) (rest : α → Program I β) (state : σ) :
    (program.bind rest).run serve state =
      (rest (program.run serve state).1).run serve (program.run serve state).2 := by
  induction program generalizing state with
  | done value => rfl
  | call request next ih => exact ih _ _

/-- Run a program as far as an object answers at all. -/
def advance (answer : (request : I.Request) → σ → Option (I.Reply request × σ)) : Program I α → σ → Program I α × σ
  | .done value, state => (.done value, state)
  | .call request next, state =>
    match answer request state with
    | some (reply, after) => (next reply).advance answer after
    | none => (.call request next, state)

end Program

/-- What an object may answer to a request in one state, and the state after. -/
abbrev Handler (I : Interface) (σ : Type) :=
  (request : I.Request) → σ → I.Reply request → σ → Prop

/-- A program on its own, from the state it starts in to the one it ends in. -/
inductive Program.Ends {I : Interface} {σ α : Type} (handler : Handler I σ) : Program I α → σ → α → σ → Prop where
  | done (value : α) (state : σ) : Ends handler (.done value) state value state
  | call {request next before reply between value after} (served : handler request before reply between)
      (rest : Ends handler (next reply) between value after) :
      Ends handler (.call request next) before value after

namespace Program
variable {I : Interface} {σ α β : Type} {handler : Handler I σ}

theorem Ends.bind {program : Program I α} {rest : α → Program I β} {before between after : σ} {middle : α}
    {value : β} (first : program.Ends handler before middle between)
    (then_ : (rest middle).Ends handler between value after) : (program.bind rest).Ends handler before value after := by
  induction first with
  | done => exact then_
  | call served _ ih => exact .call served (ih then_)

/-- Where every call is answered a program comes to an end. -/
theorem ends_total (total : ∀ request state, ∃ reply after, handler request state reply after)
    (program : Program I α) (state : σ) : ∃ value after, program.Ends handler state value after := by
  induction program generalizing state with
  | done value => exact ⟨value, state, .done value state⟩
  | call request next ih =>
    obtain ⟨reply, between, served⟩ := total request state
    obtain ⟨value, after, rest⟩ := ih reply between
    exact ⟨value, after, .call served rest⟩

/-- A program ends as it runs against an object that answers as the handler allows. -/
theorem ends_run {serve : (request : I.Request) → σ → I.Reply request × σ}
    (serves : ∀ request state, handler request state (serve request state).1 (serve request state).2)
    (program : Program I α) (state : σ) :
    program.Ends handler state (program.run serve state).1 (program.run serve state).2 := by
  induction program generalizing state with
  | done value => exact .done value state
  | call request next ih => exact .call (serves request state) (ih _ _)

end Program

/-- Threads over one shared object. A finished thread keeps its value. -/
structure Pool (I : Interface) (σ ι α : Type) where
  shared : σ
  threads : ι → Program I α

namespace Pool
variable {I : Interface} {σ ι α : Type} [DecidableEq ι]

/-- One step of thread `i`: its pending call is answered, or, once it is done,
it starts the next program that `starts` allows for its value. -/
inductive Step (handler : Handler I σ) (starts : ι → α → Program I α → Prop) (i : ι) :
    Pool I σ ι α → Pool I σ ι α → Prop where
  | call {pool request next} (reply : I.Reply request) (after : σ)
      (waiting : pool.threads i = .call request next)
      (served : handler request pool.shared reply after) :
      Step handler starts i pool ⟨after, Function.update pool.threads i (next reply)⟩
  | start {pool value} (program : Program I α)
      (idle : pool.threads i = .done value) (started : starts i value program) :
      Step handler starts i pool ⟨pool.shared, Function.update pool.threads i program⟩

variable {handler : Handler I σ} {starts : ι → α → Program I α → Prop}

/-- Any thread takes a step. -/
def Moves (handler : Handler I σ) (starts : ι → α → Program I α → Prop)
    (before after : Pool I σ ι α) : Prop :=
  ∃ i, Step handler starts i before after

abbrev Runs (handler : Handler I σ) (starts : ι → α → Program I α → Prop) :
    Pool I σ ι α → Pool I σ ι α → Prop :=
  Relation.ReflTransGen (Moves handler starts)

theorem Step.others {i j : ι} {before after : Pool I σ ι α}
    (step : Step handler starts i before after) (different : j ≠ i) :
    after.threads j = before.threads j := by
  cases step <;> exact Function.update_of_ne different _ _

theorem Step.mono {wider : ι → α → Program I α → Prop} {looser : Handler I σ}
    {i : ι} {before after : Pool I σ ι α} (step : Step handler starts i before after)
    (answers : ∀ request s reply s', handler request s reply s' → looser request s reply s')
    (allows : ∀ i value program, starts i value program → wider i value program) :
    Step looser wider i before after := by
  cases step with
  | call reply after waiting served => exact .call reply after waiting (answers _ _ _ _ served)
  | start program idle started => exact .start program idle (allows _ _ _ started)

theorem Runs.mono {wider : ι → α → Program I α → Prop} {looser : Handler I σ}
    {before after : Pool I σ ι α} (run : Runs handler starts before after)
    (answers : ∀ request s reply s', handler request s reply s' → looser request s reply s')
    (allows : ∀ i value program, starts i value program → wider i value program) :
    Runs looser wider before after :=
  Relation.ReflTransGen.mono (fun _ _ ⟨i, step⟩ => ⟨i, step.mono answers allows⟩) _ _ run

/-- A thread may go on to its end while all others wait. -/
theorem runs_ends {pool : Pool I σ ι α} {i : ι} {program : Program I α} {value : α} {after : σ}
    (waiting : pool.threads i = program) (ends : program.Ends handler pool.shared value after) :
    Runs handler starts pool ⟨after, Function.update pool.threads i (.done value)⟩ := by
  generalize begun : pool.shared = shared at ends
  induction ends generalizing pool with
  | done value state =>
    rw [← begun, ← waiting, Function.update_eq_self]
  | @call request next before reply between value after served _ ih =>
    subst begun
    have step : Moves handler starts pool ⟨between, Function.update pool.threads i (next reply)⟩ :=
      ⟨i, .call reply between waiting served⟩
    have rest := @ih ⟨between, Function.update pool.threads i (next reply)⟩ (by simp) rfl
    rw [Function.update_idem] at rest
    exact .head step rest

/-- Thread `i` finishes what it does while the others leave the shared state alone. -/
inductive Undisturbed (handler : Handler I σ) (starts : ι → α → Program I α → Prop) (i : ι) :
    Pool I σ ι α → Pool I σ ι α → Prop where
  | own {pool request next} (reply : I.Reply request) (after : σ)
      (waiting : pool.threads i = .call request next)
      (served : handler request pool.shared reply after) :
      Undisturbed handler starts i pool ⟨after, Function.update pool.threads i (next reply)⟩
  | other {j : ι} {before after} (different : i ≠ j) (step : Step handler starts j before after)
      (same : after.shared = before.shared) :
      Undisturbed handler starts i before after

/-- An undisturbed thread ends as it would on its own. -/
theorem Undisturbed.run {serve : (request : I.Request) → σ → I.Reply request × σ}
    (served : ∀ request before reply after, handler request before reply after →
      serve request before = (reply, after))
    {i : ι} {before after : Pool I σ ι α}
    (steps : Relation.ReflTransGen (Undisturbed handler starts i) before after) :
    (before.threads i).run serve before.shared = (after.threads i).run serve after.shared := by
  induction steps with
  | refl => rfl
  | tail _ step ih =>
    rw [ih]
    cases step with
    | own reply after waiting answered =>
      have same := served _ _ _ _ answered
      simp only [waiting, Program.run_call, Function.update_self, same]
    | other different step same => rw [step.others different, same]

end Pool
end Calls
