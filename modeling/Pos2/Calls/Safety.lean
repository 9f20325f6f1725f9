import Pos2.Calls.Program

/-! Safety of threads under interference. A contract says how the shared state
may evolve, what each served call must establish and what a finished thread
leaves behind; a pool whose threads are all safe stays so along every run. -/

namespace Calls

/-- `waits` holds while a thread waits to be served, `served` relates the state a
request met and its reply to the rest of the program and the state it left. -/
structure Contract (I : Interface) (σ α : Type) where
  valid : σ → Prop
  grows : σ → σ → Prop
  waits : I.Request → σ → Prop
  served : (request : I.Request) → σ → I.Reply request → Program I α → σ → Prop
  post : α → σ → Prop

namespace Contract
variable {I : Interface} {σ ι α : Type}

/-- Assertions about a thread at rest survive the steps of other threads. -/
structure Stable (contract : Contract I σ α) : Prop where
  refl : ∀ state, contract.grows state state
  trans : ∀ {a b c}, contract.grows a b → contract.grows b c → contract.grows a c
  waits : ∀ {request before after}, contract.valid after → contract.grows before after →
    contract.waits request before → contract.waits request after
  post : ∀ {value before after}, contract.valid after → contract.grows before after →
    contract.post value before → contract.post value after

/-- Every later state may serve the pending call, with any reply the handler
allows; the rest of the program is then judged from there. -/
def Safe (contract : Contract I σ α) (handler : Handler I σ) : Program I α → σ → Prop
  | .done value, state => contract.post value state
  | .call request next, state =>
    contract.waits request state ∧
    ∀ before reply after, contract.valid before → contract.grows state before →
      handler request before reply after →
      contract.valid after ∧ contract.grows before after ∧
        contract.served request before reply (next reply) after ∧
        contract.Safe handler (next reply) after

variable {contract : Contract I σ α} {handler : Handler I σ}

theorem Safe.mono (stable : contract.Stable) {program : Program I α} {before after : σ}
    (safe : contract.Safe handler program before) (kept : contract.valid after)
    (growth : contract.grows before after) : contract.Safe handler program after := by
  cases program with
  | done value => exact stable.post kept growth safe
  | call request next =>
    refine ⟨stable.waits kept growth safe.1, ?_⟩
    intro current reply final valid later answered
    exact safe.2 current reply final valid (stable.trans growth later) answered

variable {starts : ι → α → Program I α → Prop}

/-- The shared state is valid and every thread is safe from it. -/
structure Holds (contract : Contract I σ α) (handler : Handler I σ) (pool : Pool I σ ι α) : Prop where
  valid : contract.valid pool.shared
  safe : ∀ i, contract.Safe handler (pool.threads i) pool.shared

/-- What a started program must satisfy for the contract to be an invariant. -/
def Starts (contract : Contract I σ α) (handler : Handler I σ)
    (starts : ι → α → Program I α → Prop) : Prop :=
  ∀ i value program state, contract.valid state → contract.post value state →
    starts i value program → contract.Safe handler program state

private theorem threads_safe [DecidableEq ι] (stable : contract.Stable) {pool : Pool I σ ι α} {i : ι}
    (holds : contract.Holds handler pool) {program : Program I α} {after : σ}
    (kept : contract.valid after) (growth : contract.grows pool.shared after)
    (safe : contract.Safe handler program after) :
    contract.Holds handler (⟨after, Function.update pool.threads i program⟩ : Pool I σ ι α) := by
  refine ⟨kept, ?_⟩
  intro j
  by_cases same : j = i
  · subst j
    simpa only [Function.update_self] using safe
  · simpa only [Function.update_of_ne same] using (holds.safe j).mono stable kept growth

theorem Holds.step [DecidableEq ι] (stable : contract.Stable) (startsSafe : contract.Starts handler starts)
    {i : ι} {before after : Pool I σ ι α} (holds : contract.Holds handler before)
    (step : Pool.Step handler starts i before after) : contract.Holds handler after := by
  cases step with
  | call reply after waiting served =>
    have safe := holds.safe i
    rw [waiting] at safe
    obtain ⟨kept, growth, _, rest⟩ :=
      safe.2 _ reply after holds.valid (stable.refl _) served
    exact threads_safe stable holds kept growth rest
  | start program idle started =>
    have finished := holds.safe i
    rw [idle] at finished
    exact threads_safe stable holds holds.valid (stable.refl _)
      (startsSafe i _ program _ holds.valid finished started)

theorem Holds.run [DecidableEq ι] (stable : contract.Stable) (startsSafe : contract.Starts handler starts)
    {before after : Pool I σ ι α} (holds : contract.Holds handler before)
    (run : Pool.Runs handler starts before after) : contract.Holds handler after := by
  induction run with
  | refl => exact holds
  | tail _ move ih =>
    obtain ⟨i, step⟩ := move
    exact ih.step stable startsSafe step

theorem Holds.step_grows [DecidableEq ι] (stable : contract.Stable) {i : ι} {before after : Pool I σ ι α}
    (holds : contract.Holds handler before) (step : Pool.Step handler starts i before after) :
    contract.grows before.shared after.shared := by
  cases step with
  | call reply after waiting served =>
    have safe := holds.safe i
    rw [waiting] at safe
    exact (safe.2 _ reply after holds.valid (stable.refl _) served).2.1
  | start program idle started => exact stable.refl _

/-- The shared state grows along a whole run. -/
theorem Holds.run_grows [DecidableEq ι] (stable : contract.Stable) (startsSafe : contract.Starts handler starts)
    {before after : Pool I σ ι α} (holds : contract.Holds handler before)
    (run : Pool.Runs handler starts before after) : contract.grows before.shared after.shared := by
  induction run with
  | refl => exact stable.refl _
  | tail earlier move ih =>
    obtain ⟨i, step⟩ := move
    exact stable.trans ih ((holds.run stable startsSafe earlier).step_grows stable step)

/-- Every call answered along a run establishes the contract's step assertion. -/
theorem Holds.served (stable : contract.Stable) {pool : Pool I σ ι α}
    (holds : contract.Holds handler pool) {i : ι} {request next}
    (waiting : pool.threads i = .call request next) {reply after}
    (answered : handler request pool.shared reply after) :
    contract.served request pool.shared reply (next reply) after := by
  have safe := holds.safe i
  rw [waiting] at safe
  exact (safe.2 _ reply after holds.valid (stable.refl _) answered).2.2.1

/-- The visible assertion of a thread that waits for an answer. -/
theorem Holds.waits {pool : Pool I σ ι α} (holds : contract.Holds handler pool) {i : ι} {request next}
    (waiting : pool.threads i = .call request next) : contract.waits request pool.shared := by
  have safe := holds.safe i
  rw [waiting] at safe
  exact safe.1

theorem Holds.post {pool : Pool I σ ι α} (holds : contract.Holds handler pool) {i : ι} {value}
    (idle : pool.threads i = .done value) : contract.post value pool.shared := by
  have finished := holds.safe i
  rw [idle] at finished
  exact finished

end Contract
end Calls
