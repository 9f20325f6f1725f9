import Pos2.Calls.Fallible

/-! Programs under interference of others that differ from them. What the others
may do is relied on between any two calls; what a call does is guaranteed. -/

namespace Calls.Program
variable {I : Interface} {σ α : Type}

/-- Every call, answered in any state the others may have made, does what is
guaranteed, and the program ends in what was promised. -/
def Follows (handler : Handler I σ) (rely : σ → σ → Prop) (guarantee : I.Request → σ → σ → Prop)
    (post : α → σ → Prop) : Program I α → σ → Prop
  | .done value, state => ∀ later, rely state later → post value later
  | .call request next, state => ∀ before reply after, rely state before →
      handler request before reply after →
      guarantee request before after ∧ (next reply).Follows handler rely guarantee post after

variable {handler : Handler I σ} {rely : σ → σ → Prop} {guarantee : I.Request → σ → σ → Prop}
  {post : α → σ → Prop}

theorem Follows.mono {program : Program I α} {state later : σ}
    (trans : ∀ {a b c}, rely a b → rely b c → rely a c)
    (follows : program.Follows handler rely guarantee post state) (move : rely state later) :
    program.Follows handler rely guarantee post later := by
  cases program with
  | done value =>
    intro last moves
    exact follows last (trans move moves)
  | call request next =>
    intro before reply after moves served
    exact follows before reply after (trans move moves) served

/-- A program whose every allowed call keeps an invariant that the others keep too. -/
theorem Uses.follows {allowed : I.Request → Prop} {ends : α → Prop} {invariant : σ → Prop} {program : Program I α}
    (uses : program.Uses allowed ends)
    (kept : ∀ state later, invariant state → rely state later → invariant later)
    (step : ∀ {request before reply after}, allowed request → invariant before →
      handler request before reply after → guarantee request before after ∧ invariant after)
    (done : ∀ {value state}, ends value → invariant state → post value state)
    {state : σ} (holds : invariant state) : program.Follows handler rely guarantee post state := by
  induction program generalizing state with
  | done value =>
    intro later move
    exact done uses (kept state later holds move)
  | call request next ih =>
    intro before reply after move served
    obtain ⟨guaranteed, last⟩ := step uses.1 (kept state before holds move) served
    exact ⟨guaranteed, ih reply (uses.2 reply) last⟩

end Calls.Program

namespace Calls.Fallible
variable {I : Interface} {σ α β : Type}

/-- The same of a function that may fail. Where it fails nothing was promised. -/
def Follows (handler : Handler I σ) (rely : σ → σ → Prop) (guarantee : I.Request → σ → σ → Prop)
    (post : α → σ → Prop) (function : Fallible I α) (state : σ) : Prop :=
  Program.Follows handler rely guarantee (fun result state => ∀ value, result = .ok value → post value state)
    function state

variable {handler : Handler I σ} {rely : σ → σ → Prop} {guarantee : I.Request → σ → σ → Prop}
  {post : β → σ → Prop}

theorem Follows.fail (error : String) (state : σ) :
    (Fallible.fail error : Fallible I β).Follows handler rely guarantee post state := by
  intro later _ value impossible
  cases impossible

theorem Follows.pure {value : β} {state : σ} (holds : ∀ later, rely state later → post value later) :
    (Pure.pure value : Fallible I β).Follows handler rely guarantee post state := by
  intro later moves other same
  cases same
  exact holds later moves

/-- A call, and what follows on each of its answers. -/
theorem Follows.ask_bind {Request : Type} {Value : Request → Type} {request : Request}
    {handler : Handler (.fallible Request Value) σ} {guarantee : Request → σ → σ → Prop}
    {rest : Value request → Fallible (.fallible Request Value) β} {state : σ}
    (answered : ∀ before reply after, rely state before → handler request before reply after →
      guarantee request before after ∧
        ∀ value, reply = .ok value → (rest value).Follows handler rely guarantee post after) :
    (ask request >>= rest).Follows handler rely guarantee post state := by
  intro before reply after moves served
  obtain ⟨guaranteed, then_⟩ := answered before reply after moves served
  refine ⟨guaranteed, ?_⟩
  cases reply with
  | ok value => exact then_ value rfl
  | error error => exact fail error after

end Calls.Fallible
