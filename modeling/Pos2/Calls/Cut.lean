import Pos2.Calls.Alone

/-! Programs that are cut off or run as far as they are answered, and functions that
stop at their first failure. -/

namespace Calls

namespace Program
variable {I : Interface} {σ α : Type}

/-- What a program may leave when it goes no further. A call that is cut off itself
leaves what it might when it fails. -/
inductive Leaves (handler : Handler I σ) : Program I α → σ → σ → Prop where
  | here (program : Program I α) (state : σ) : Leaves handler program state state
  | call {request next before reply between after} (served : handler request before reply between)
      (rest : Leaves handler (next reply) between after) : Leaves handler (.call request next) before after

variable {handler : Handler I σ} {invariant : σ → Prop} {post : α → σ → Prop} {program : Program I α} {before after : σ}

/-- What every call leaves holds wherever the program is cut off. -/
theorem Alone.leaves (alone : program.Alone handler (fun _ state => invariant state) post before)
    (holds : invariant before) (leaves : program.Leaves handler before after) : invariant after := by
  induction leaves with
  | here => exact holds
  | call served _ ih =>
    obtain ⟨kept, rest⟩ := alone _ _ served
    exact ih rest kept

theorem Alone.ends {value : α} (alone : program.Alone handler (fun _ state => invariant state) post before)
    (holds : invariant before) (ends : program.Ends handler before value after) : invariant after ∧ post value after := by
  induction ends with
  | done => exact ⟨holds, alone⟩
  | call served _ ih =>
    obtain ⟨kept, rest⟩ := alone _ _ served
    exact ih rest kept

/-- A program that is answered to its end. -/
theorem ends_of_advance {τ : Type} {answer : (request : I.Request) → τ → Option (I.Reply request × τ)} (view : τ → σ)
    (served : ∀ {request state reply next}, answer request state = some (reply, next) →
      handler request (view state) reply (view next))
    {state last : τ} {value : α} (runs : program.advance answer state = (.done value, last)) :
    program.Ends handler (view state) value (view last) := by
  induction program generalizing state with
  | done other =>
    cases runs
    exact .done _ _
  | call request next ih =>
    unfold advance at runs
    cases answered : answer request state with
    | none =>
      rw [answered] at runs
      cases runs
    | some replied =>
      obtain ⟨reply, between⟩ := replied
      rw [answered] at runs
      exact .call (served answered) (ih reply runs)

/-- A program that is answered as far as it goes. -/
theorem leaves_advance {τ : Type} {answer : (request : I.Request) → τ → Option (I.Reply request × τ)} (view : τ → σ)
    (served : ∀ {request state reply next}, answer request state = some (reply, next) →
      handler request (view state) reply (view next)) (program : Program I α) (state : τ) :
    program.Leaves handler (view state) (view (program.advance answer state).2) := by
  induction program generalizing state with
  | done value => exact .here _ _
  | call request next ih =>
    unfold advance
    cases answered : answer request state with
    | none => exact .here _ _
    | some replied => exact .call (served answered) (ih replied.1 replied.2)

end Program

namespace Fallible
variable {Request : Type} {Value : Request → Type} {α β : Type}

/-- No call is made after one that failed. -/
def Stops : Program (.fallible Request Value) (Except String α) → Prop
  | .done _ => True
  | .call _ next => (∀ error, ∃ error', next (.error error) = .done (.error error')) ∧ ∀ value, Stops (next (.ok value))

theorem Stops.ask (request : Request) : Stops (ask request : Fallible (.fallible Request Value) _) :=
  ⟨fun error => ⟨error, rfl⟩, fun _ => trivial⟩

theorem Stops.ofExcept (result : Except String α) : Stops (ofExcept result : Fallible (.fallible Request Value) α) :=
  trivial

theorem Stops.bind {first : Fallible (.fallible Request Value) α} {rest : α → Fallible (.fallible Request Value) β}
    (stops : Stops first) (then_ : ∀ value, Stops (rest value)) :
    Stops (first >>= rest : Fallible (.fallible Request Value) β) := by
  induction first with
  | done result =>
    cases result with
    | ok value => exact then_ value
    | error error => exact trivial
  | call request next ih =>
    refine ⟨fun error => ?_, fun value => ih (.ok value) (stops.2 value)⟩
    obtain ⟨error', ends⟩ := stops.1 error
    refine ⟨error', ?_⟩
    have bound : (Fallible.bind (next (.error error)) rest : Fallible (.fallible Request Value) β) =
        .done (.error error') := by
      rw [ends]
      rfl
    exact bound

end Fallible
end Calls
