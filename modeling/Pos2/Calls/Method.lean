import Pos2.Calls.Program

/-! Methods with a state of their own. A method returns, fails or panics, and
in all three cases its owner keeps the state the method had reached. -/

namespace Calls

/-- How a Rust function ends. -/
inductive Outcome (ε α : Type) where
  | ok (value : α)
  | err (error : ε)
  | panic
  deriving DecidableEq, Repr

namespace Outcome
variable {ε δ α β : Type}

/-- The `?` operator. -/
def bind : Outcome ε α → (α → Outcome ε β) → Outcome ε β
  | .ok value, rest => rest value
  | .err error, _ => .err error
  | .panic, _ => .panic

instance : Monad (Outcome ε) where
  pure := .ok
  bind := .bind

@[simp] theorem pure_eq (value : α) : (pure value : Outcome ε α) = .ok value := rfl

@[simp] theorem ok_bind (value : α) (rest : α → Outcome ε β) :
    (ok value : Outcome ε α) >>= rest = rest value := rfl

@[simp] theorem err_bind (error : ε) (rest : α → Outcome ε β) :
    (err error : Outcome ε α) >>= rest = .err error := rfl

@[simp] theorem panic_bind (rest : α → Outcome ε β) :
    (panic : Outcome ε α) >>= rest = .panic := rfl

/-- `Result::expect`: an error becomes a panic. -/
def expect : Outcome ε α → Outcome δ α
  | .ok value => .ok value
  | _ => .panic

end Outcome

/-- A method of an object with state `σ`, making calls of the interface `I`. -/
def Method (I : Interface) (ε σ α : Type) := σ → Program I (Outcome ε α × σ)

namespace Method
variable {I : Interface} {ε σ α β : Type}

def bind (method : Method I ε σ α) (rest : α → Method I ε σ β) : Method I ε σ β := fun state =>
  (method state).bind fun
    | (.ok value, after) => rest value after
    | (.err error, after) => .done (.err error, after)
    | (.panic, after) => .done (.panic, after)

instance : Monad (Method I ε σ) where
  pure value := fun state => .done (.ok value, state)
  bind := bind

/-- A step that makes no call. -/
def local_ (step : σ → Outcome ε α × σ) : Method I ε σ α := fun state => .done (step state)

def read : Method I ε σ σ := local_ fun state => (.ok state, state)

def modify (change : σ → σ) : Method I ε σ Unit := local_ fun state => (.ok (), change state)

def ofOutcome (outcome : Outcome ε α) : Method I ε σ α := local_ fun state => (outcome, state)

@[simp] theorem pure_apply (value : α) (state : σ) :
    (pure value : Method I ε σ α) state = .done (.ok value, state) := rfl

@[simp] theorem bind_apply (method : Method I ε σ α) (rest : α → Method I ε σ β) (state : σ) :
    (method >>= rest) state = (method state).bind fun
      | (.ok value, after) => rest value after
      | (.err error, after) => .done (.err error, after)
      | (.panic, after) => .done (.panic, after) := rfl

@[simp] theorem local_apply (step : σ → Outcome ε α × σ) (state : σ) :
    (local_ step : Method I ε σ α) state = .done (step state) := rfl

@[simp] theorem read_apply (state : σ) :
    (read : Method I ε σ σ) state = .done (.ok state, state) := rfl

@[simp] theorem modify_apply (change : σ → σ) (state : σ) :
    (modify change : Method I ε σ Unit) state = .done (.ok (), change state) := rfl

@[simp] theorem ofOutcome_apply (outcome : Outcome ε α) (state : σ) :
    (ofOutcome outcome : Method I ε σ α) state = .done (outcome, state) := rfl

end Method
end Calls
