import Pos2.Calls.Program

/-! Programs whose calls and whose whole may fail, with what holds of every call
a program can make, whatever is answered. -/

namespace Calls

/-- An interface on which every call may fail. -/
abbrev Interface.fallible (Request : Type) (Value : Request → Type) : Interface :=
  ⟨Request, fun request => Except String (Value request)⟩

/-- A function that returns a `Result`. -/
def Fallible (I : Interface) (α : Type) := Program I (Except String α)

namespace Fallible
variable {I : Interface} {α β : Type}

/-- The `?` operator. -/
def bind (first : Fallible I α) (rest : α → Fallible I β) : Fallible I β :=
  Program.bind first fun
    | .ok value => rest value
    | .error error => .done (.error error)

instance : Monad (Fallible I) where
  pure value := Program.done (.ok value)
  bind := bind

def fail (error : String) : Fallible I α := Program.done (.error error)

def ask {Request : Type} {Value : Request → Type} (request : Request) :
    Fallible (.fallible Request Value) (Value request) :=
  Program.request (I := .fallible Request Value) request

/-- A step that yields a `Result` at once. -/
def ofExcept (result : Except String α) : Fallible I α := Program.done result

/-- Inspect a `Result` instead of passing its error on. -/
def attempt (first : Fallible I α) : Fallible I (Except String α) :=
  Program.bind first fun result => .done (.ok result)

instance : LawfulMonad (Fallible I) := by
  refine LawfulMonad.mk' _ ?_ (fun _ _ => rfl) ?_
  · intro α function
    induction function with
    | done result => cases result <;> rfl
    | call request next ih => exact congrArg (Program.call request) (funext ih)
  · intro α β γ function first rest
    induction function with
    | done result => cases result <;> rfl
    | call request next ih => exact congrArg (Program.call request) (funext ih)

end Fallible

namespace Fallible
variable {Request : Type} {Value : Request → Type} {σ β : Type} {handler : Handler (.fallible Request Value) σ}

/-- A function on its own, from the state it starts in to the one it ends in. -/
def Ends (handler : Handler (.fallible Request Value) σ) (function : Fallible (.fallible Request Value) β)
    (before : σ) (result : Except String β) (after : σ) : Prop :=
  Program.Ends handler function before result after

/-- Run a function on its own against an object that answers deterministically. -/
def run (serve : (request : Request) → σ → Except String (Value request) × σ)
    (function : Fallible (.fallible Request Value) β) (before : σ) : Except String β × σ :=
  Program.run serve function before

section
variable {α : Type} (serve : (request : Request) → σ → Except String (Value request) × σ)

@[simp] theorem run_ask (request : Request) (before : σ) :
    (ask request : Fallible (.fallible Request Value) _).run serve before = serve request before := rfl

@[simp] theorem run_pure (value : β) (before : σ) :
    (pure value : Fallible (.fallible Request Value) β).run serve before = (.ok value, before) := rfl

@[simp] theorem run_ofExcept (result : Except String β) (before : σ) :
    (ofExcept result : Fallible (.fallible Request Value) β).run serve before = (result, before) := rfl

theorem run_bind (first : Fallible (.fallible Request Value) α) (rest : α → Fallible (.fallible Request Value) β)
    (before : σ) : (first >>= rest).run serve before =
      match first.run serve before with
      | (.ok value, after) => (rest value).run serve after
      | (.error error, after) => (.error error, after) := by
  induction first generalizing before with
  | done result => cases result <;> rfl
  | call request next ih => exact ih _ _

end

/-- How a function ends that begins with a call. -/
theorem ends_ask {request : Request} {rest : Value request → Fallible (.fallible Request Value) β} {before after : σ}
    {result : Except String β} :
    Ends handler (ask request >>= rest) before result after ↔
      (∃ value between, handler request before (.ok value) between ∧ Ends handler (rest value) between result after) ∨
      ∃ error, handler request before (.error error) after ∧ result = .error error := by
  constructor
  · intro ends
    cases ends with
    | @call _ _ _ reply between _ _ served rest =>
      cases reply with
      | ok value => exact .inl ⟨value, between, served, rest⟩
      | error error =>
        cases rest with
        | done => exact .inr ⟨error, served, rfl⟩
  · rintro (⟨value, between, served, rest⟩ | ⟨error, served, rfl⟩)
    · exact .call served rest
    · exact .call served (.done _ _)

/-- How a function ends that begins with another one. -/
theorem ends_bind {α : Type} {first : Fallible (.fallible Request Value) α}
    {rest : α → Fallible (.fallible Request Value) β} {before after : σ} {result : Except String β} :
    Ends handler (first >>= rest) before result after ↔
      (∃ value between, Ends handler first before (.ok value) between ∧ Ends handler (rest value) between result after) ∨
      ∃ error, Ends handler first before (.error error) after ∧ result = .error error := by
  induction first generalizing before with
  | done ended =>
    constructor
    · intro ends
      cases ended with
      | ok value => exact .inl ⟨value, before, .done _ _, ends⟩
      | error error =>
        cases ends with
        | done => exact .inr ⟨error, .done _ _, rfl⟩
    · rintro (⟨value, between, first, rest⟩ | ⟨error, first, rfl⟩)
      · cases first
        exact rest
      · cases first
        exact .done _ _
  | call request next ih =>
    constructor
    · intro ends
      cases ends with
      | call served rest =>
        rcases (ih _).mp rest with ⟨value, between, first, rest⟩ | ⟨error, first, same⟩
        · exact .inl ⟨value, between, .call served first, rest⟩
        · exact .inr ⟨error, .call served first, same⟩
    · rintro (⟨value, between, first, rest⟩ | ⟨error, first, rfl⟩)
      · cases first with
        | call served first => exact .call served ((ih _).mpr (.inl ⟨value, between, first, rest⟩))
      · cases first with
        | call served first => exact .call served ((ih _).mpr (.inr ⟨error, first, rfl⟩))

theorem ends_pure {value : β} {before after : σ} {result : Except String β} :
    Ends handler (pure value) before result after ↔
      result = .ok value ∧ after = before := by
  constructor
  · intro ends
    cases ends
    exact ⟨rfl, rfl⟩
  · rintro ⟨rfl, rfl⟩
    exact .done _ _

end Fallible

namespace Program
variable {I : Interface} {α β : Type}

/-- Every call of the program is allowed, whatever was answered before, and so is
what it ends with. -/
def Uses (allowed : I.Request → Prop) (post : α → Prop) : Program I α → Prop
  | .done value => post value
  | .call request next => allowed request ∧ ∀ reply, (next reply).Uses allowed post

variable {allowed : I.Request → Prop} {middle : α → Prop} {post : β → Prop}

theorem Uses.bind {program : Program I α} {rest : α → Program I β} (first : program.Uses allowed middle)
    (then_ : ∀ value, middle value → (rest value).Uses allowed post) :
    (program.bind rest).Uses allowed post := by
  induction program with
  | done value => exact then_ value first
  | call request next ih => exact ⟨first.1, fun reply => ih reply (first.2 reply)⟩

theorem Uses.mono {wider : I.Request → Prop} {program : Program I β} (uses : program.Uses allowed post)
    (implies : ∀ request, allowed request → wider request) : program.Uses wider post := by
  induction program with
  | done value => exact uses
  | call request next ih => exact ⟨implies request uses.1, fun reply => ih reply (uses.2 reply)⟩

end Program

namespace Fallible
variable {I : Interface} {α β : Type} {allowed : I.Request → Prop} {middle : α → Prop} {post : β → Prop}

/-- Every call is allowed, and so is the value if there is one. -/
def Uses (allowed : I.Request → Prop) (post : α → Prop) (function : Fallible I α) : Prop :=
  Program.Uses allowed (fun result => ∀ value, result = .ok value → post value) function

theorem Uses.pure {value : β} (holds : post value) :
    (Pure.pure value : Fallible I β).Uses allowed post := by
  intro other same
  cases same
  exact holds

theorem Uses.fail (error : String) : (Fallible.fail error : Fallible I β).Uses allowed post := by
  intro value impossible
  cases impossible

theorem Uses.ofExcept (result : Except String α) :
    (Fallible.ofExcept result : Fallible I α).Uses allowed fun _ => True := fun _ _ => trivial

theorem Uses.bind {first : Fallible I α} {rest : α → Fallible I β} (uses : first.Uses allowed middle)
    (then_ : ∀ value, middle value → (rest value).Uses allowed post) :
    (first >>= rest).Uses allowed post := by
  apply Program.Uses.bind uses
  intro result holds
  cases result with
  | ok value => exact then_ value (holds value rfl)
  | error error => exact Uses.fail error

theorem Uses.mono {wider : I.Request → Prop} {function : Fallible I β} (uses : function.Uses allowed post)
    (implies : ∀ request, allowed request → wider request) : function.Uses wider post :=
  Program.Uses.mono uses implies

theorem Uses.attempt {first : Fallible I α} (uses : first.Uses allowed middle) :
    first.attempt.Uses allowed fun _ => True :=
  Program.Uses.bind uses fun _ _ _ _ => trivial

theorem Uses.forM {items : List α} {body : α → Fallible I Unit}
    (uses : ∀ item ∈ items, (body item).Uses allowed fun _ => True) :
    (items.forM body).Uses allowed fun _ => True := by
  induction items with
  | nil => exact Uses.pure trivial
  | cons item rest ih =>
    apply (uses item (List.mem_cons_self ..)).bind
    intro _ _
    exact ih fun other member => uses other (List.mem_cons_of_mem item member)

theorem Uses.mapM {items : List α} {body : α → Fallible I β}
    (uses : ∀ item ∈ items, (body item).Uses allowed fun _ => True) :
    (items.mapM body).Uses allowed fun _ => True := by
  induction items with
  | nil => exact Uses.pure trivial
  | cons item rest ih =>
    rw [List.mapM_cons]
    apply (uses item (List.mem_cons_self ..)).bind
    intro _ _
    apply (ih fun other member => uses other (List.mem_cons_of_mem item member)).bind
    intro _ _
    exact Uses.pure trivial

end Fallible
end Calls
