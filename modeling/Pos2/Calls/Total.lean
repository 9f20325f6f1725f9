import Pos2.Calls.Fallible

/-! Programs that surely come to a point, whatever is answered on the way. -/

namespace Calls
variable {I : Interface} {σ α β : Type}

namespace Program

/-- The program is always answered, and goes on until `post` holds. -/
inductive Surely (handler : Handler I σ) (post : Program I α → σ → Prop) : Program I α → σ → Prop where
  | here {program : Program I α} {state : σ} (holds : post program state) : Surely handler post program state
  | call {request : I.Request} {next : I.Reply request → Program I α} {state : σ}
      (answered : ∃ reply after, handler request state reply after)
      (goes : ∀ reply after, handler request state reply after → Surely handler post (next reply) after) :
      Surely handler post (.call request next) state

/-- It comes to its end, and then `post` holds. -/
def Yields (handler : Handler I σ) (post : α → σ → Prop) : Program I α → σ → Prop :=
  Surely handler fun program after => ∃ value, program = .done value ∧ post value after

variable {handler : Handler I σ} {state : σ}

theorem Surely.mono {post wider : Program I α → σ → Prop} {program : Program I α}
    (surely : program.Surely handler post state)
    (implies : ∀ program after, post program after → wider program after) : program.Surely handler wider state := by
  induction surely with
  | here holds => exact .here (implies _ _ holds)
  | call answered _ ih => exact .call answered ih

theorem Yields.bind {middle : α → σ → Prop} {post : Program I β → σ → Prop} {first : Program I α}
    {rest : α → Program I β} (yields : first.Yields handler middle state)
    (goes : ∀ value after, middle value after → (rest value).Surely handler post after) :
    (first.bind rest).Surely handler post state := by
  induction yields with
  | here holds =>
    obtain ⟨value, rfl, holds⟩ := holds
    exact goes value _ holds
  | call answered _ ih => exact .call answered fun reply after served => ih reply after served

/-- Where a run leads that is answered in a way of its own, as long as `post` holds
at no call that it answers. -/
theorem Surely.advance {post : Program I α → σ → Prop} {program : Program I α}
    {answer : (request : I.Request) → σ → Option (I.Reply request × σ)} (surely : program.Surely handler post state)
    (answers : ∀ {request state reply after}, answer request state = some (reply, after) → handler request state reply after)
    (waits : ∀ {request next state}, post (.call request next) state → answer request state = none) :
    (program.advance answer state).1.Surely handler post (program.advance answer state).2 := by
  induction surely with
  | @here program state holds =>
    cases program with
    | done value => exact .here holds
    | call request next =>
      rw [Program.advance, waits holds]
      exact .here holds
  | @call request next state answered goes ih =>
    unfold Program.advance
    cases same : answer request state with
    | none => exact .call answered goes
    | some answer => exact ih _ _ (answers same)

end Program

namespace Fallible

/-- The function comes to its end without an error. -/
def Total (handler : Handler I σ) (post : α → σ → Prop) (function : Fallible I α) (state : σ) : Prop :=
  Program.Yields handler (fun result after => ∃ value, result = .ok value ∧ post value after) function state

variable {handler : Handler I σ} {state : σ} {middle : α → σ → Prop} {post : β → σ → Prop}

theorem Total.then {goal : Program I (Except String β) → σ → Prop} {first : Fallible I α} {rest : α → Fallible I β}
    (total : first.Total handler middle state)
    (goes : ∀ value after, middle value after → Program.Surely handler goal (rest value) after) :
    Program.Surely handler goal (first >>= rest : Fallible I β) state := by
  apply Program.Yields.bind total
  rintro _ after ⟨value, rfl, holds⟩
  exact goes value after holds

theorem Total.bind {first : Fallible I α} {rest : α → Fallible I β} (total : first.Total handler middle state)
    (goes : ∀ value after, middle value after → (rest value).Total handler post after) :
    (first >>= rest).Total handler post state :=
  Total.then total goes

theorem Total.pure {value : β} (holds : post value state) : (Pure.pure value : Fallible I β).Total handler post state :=
  .here ⟨_, rfl, value, rfl, holds⟩

theorem Total.ofExcept {result : Except String β} {value : β} (same : result = .ok value) (holds : post value state) :
    (Fallible.ofExcept result : Fallible I β).Total handler post state :=
  .here ⟨_, rfl, value, same, holds⟩

theorem Total.mono {wider : β → σ → Prop} {function : Fallible I β} (total : function.Total handler post state)
    (implies : ∀ value after, post value after → wider value after) : function.Total handler wider state := by
  apply Program.Surely.mono total
  rintro program after ⟨_, ended, value, rfl, holds⟩
  exact ⟨_, ended, value, rfl, implies value after holds⟩

/-- One item after the other, with what holds while some are left. -/
theorem Total.forM (invariant : List α → σ → Prop) {body : α → Fallible I Unit}
    (step : ∀ item rest state, invariant (item :: rest) state →
      (body item).Total handler (fun _ after => invariant rest after) state)
    {items : List α} (holds : invariant items state) :
    (items.forM body).Total handler (fun _ after => invariant [] after) state := by
  induction items generalizing state with
  | nil => exact .pure holds
  | cons item rest ih =>
    apply (step item rest state holds).bind
    intro _ after later
    exact ih later

theorem Total.attempt {function : Fallible I β} (total : function.Total handler post state) :
    function.attempt.Total handler (fun result after => ∃ value, result = .ok value ∧ post value after) state := by
  apply Program.Yields.bind total
  rintro _ after ⟨value, rfl, holds⟩
  exact .here ⟨_, rfl, _, rfl, value, rfl, holds⟩

/-- A call that is answered well. -/
theorem Total.ask {Request : Type} {Value : Request → Type} {request : Request}
    {handler : Handler (.fallible Request Value) σ} {post : Value request → σ → Prop}
    (answered : ∃ value after, handler request state (.ok value) after)
    (well : ∀ reply after, handler request state reply after → ∃ value, reply = .ok value ∧ post value after) :
    (Fallible.ask request).Total handler post state := by
  obtain ⟨value, after, served⟩ := answered
  refine .call ⟨_, after, served⟩ fun reply after served => ?_
  obtain ⟨value, rfl, holds⟩ := well reply after served
  exact .here ⟨_, rfl, value, rfl, holds⟩

end Fallible
end Calls
