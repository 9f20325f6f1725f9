import Pos2.Calls.Fallible

/-! Programs that nobody interferes with. What every call does is guaranteed, and
the program ends in what was promised, or in what holds where it fails. -/

namespace Calls

namespace Program
variable {I : Interface} {σ α β : Type}

def Alone (handler : Handler I σ) (guarantee : σ → σ → Prop) (post : α → σ → Prop) : Program I α → σ → Prop
  | .done value, state => post value state
  | .call request next, state => ∀ reply after, handler request state reply after →
      guarantee state after ∧ (next reply).Alone handler guarantee post after

variable {handler : Handler I σ} {guarantee : σ → σ → Prop} {state : σ}

theorem Alone.bind {middle : α → σ → Prop} {post : β → σ → Prop} {first : Program I α} {rest : α → Program I β}
    (alone : first.Alone handler guarantee middle state)
    (then_ : ∀ value after, middle value after → (rest value).Alone handler guarantee post after) :
    (first.bind rest).Alone handler guarantee post state := by
  induction first generalizing state with
  | done value => exact then_ value state alone
  | call request next ih =>
    intro reply after served
    obtain ⟨guaranteed, later⟩ := alone reply after served
    exact ⟨guaranteed, ih reply later⟩

theorem Alone.mono {post wider : α → σ → Prop} {program : Program I α} (alone : program.Alone handler guarantee post state)
    (implies : ∀ value after, post value after → wider value after) :
    program.Alone handler guarantee wider state := by
  induction program generalizing state with
  | done value => exact implies value state alone
  | call request next ih =>
    intro reply after served
    obtain ⟨guaranteed, later⟩ := alone reply after served
    exact ⟨guaranteed, ih reply later⟩

/-- What every step keeps holds at the end, and every step may be told by what it kept. -/
theorem Alone.keeps {wider : σ → σ → Prop} {invariant : σ → Prop} {post : α → σ → Prop} {program : Program I α}
    (alone : program.Alone handler guarantee post state)
    (step : ∀ before after, invariant before → guarantee before after → wider before after ∧ invariant after)
    (holds : invariant state) :
    program.Alone handler wider (fun value after => invariant after ∧ post value after) state := by
  induction program generalizing state with
  | done value => exact ⟨holds, alone⟩
  | call request next ih =>
    intro reply after served
    obtain ⟨guaranteed, later⟩ := alone reply after served
    obtain ⟨wide, kept⟩ := step state after holds guaranteed
    exact ⟨wide, ih reply later kept⟩

/-- A program whose every call keeps an invariant. -/
theorem Uses.alone {allowed : I.Request → Prop} {ends : α → Prop} {invariant : σ → Prop} {program : Program I α}
    (uses : program.Uses allowed ends)
    (step : ∀ {request before reply after}, allowed request → invariant before → handler request before reply after →
      guarantee before after ∧ invariant after)
    (holds : invariant state) :
    program.Alone handler guarantee (fun value after => ends value ∧ invariant after) state := by
  induction program generalizing state with
  | done value => exact ⟨uses, holds⟩
  | call request next ih =>
    intro reply after served
    obtain ⟨guaranteed, kept⟩ := step uses.1 holds served
    exact ⟨guaranteed, ih reply (uses.2 reply) kept⟩

end Program

namespace Fallible
variable {I : Interface} {σ α β : Type}

/-- What holds at the end of a function, whether it fails or not. -/
def Outcome (lost : σ → Prop) (post : α → σ → Prop) (result : Except String α) (state : σ) : Prop :=
  match result with
  | .ok value => post value state
  | .error _ => lost state

def Alone (handler : Handler I σ) (guarantee : σ → σ → Prop) (lost : σ → Prop) (post : α → σ → Prop)
    (function : Fallible I α) (state : σ) : Prop :=
  Program.Alone handler guarantee (Outcome lost post) function state

variable {handler : Handler I σ} {guarantee : σ → σ → Prop} {lost : σ → Prop} {middle : α → σ → Prop}
  {post : β → σ → Prop} {state : σ}

theorem Alone.bind {first : Fallible I α} {rest : α → Fallible I β} (alone : first.Alone handler guarantee lost middle state)
    (then_ : ∀ value after, middle value after → (rest value).Alone handler guarantee lost post after) :
    (first >>= rest).Alone handler guarantee lost post state := by
  apply Program.Alone.bind alone
  intro result after holds
  cases result with
  | ok value => exact then_ value after holds
  | error error => exact holds

theorem Alone.mono {spent : σ → Prop} {wider : β → σ → Prop} {function : Fallible I β}
    (alone : function.Alone handler guarantee lost post state) (fails : ∀ after, lost after → spent after)
    (implies : ∀ value after, post value after → wider value after) :
    function.Alone handler guarantee spent wider state := by
  apply Program.Alone.mono alone
  intro result after holds
  cases result with
  | ok value => exact implies value after holds
  | error error => exact fails after holds

theorem Alone.weaken {wide : σ → σ → Prop} {spent : σ → Prop} {wider : β → σ → Prop} {function : Fallible I β}
    (alone : function.Alone handler guarantee lost post state) (steps : ∀ before after, guarantee before after → wide before after)
    (fails : ∀ after, lost after → spent after) (implies : ∀ value after, post value after → wider value after) :
    function.Alone handler wide spent wider state := by
  have kept := Program.Alone.keeps alone (fun before after _ went => ⟨steps before after went, trivial⟩)
    (trivial : (fun _ : σ => True) state)
  refine Program.Alone.mono kept ?_
  rintro result after ⟨_, holds⟩
  cases result with
  | ok value => exact implies value after holds
  | error error => exact fails after holds

theorem Alone.ofExcept {result : Except String β} (fails : lost state)
    (holds : ∀ value, result = .ok value → post value state) :
    (Fallible.ofExcept result : Fallible I β).Alone handler guarantee lost post state := by
  cases result with
  | ok value => exact holds value rfl
  | error error => exact fails

theorem Alone.attempt {spent : σ → Prop} {function : Fallible I β}
    (alone : function.Alone handler guarantee lost post state) :
    function.attempt.Alone handler guarantee spent (Outcome lost post) state :=
  Program.Alone.bind alone fun _ _ holds => holds

/-- One item after the other, with what holds while some are left. -/
theorem Alone.forM (invariant : List α → σ → Prop) {body : α → Fallible I Unit}
    (step : ∀ item rest state, invariant (item :: rest) state →
      (body item).Alone handler guarantee lost (fun _ after => invariant rest after) state)
    {items : List α} (holds : invariant items state) :
    (items.forM body).Alone handler guarantee lost (fun _ after => invariant [] after) state := by
  induction items generalizing state with
  | nil => exact holds
  | cons item rest ih =>
    apply (step item rest state holds).bind
    intro _ after later
    exact ih later

/-- Each item on its own, in states in which the same value is found for it. -/
theorem Alone.mapM {invariant : σ → Prop} {found : α → β} {body : α → Fallible I β}
    (step : ∀ item state, invariant state →
      (body item).Alone handler guarantee lost (fun value after => value = found item ∧ invariant after) state)
    {items : List α} (holds : invariant state) :
    (items.mapM body).Alone handler guarantee lost (fun values after => values = items.map found ∧ invariant after) state := by
  induction items generalizing state with
  | nil => exact ⟨rfl, holds⟩
  | cons item rest ih =>
    rw [List.mapM_cons]
    apply (step item state holds).bind
    rintro _ middle ⟨rfl, holds⟩
    apply (ih holds).bind
    rintro _ after ⟨rfl, holds⟩
    exact ⟨rfl, holds⟩

/-- Steps that can be put together, and can be none. -/
structure Course (order : σ → σ → Prop) : Prop where
  trans : ∀ {first middle last}, order first middle → order middle last → order first last
  stays : ∀ {first last}, order first last → order last last

/-- A function that goes along an order. -/
def Along (handler : Handler I σ) (order : σ → σ → Prop) (post : α → σ → Prop) (function : Fallible I α) (state : σ) : Prop :=
  function.Alone handler order (order state) (fun value after => order state after ∧ post value after) state

variable {order : σ → σ → Prop}

theorem Along.bind {first : Fallible I α} {rest : α → Fallible I β}
    (course : Course order) (along : first.Along handler order middle state)
    (then_ : ∀ value after, order state after → middle value after → (rest value).Along handler order post after) :
    (first >>= rest).Along handler order post state := by
  apply Alone.bind along
  intro value after ⟨went, holds⟩
  apply (then_ value after went holds).mono
  · exact fun later goes => course.trans went goes
  · exact fun _ later ⟨goes, holds⟩ => ⟨course.trans went goes, holds⟩

theorem Along.pure {value : β} (here : order state state) (holds : post value state) :
    (Pure.pure value : Fallible I β).Along handler order post state := ⟨here, holds⟩

theorem Along.fail (error : String) (here : order state state) :
    (Fallible.fail error : Fallible I β).Along handler order post state := here

theorem Along.ofExcept {result : Except String β} (here : order state state)
    (holds : ∀ value, result = .ok value → post value state) :
    (Fallible.ofExcept result : Fallible I β).Along handler order post state :=
  Alone.ofExcept here fun value same => ⟨here, holds value same⟩

/-- Where the error is inspected nothing is known but how far it went. -/
theorem Along.attempt {function : Fallible I β} (along : function.Along handler order post state) :
    function.attempt.Along handler order (fun result after => ∀ value, result = .ok value → post value after) state := by
  have tried : function.attempt.Alone handler order (order state) _ state := Alone.attempt along
  apply tried.mono
  · exact fun _ went => went
  · intro result after holds
    cases result with
    | error error => exact ⟨holds, nofun⟩
    | ok value =>
      refine ⟨holds.1, ?_⟩
      intro other same
      cases same
      exact holds.2

theorem Along.mono {wider : β → σ → Prop} {function : Fallible I β} (along : function.Along handler order post state)
    (implies : ∀ value after, order state after → post value after → wider value after) :
    function.Along handler order wider state :=
  Alone.mono along (fun _ went => went) fun value after ⟨went, holds⟩ => ⟨went, implies value after went holds⟩

/-- One item after the other, with what holds while some are left. -/
theorem Along.forM (course : Course order) (invariant : List α → σ → Prop)
    {body : α → Fallible I Unit} (step : ∀ item rest state, invariant (item :: rest) state →
      (body item).Along handler order (fun _ after => invariant rest after) state)
    {items : List α} (here : order state state) (holds : invariant items state) :
    (items.forM body).Along handler order (fun _ after => invariant [] after) state := by
  induction items generalizing state with
  | nil => exact ⟨here, holds⟩
  | cons item rest ih =>
    apply Along.bind course (step item rest state holds)
    intro _ after went later
    exact ih (course.stays went) later

/-- Each item on its own, with what holds of its value later on. -/
theorem Along.mapM (course : Course order) (holds : α → β → σ → Prop)
    (stays : ∀ {item value before after}, order before after → holds item value before → holds item value after)
    {body : α → Fallible I β} (step : ∀ item state, order state state → (body item).Along handler order (holds item) state)
    {items : List α} (here : order state state) :
    (items.mapM body).Along handler order (fun values after => ∀ item ∈ items, ∃ value ∈ values, holds item value after)
      state := by
  induction items generalizing state with
  | nil => exact ⟨here, nofun⟩
  | cons item rest ih =>
    rw [List.mapM_cons]
    apply Along.bind course (step item state here)
    intro value middle went known
    apply Along.bind course (ih (course.stays went))
    intro values after went' later
    refine .pure (course.stays went') fun other member => ?_
    rcases List.mem_cons.mp member with rfl | member
    · exact ⟨value, List.mem_cons_self .., stays went' known⟩
    · obtain ⟨found, among, known⟩ := later other member
      exact ⟨found, List.mem_cons_of_mem _ among, known⟩

theorem Along.keeps {invariant : σ → Prop} {function : Fallible I β} (along : function.Along handler order post state)
    (step : ∀ before after, invariant before → order before after → guarantee before after ∧ invariant after)
    (holds : invariant state) :
    function.Alone handler guarantee invariant (fun value after => invariant after ∧ post value after) state := by
  have run : Program.Alone handler guarantee _ function state := Program.Alone.keeps along step holds
  apply Program.Alone.mono run
  intro result after ⟨kept, outcome⟩
  cases result with
  | ok value => exact ⟨kept, outcome.2⟩
  | error error => exact kept

theorem Uses.alone {allowed : I.Request → Prop} {ends : β → Prop} {invariant : σ → Prop} {function : Fallible I β}
    (uses : function.Uses allowed ends)
    (step : ∀ {request before reply after}, allowed request → invariant before → handler request before reply after →
      guarantee before after ∧ invariant after)
    (holds : invariant state) :
    function.Alone handler guarantee invariant (fun value after => ends value ∧ invariant after) state := by
  have run : Program.Alone handler guarantee _ function state := Program.Uses.alone uses step holds
  apply Program.Alone.mono run
  intro result after ⟨ends, kept⟩
  cases result with
  | ok value => exact ⟨ends value rfl, kept⟩
  | error error => exact kept

end Fallible
end Calls
