import Pos2.Calls.Journal

/-! Functions that end early for reasons of their own, each with an excuse that the
journal must bear out. -/

namespace Calls

/-- A function that returns, or ends early for a reason. -/
abbrev Raising (I : Interface) (ε α : Type) := ExceptT ε (Program I) α

namespace Raising
variable {I : Interface} {ν σ ε δ α β : Type}

def ask (request : I.Request) : Raising I ε (I.Reply request) := ExceptT.lift (Program.request request)

def raise (result : Except ε α) : Raising I ε α := ExceptT.mk (.done result)

/-- What holds at the end, whichever end it is. -/
def Ended (excused : ε → Journal I ν → Prop) (post : α → Journal I ν → Prop) (result : Except ε α) (journal : Journal I ν) : Prop :=
  match result with
  | .ok value => post value journal
  | .error reason => excused reason journal

/-- The function makes its calls by the rules, and where it ends early it is excused. -/
def Asks (rules : Rules I ν σ) (caller : ν) (excused : ε → Journal I ν → Prop) (post : α → Journal I ν → Prop)
    (function : Raising I ε α) (journal : Journal I ν) : Prop :=
  rules.Asks caller (Ended excused post) function.run journal

variable {rules : Rules I ν σ} {caller : ν} {excused : ε → Journal I ν → Prop} {middle : α → Journal I ν → Prop}
  {post : β → Journal I ν → Prop} {journal : Journal I ν}

theorem Asks.pure {value : β} (holds : post value journal) :
    Asks rules caller excused post (Pure.pure value : Raising I ε β) journal := holds

theorem Asks.throw {reason : ε} (holds : excused reason journal) :
    Asks rules caller excused post (throw reason : Raising I ε β) journal := holds

theorem Asks.raise {result : Except ε β} (holds : Ended excused post result journal) :
    Asks rules caller excused post (Raising.raise result) journal := holds

theorem Asks.bind {function : Raising I ε α} {rest : α → Raising I ε β}
    (first : Asks rules caller excused middle function journal)
    (then_ : ∀ value later, journal <:+ later → middle value later → Asks rules caller excused post (rest value) later) :
    Asks rules caller excused post (function >>= rest) journal := by
  refine Rules.Asks.bind first fun result later grown ended => ?_
  cases result with
  | ok value => exact then_ value later grown ended
  | error reason => exact ended

theorem Asks.tryCatch {function : Raising I ε β} {rescue : ε → Raising I ε β} {raised : ε → Journal I ν → Prop}
    (first : Asks rules caller raised post function journal)
    (handles : ∀ reason later, raised reason later → Asks rules caller excused post (rescue reason) later) :
    Asks rules caller excused post (tryCatch function rescue) journal := by
  refine Rules.Asks.bind first fun result later grown ended => ?_
  cases result with
  | ok value => exact ended
  | error reason => exact handles reason later ended

/-- A call, with what it tells of its reply. -/
theorem Asks.ask {request : I.Request} {told : I.Reply request → Journal I ν → Prop}
    (needs : rules.needs caller request journal)
    (tells : ∀ later reply, journal <:+ later → rules.fits ⟨caller, request, reply⟩ later →
      told reply (⟨caller, request, reply⟩ :: later)) :
    Asks rules caller excused told (Raising.ask request : Raising I ε (I.Reply request)) journal :=
  ⟨needs, tells⟩

theorem Asks.mono {wider : β → Journal I ν → Prop} {looser : ε → Journal I ν → Prop} {function : Raising I ε β}
    (asks : Asks rules caller excused post function journal) (excuses : ∀ reason last, excused reason last → looser reason last)
    (implies : ∀ value last, post value last → wider value last) :
    Asks rules caller looser wider function journal := by
  refine Rules.Asks.mono asks fun result last ended => ?_
  cases result with
  | ok value => exact implies value last ended
  | error reason => exact excuses reason last ended

end Raising
end Calls
