import Pos2.Calls.Method
import Pos2.Calls.Safety

/-! Pools with a journal of every answered call and of its caller. What a caller needs
before a call speaks of the journal only, so it stays true while others are served; what
held of an entry when it was written can be read off the journal ever after. -/

namespace Calls

/-- The calls of an interface, each in the name of a caller. -/
abbrev Interface.by (I : Interface) (ν : Type) : Interface := ⟨ν × I.Request, fun call => I.Reply call.2⟩

structure Entry (I : Interface) (ν : Type) where
  caller : ν
  request : I.Request
  reply : I.Reply request

/-- The latest entry comes first. -/
abbrev Journal (I : Interface) (ν : Type) := List (Entry I ν)

namespace Journal
variable {I : Interface} {ν : Type} {journal longer : Journal I ν} {keeps : Entry I ν → Prop}
  {holds happened : Entry I ν → Journal I ν → Prop}

/-- Something happened at an entry, after those before it, and all later entries keep it so. -/
def Since (keeps : Entry I ν → Prop) (happened : Entry I ν → Journal I ν → Prop) : Journal I ν → Prop
  | [] => False
  | entry :: earlier => happened entry earlier ∨ keeps entry ∧ Since keeps happened earlier

def Once (happened : Entry I ν → Journal I ν → Prop) : Journal I ν → Prop := Since (fun _ => True) happened

def Always (holds : Entry I ν → Journal I ν → Prop) : Journal I ν → Prop
  | [] => True
  | entry :: earlier => holds entry earlier ∧ Always holds earlier

theorem Since.once (since : Since keeps happened journal) : Once happened journal := by
  induction journal with
  | nil => exact since
  | cons entry earlier ih => exact since.imp_right fun kept => ⟨trivial, ih kept.2⟩

theorem Since.mono {wider : Entry I ν → Journal I ν → Prop} (since : Since keeps happened journal)
    (implies : ∀ entry earlier, happened entry earlier → wider entry earlier) : Since keeps wider journal := by
  induction journal with
  | nil => exact since
  | cons entry earlier ih => exact since.imp (implies _ _) fun kept => ⟨kept.1, ih kept.2⟩

/-- What always held also held when something happened. -/
theorem Since.always (since : Since keeps happened journal) (always : Always holds journal) :
    Since keeps (fun entry earlier => happened entry earlier ∧ holds entry earlier ∧ Always holds earlier) journal := by
  induction journal with
  | nil => exact since
  | cons entry earlier ih =>
    exact since.imp (fun now => ⟨now, always⟩) fun kept => ⟨kept.1, ih kept.2 always.2⟩

@[simp] theorem once_cons {entry : Entry I ν} :
    Once happened (entry :: journal) ↔ happened entry journal ∨ Once happened journal := by
  simp only [Once, Since, true_and]

theorem Once.here {entry : Entry I ν} (now : happened entry journal) : Once happened (entry :: journal) := .inl now

theorem Once.next {entry : Entry I ν} (once : Once happened journal) : Once happened (entry :: journal) :=
  .inr ⟨trivial, once⟩

theorem Once.later (once : Once happened journal) (grown : journal <:+ longer) : Once happened longer := by
  induction longer with
  | nil => rwa [List.suffix_nil.mp grown] at once
  | cons entry earlier ih =>
    rcases List.suffix_cons_iff.mp grown with same | grown
    · rwa [same] at once
    · exact .next (ih grown)

theorem once_iff : Once happened journal ↔ ∃ entry earlier, entry :: earlier <:+ journal ∧ happened entry earlier := by
  constructor
  · intro once
    induction journal with
    | nil => exact once.elim
    | cons entry earlier ih =>
      rcases once with now | ⟨_, before⟩
      · exact ⟨entry, earlier, List.suffix_refl _, now⟩
      · obtain ⟨found, past, grown, happened⟩ := ih before
        exact ⟨found, past, grown.trans (List.suffix_cons entry earlier), happened⟩
  · rintro ⟨entry, earlier, grown, now⟩
    exact Once.later (Once.here now) grown

theorem Always.before (always : Always holds longer) (grown : journal <:+ longer) : Always holds journal := by
  induction longer with
  | nil => rwa [List.suffix_nil.mp grown]
  | cons entry earlier ih =>
    rcases List.suffix_cons_iff.mp grown with same | grown
    · rwa [same]
    · exact ih always.2 grown

/-- The entry at which something happened, and what held then. -/
theorem Once.found (once : Once happened journal) (always : Always holds journal) :
    ∃ entry earlier, entry :: earlier <:+ journal ∧ happened entry earlier ∧ holds entry earlier ∧
      Always holds earlier := by
  obtain ⟨entry, earlier, grown, now⟩ := once_iff.mp once
  exact ⟨entry, earlier, grown, now, always.before grown⟩

end Journal

/-- A shared state with the journal of what was answered. -/
structure Journaled (I : Interface) (ν σ : Type) where
  state : σ
  journal : Journal I ν

def Handler.journaled {I : Interface} {σ : Type} (ν : Type) (handler : Handler I σ) :
    Handler (I.by ν) (Journaled I ν σ) := fun call before reply after =>
  handler call.2 before.state reply after.state ∧ after.journal = ⟨call.1, call.2, reply⟩ :: before.journal

/-- The program with all its calls in the name of one caller. -/
def Program.as {I : Interface} {ν α : Type} (caller : ν) : Program I α → Program (I.by ν) α
  | .done value => .done value
  | .call request next => .call (caller, request) fun reply => (next reply).as caller

/-- What a caller needs before a call, what fits an answered call, and what holds of
the state with its journal. -/
structure Rules (I : Interface) (ν σ : Type) where
  needs : ν → I.Request → Journal I ν → Prop
  fits : Entry I ν → Journal I ν → Prop
  invariant : σ → Journal I ν → Prop

namespace Rules
variable {I : Interface} {ν σ α β : Type}

def Kept (rules : Rules I ν σ) (entry : Entry I ν) (earlier : Journal I ν) : Prop :=
  rules.needs entry.caller entry.request earlier ∧ rules.fits entry earlier

structure Valid (rules : Rules I ν σ) (shared : Journaled I ν σ) : Prop where
  always : Journal.Always rules.Kept shared.journal
  invariant : rules.invariant shared.state shared.journal

/-- Needs last, and a call that is needed fits and keeps the invariant. -/
structure Lawful (rules : Rules I ν σ) (handler : Handler I σ) : Prop where
  needs : ∀ {caller request journal later}, journal <:+ later →
    rules.needs caller request journal → rules.needs caller request later
  step : ∀ {caller request before journal reply after}, rules.invariant before journal →
    Journal.Always rules.Kept journal → rules.needs caller request journal → handler request before reply after →
    rules.fits ⟨caller, request, reply⟩ journal ∧ rules.invariant after (⟨caller, request, reply⟩ :: journal)

/-- Whatever others do in between, the program makes each of its calls when it has what
it needs for it, and ends as promised. -/
def Asks (rules : Rules I ν σ) (caller : ν) (post : α → Journal I ν → Prop) : Program I α → Journal I ν → Prop
  | .done value, journal => post value journal
  | .call request next, journal =>
    rules.needs caller request journal ∧ ∀ later reply, journal <:+ later → rules.fits ⟨caller, request, reply⟩ later →
      rules.Asks caller post (next reply) (⟨caller, request, reply⟩ :: later)

variable {rules : Rules I ν σ} {caller : ν} {handler : Handler I σ}

theorem Asks.bind {middle : α → Journal I ν → Prop} {post : β → Journal I ν → Prop} {program : Program I α}
    {rest : α → Program I β} {journal : Journal I ν} (first : rules.Asks caller middle program journal)
    (then_ : ∀ value later, journal <:+ later → middle value later → rules.Asks caller post (rest value) later) :
    rules.Asks caller post (program.bind rest) journal := by
  induction program generalizing journal with
  | done value => exact then_ value journal (List.suffix_refl _) first
  | call request next ih =>
    refine ⟨first.1, fun later reply grown fits => ih reply (first.2 later reply grown fits) ?_⟩
    intro value last longer
    exact then_ value last (grown.trans ((List.suffix_cons _ _).trans longer))

theorem Asks.mono {post wider : α → Journal I ν → Prop} {program : Program I α} {journal : Journal I ν}
    (asks : rules.Asks caller post program journal) (implies : ∀ value last, post value last → wider value last) :
    rules.Asks caller wider program journal := by
  induction program generalizing journal with
  | done value => exact implies _ _ asks
  | call request next ih => exact ⟨asks.1, fun later reply grown fits => ih reply (asks.2 later reply grown fits)⟩

/-- The rules as a contract of a pool, with what its tasks leave behind. -/
def contract (rules : Rules I ν σ) (post : α → Journal I ν → Prop) : Contract (I.by ν) (Journaled I ν σ) α where
  valid := rules.Valid
  grows before after := before.journal <:+ after.journal
  waits call shared := rules.needs call.1 call.2 shared.journal
  served _ _ _ _ _ := True
  post value shared := post value shared.journal

def Lasting (post : α → Journal I ν → Prop) : Prop :=
  ∀ value journal later, journal <:+ later → post value journal → post value later

variable {post : α → Journal I ν → Prop}

theorem Lawful.stable (lawful : rules.Lawful handler) (lasting : Lasting post) : (rules.contract post).Stable where
  refl _ := List.suffix_refl _
  trans first second := first.trans second
  waits _ grown needed := lawful.needs grown needed
  post _ grown holds := lasting _ _ _ grown holds

theorem Asks.safe (lawful : rules.Lawful handler) (lasting : Lasting post) {program : Program I α}
    {shared : Journaled I ν σ} {journal : Journal I ν} (asks : rules.Asks caller post program journal)
    (grown : journal <:+ shared.journal) :
    (rules.contract post).Safe (handler.journaled ν) (program.as caller) shared := by
  induction program generalizing shared journal with
  | done value => exact lasting _ _ _ grown asks
  | call request next ih =>
    refine ⟨lawful.needs grown asks.1, fun before reply after valid longer answered => ?_⟩
    obtain ⟨served, written⟩ := answered
    have past := grown.trans longer
    obtain ⟨fits, invariant⟩ := lawful.step valid.invariant valid.always (lawful.needs past asks.1) served
    refine ⟨⟨?_, ?_⟩, ?_, trivial, ih reply (asks.2 before.journal reply past fits) ?_⟩
    · rw [written]
      exact ⟨⟨lawful.needs past asks.1, fits⟩, valid.always⟩
    · rw [written]
      exact invariant
    · exact ⟨[_], written.symm⟩
    · exact ⟨[], written.symm⟩

section
variable {ι : Type} {starts : ι → α → Program (I.by ν) α → Prop}

/-- Only programs that make their calls by the rules are started. -/
def Lawfully (rules : Rules I ν σ) (post : α → Journal I ν → Prop) (starts : ι → α → Program (I.by ν) α → Prop) :
    Prop :=
  ∀ i value program, starts i value program →
    ∃ caller started, program = Program.as caller started ∧ rules.Asks caller post started []

theorem Lawful.begins (lawful : rules.Lawful handler) (lasting : Lasting post) (lawfully : rules.Lawfully post starts) :
    (rules.contract post).Starts (handler.journaled ν) starts := by
  intro i value program shared _ _ started
  obtain ⟨caller, first, rfl, asks⟩ := lawfully i value program started
  exact asks.safe lawful lasting List.nil_suffix

/-- Along every run the rules hold. -/
theorem Lawful.run [DecidableEq ι] (lawful : rules.Lawful handler) (lasting : Lasting post)
    (lawfully : rules.Lawfully post starts) {before after : Pool (I.by ν) (Journaled I ν σ) ι α}
    (valid : rules.Valid before.shared)
    (idle : ∀ i, ∃ value, before.threads i = .done value ∧ post value before.shared.journal)
    (run : Pool.Runs (handler.journaled ν) starts before after) :
    (rules.contract post).Holds (handler.journaled ν) after := by
  have begun : (rules.contract post).Holds (handler.journaled ν) before := by
    refine ⟨valid, fun i => ?_⟩
    obtain ⟨value, ended, holds⟩ := idle i
    rw [ended]
    exact holds
  exact begun.run (lawful.stable lasting) (lawful.begins lasting lawfully) run

end
end Rules

namespace Method
variable {I : Interface} {ν σ ε δ α β : Type}

/-- A method that makes its calls by the rules. Where it panics nothing was promised. -/
def Asks (rules : Rules I ν σ) (caller : ν) (fails : ε → Prop) (post : α → δ → Journal I ν → Prop)
    (method : Method I ε δ α) (own : δ) (journal : Journal I ν) : Prop :=
  rules.Asks caller (fun result last => (∀ value, result.1 = .ok value → post value result.2 last) ∧
    ∀ error, result.1 = .err error → fails error) (method own) journal

variable {rules : Rules I ν σ} {caller : ν} {fails : ε → Prop} {own : δ} {journal : Journal I ν}
  {middle : α → δ → Journal I ν → Prop} {post : β → δ → Journal I ν → Prop}

theorem Asks.mono {wider : β → δ → Journal I ν → Prop} {method : Method I ε δ β}
    (asks : method.Asks rules caller fails post own journal)
    (implies : ∀ value own last, post value own last → wider value own last) :
    method.Asks rules caller fails wider own journal := by
  refine Rules.Asks.mono asks ?_
  rintro ⟨outcome, own'⟩ last ⟨holds, failed⟩
  exact ⟨fun value same => implies _ _ _ (holds value same), failed⟩

theorem Asks.pure {value : β} (holds : post value own journal) :
    (Pure.pure value : Method I ε δ β).Asks rules caller fails post own journal := by
  refine ⟨?_, ?_⟩
  · intro other same
    cases same
    exact holds
  · intro error impossible
    cases impossible

theorem Asks.panic : (Method.ofOutcome .panic : Method I ε δ β).Asks rules caller fails post own journal := by
  refine ⟨?_, ?_⟩
  all_goals
    intro value impossible
    cases impossible

theorem Asks.fail {error : ε} (holds : fails error) :
    (Method.ofOutcome (.err error) : Method I ε δ β).Asks rules caller fails post own journal := by
  refine ⟨?_, ?_⟩
  · intro value impossible
    cases impossible
  · intro other same
    cases same
    exact holds

theorem Asks.bind {method : Method I ε δ α} {rest : α → Method I ε δ β}
    (first : method.Asks rules caller fails middle own journal)
    (then_ : ∀ value own' later, journal <:+ later → middle value own' later →
      (rest value).Asks rules caller fails post own' later) :
    (method >>= rest).Asks rules caller fails post own journal := by
  refine Rules.Asks.bind first ?_
  rintro ⟨outcome, own'⟩ later grown ⟨holds, failed⟩
  cases outcome with
  | ok value => exact then_ value own' later grown (holds value rfl)
  | err error => exact Asks.fail (failed error rfl)
  | panic => exact Asks.panic

end Method
end Calls
