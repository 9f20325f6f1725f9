import Pos2.Calls.Cut

/-! Programs of one interface within a program of a larger one. -/

namespace Calls.Program
variable {I J : Interface} {σ τ α β : Type}

/-- The program, with each of its calls made as a call of the larger interface. -/
def embed (request : I.Request → J.Request) (reply : ∀ asked, J.Reply (request asked) → I.Reply asked) :
    Program I α → Program J α
  | .done value => .done value
  | .call asked next => .call (request asked) fun answer => (next (reply asked answer)).embed request reply

variable (request : I.Request → J.Request) (reply : ∀ asked, J.Reply (request asked) → I.Reply asked)

/-- What the calls do on a part of a state they do there within the whole, of which a
frame is kept. -/
theorem Alone.embed (view : τ → σ) (frame : τ → τ → Prop) {small : Handler I σ} {large : Handler J τ}
    {guarantee : σ → σ → Prop} {post : α → σ → Prop} {program : Program I α} {start : τ}
    (trans : ∀ {a b c}, frame a b → frame b c → frame a c)
    (served : ∀ {asked before answer after}, large (request asked) before answer after →
      small asked (view before) (reply asked answer) (view after) ∧ frame before after)
    (alone : program.Alone small guarantee post (view start)) {first : τ} (kept : frame first start) :
    (program.embed request reply).Alone large (fun before after => guarantee (view before) (view after) ∧ frame first after)
      (fun value after => post value (view after) ∧ frame first after) start := by
  induction program generalizing start with
  | done value => exact ⟨alone, kept⟩
  | call asked next ih =>
    intro answer after answered
    obtain ⟨within, stays⟩ := served answered
    obtain ⟨guaranteed, rest⟩ := alone _ _ within
    exact ⟨⟨guaranteed, trans kept stays⟩, ih _ rest (trans kept stays)⟩

end Calls.Program
