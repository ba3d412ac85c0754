import MitosServices.Interaction.Program

/-! Programs whose calls are carried out by other programs. -/
namespace Interaction

variable {Mem Op Op' : Type} {Ans : Op → Type} {Ans' : Op' → Type} {Env : Type}

namespace Program

/-- Every call is carried out by the program the handler has for it. -/
def interpret (h : (op : Op) → Program Mem Op' Ans' (Ans op)) :
    {α : Type} → Program Mem Op Ans α → Program Mem Op' Ans' α
  | _, .ret value => .ret value
  | _, .access act next => .access act fun b => (next b).interpret h
  | _, .call op next => (h op).bind fun r => (next r).interpret h
  | _, .loop body start next => .loop (fun b => (body b).interpret h) start fun c => (next c).interpret h

variable {h : (op : Op) → Program Mem Op' Ans' (Ans op)} {S : Surroundings Mem Op Ans Env}
  {S' : Surroundings Mem Op' Ans' Env} {A : Option Op → Mem → Env → Prop}
  {A' : Option Op' → Mem → Env → Prop}

/-- A handler that comes to whatever the calls themselves would come to may carry them out anywhere. -/
theorem wp_interpret (idle : ∀ m e, A none m e → A' none m e)
    (handles : ∀ op (Q : Ans op → Mem → Env → Prop) m e, (perform op).wp S A Q m e → (h op).wp S' A' Q m e)
    {α : Type} {p : Program Mem Op Ans α} {Q : α → Mem → Env → Prop} {m : Mem} {e : Env}
    (direct : p.wp S A Q m e) : (p.interpret h).wp S' A' Q m e := by
  induction p generalizing m e with
  | ret value => exact direct
  | access act next ih => exact ⟨idle m e direct.1,ih _ direct.2⟩
  | call op next ih =>
    have carried := handles op (fun r m e => (next r).wp S A Q m e) m e direct
    exact (wp_bind_iff _ _ _ _ _).mpr (wp_mono carried fun r m e rest => ih r rest)
  | loop body start next ihBody ih =>
    obtain ⟨I,initial,keep⟩ := direct
    refine ⟨I,initial,fun b m e inv => ⟨idle m e (keep b m e inv).1,?_⟩⟩
    refine wp_mono (ihBody b (keep b m e inv).2) ?_
    intro turn m e done
    cases turn with
    | inl b => exact done
    | inr c => exact ih c done

end Program
end Interaction
