import MitosServices.Interaction.Program

/-! The step relation of programs among their surroundings, and what the preconditions say
about every state a run reaches. -/
namespace Interaction

variable {Mem Op : Type} {Ans : Op → Type} {Env : Type} {α β γ : Type}

structure State (Mem Op : Type) (Ans : Op → Type) (Env α : Type) where
  program : Program Mem Op Ans α
  mem : Mem
  env : Env

inductive Step (S : Surroundings Mem Op Ans Env) :
    State Mem Op Ans Env α → State Mem Op Ans Env α → Prop
  | access {β : Type} (act : Mem → β × Mem) (next : β → Program Mem Op Ans α) (m : Mem) (e : Env) :
      Step S ⟨.access act next,m,e⟩ ⟨next (act m).1,(act m).2,e⟩
  | move (op : Op) (next : Ans op → Program Mem Op Ans α) (m : Mem) (e e' : Env)
      (moved : S.moves op m e e') : Step S ⟨.call op next,m,e⟩ ⟨.call op next,m,e'⟩
  | reply (op : Op) (next : Ans op → Program Mem Op Ans α) (m : Mem) (e : Env) (r : Ans op) (e' : Env)
      (replied : S.replies op m e r e') : Step S ⟨.call op next,m,e⟩ ⟨next r,m,e'⟩
  | unroll {β γ : Type} (body : β → Program Mem Op Ans (β ⊕ γ)) (b : β)
      (next : γ → Program Mem Op Ans α) (m : Mem) (e : Env) :
      Step S ⟨.loop body b next,m,e⟩ ⟨.unroll body next b,m,e⟩

def Reaches (S : Surroundings Mem Op Ans Env) :
    State Mem Op Ans Env α → State Mem Op Ans Env α → Prop :=
  Relation.ReflTransGen (Step S)

section Sequence
variable {S : Surroundings Mem Op Ans Env}

theorem Program.bind_assoc (p : Program Mem Op Ans α) (f : α → Program Mem Op Ans β)
    (g : β → Program Mem Op Ans γ) : (p.bind f).bind g = p.bind fun a => (f a).bind g := by
  induction p with
  | ret value => rfl
  | access act next ih => exact congrArg (Program.access act) (funext fun b => ih b f)
  | call op next ih => exact congrArg (Program.call op) (funext fun r => ih r f)
  | loop body start next _ ih => exact congrArg (Program.loop body start) (funext fun c => ih c f)

theorem step_bind {s t : State Mem Op Ans Env α} (f : α → Program Mem Op Ans β)
    (step : Step S s t) :
    Step S ⟨s.program.bind f,s.mem,s.env⟩ ⟨t.program.bind f,t.mem,t.env⟩ := by
  cases step with
  | access act next m e => exact .access act _ m e
  | move op next m e e' moved => exact .move op _ m e e' moved
  | reply op next m e r e' replied => exact .reply op _ m e r e' replied
  | unroll body b next m e =>
    have turn : (Program.unroll body next b).bind f =
        Program.unroll body (fun c => (next c).bind f) b := by
      rw [Program.unroll,Program.unroll,Program.bind_assoc]
      congr 1
      funext turn
      cases turn <;> rfl
    simp only [turn]
    exact .unroll body b _ m e

/-- A run of a program is the beginning of a run of what it is part of. -/
theorem reaches_bind {s t : State Mem Op Ans Env α} (f : α → Program Mem Op Ans β)
    (run : Reaches S s t) :
    Reaches S ⟨s.program >>= f,s.mem,s.env⟩ ⟨t.program >>= f,t.mem,t.env⟩ := by
  induction run with
  | refl => exact .refl
  | tail _ step ih => exact ih.tail (step_bind f step)

/-- A call that is answered. -/
theorem reaches_call {m : Mem} {e : Env} (op : Op) (e' : Env) {r : Ans op}
    {f : Ans op → Program Mem Op Ans β} (replied : S.replies op m e r e') :
    Reaches S ⟨Program.perform op >>= f,m,e⟩ ⟨f r,m,e'⟩ :=
  .single (.reply op _ m e r e' replied)

end Sequence

section Soundness
variable {S : Surroundings Mem Op Ans Env} {A : Option Op → Mem → Env → Prop}
  {Q : α → Mem → Env → Prop}

theorem wp_step {s t : State Mem Op Ans Env α} (step : Step S s t)
    (h : s.program.wp S A Q s.mem s.env) : t.program.wp S A Q t.mem t.env := by
  cases step with
  | access act next m e => exact h.2
  | move op next m e e' moved => exact fun e₁ drifted => h e₁ (.head moved drifted)
  | reply op next m e r e' replied => exact (h e .refl).2 r e' replied
  | unroll body b next m e =>
    obtain ⟨I,initial,keep⟩ := h
    refine (Program.wp_bind_iff _ _ Q m e).mpr (Program.wp_mono (keep b m e initial).2 ?_)
    intro turn m e done
    cases turn with
    | inl b => exact ⟨I,done,keep⟩
    | inr c => exact done

theorem wp_reaches {s t : State Mem Op Ans Env α} (run : Reaches S s t)
    (h : s.program.wp S A Q s.mem s.env) : t.program.wp S A Q t.mem t.env := by
  induction run with
  | refl => exact h
  | tail _ step ih => exact wp_step step ih

/-- A state satisfies what the precondition of its program promises there. -/
theorem wp_here {p : Program Mem Op Ans α} {m : Mem} {e : Env} (h : p.wp S A Q m e)
    (final : ∀ a m e, Q a m e → A none m e) : A p.next? m e := by
  cases p with
  | ret value => exact final _ _ _ h
  | access act next => exact h.1
  | call op next => exact (h e .refl).1
  | loop body b next =>
    obtain ⟨I,initial,keep⟩ := h
    exact (keep b m e initial).1

/-- Every state a run reaches satisfies what its program's precondition promises there. -/
theorem wp_everywhere {s t : State Mem Op Ans Env α} (run : Reaches S s t)
    (h : s.program.wp S A Q s.mem s.env) (final : ∀ a m e, Q a m e → A none m e) :
    A t.program.next? t.mem t.env := wp_here (wp_reaches run h) final

theorem wp_returns {s : State Mem Op Ans Env α} {a : α} {m : Mem} {e : Env}
    (run : Reaches S s ⟨.ret a,m,e⟩) (h : s.program.wp S A Q s.mem s.env) : Q a m e :=
  wp_reaches run h

end Soundness

end Interaction
