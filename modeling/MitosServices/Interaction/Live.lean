import MitosServices.Interaction.Machine

/-! Programs that some run brings to their end, whatever state they start in: calls have an
answer, and loops a turn that leaves them. -/
namespace Interaction

variable {Mem Op : Type} {Ans : Op → Type} {Env Event : Type} {α β γ : Type}

/-- From every state some run ends, with a value in `R`. -/
def CanEnd (S : Surroundings Mem Op Ans Env) (R : α → Prop) (p : Program Mem Op Ans α) : Prop :=
  ∀ m e, ∃ a m' e', R a ∧ Reaches S ⟨p,m,e⟩ ⟨.ret a,m',e'⟩

def Ends (S : Surroundings Mem Op Ans Env) (p : Program Mem Op Ans α) : Prop :=
  ∀ m e, ∃ a m' e', Reaches S ⟨p,m,e⟩ ⟨.ret a,m',e'⟩

section Rules
variable {S : Surroundings Mem Op Ans Env} {R : α → Prop} {Q : β → Prop}

theorem canEnd_pure {a : α} (there : R a) : CanEnd S R (pure a) := fun m e => ⟨a,m,e,there,.refl⟩

theorem canEnd_perform {op : Op} {R : Ans op → Prop}
    (answered : ∀ m e, ∃ r e', R r ∧ S.replies op m e r e') : CanEnd S R (Program.perform op) := by
  intro m e
  obtain ⟨r,e',there,replied⟩ := answered m e
  exact ⟨r,m,e',there,.single (.reply op _ m e r e' replied)⟩

theorem canEnd_bind {p : Program Mem Op Ans α} {f : α → Program Mem Op Ans β} (first : CanEnd S R p)
    (rest : ∀ a, R a → CanEnd S Q (f a)) : CanEnd S Q (p >>= f) := by
  intro m e
  obtain ⟨a,m₁,e₁,there,run⟩ := first m e
  obtain ⟨b,m₂,e₂,done,later⟩ := rest a there m₁ e₁
  exact ⟨b,m₂,e₂,done,(reaches_bind f run).trans later⟩

theorem canEnd_then {p : Program Mem Op Ans α} {f : α → Program Mem Op Ans β} (first : Ends S p)
    (rest : ∀ a, CanEnd S Q (f a)) : CanEnd S Q (p >>= f) := by
  intro m e
  obtain ⟨a,m₁,e₁,run⟩ := first m e
  obtain ⟨b,m₂,e₂,done,later⟩ := rest a m₁ e₁
  exact ⟨b,m₂,e₂,done,(reaches_bind f run).trans later⟩

theorem ends_pure (a : α) : Ends S (pure a) := fun m e => ⟨a,m,e,.refl⟩

theorem ends_then {p : Program Mem Op Ans α} {f : α → Program Mem Op Ans β} (first : Ends S p)
    (rest : ∀ a, Ends S (f a)) : Ends S (p >>= f) := by
  intro m e
  obtain ⟨a,m₁,e₁,run⟩ := first m e
  obtain ⟨b,m₂,e₂,later⟩ := rest a m₁ e₁
  exact ⟨b,m₂,e₂,(reaches_bind f run).trans later⟩

theorem ends_bind {p : Program Mem Op Ans α} {f : α → Program Mem Op Ans β} (first : CanEnd S R p)
    (rest : ∀ a, R a → Ends S (f a)) : Ends S (p >>= f) := by
  intro m e
  obtain ⟨a,m₁,e₁,there,run⟩ := first m e
  obtain ⟨b,m₂,e₂,later⟩ := rest a there m₁ e₁
  exact ⟨b,m₂,e₂,(reaches_bind f run).trans later⟩

theorem ends_perform {op : Op} (answered : ∀ m e, ∃ r e', S.replies op m e r e') :
    Ends S (Program.perform op) := by
  intro m e
  obtain ⟨r,e',replied⟩ := answered m e
  exact ⟨r,m,e',.single (.reply op _ m e r e' replied)⟩

theorem ends_exchange (act : Mem → α × Mem) : Ends S (Program.exchange act) :=
  fun m e => ⟨(act m).1,(act m).2,e,.single (.access act _ m e)⟩

theorem ends_update (f : Mem → Mem) : Ends S (Program.update f) := ends_exchange fun m => ((),f m)

theorem ends_read : Ends S (Program.read : Program Mem Op Ans Mem) := ends_exchange fun m => (m,m)

theorem ends_provided {c : Bool} {p : Program Mem Op Ans Unit} (inside : Ends S p) :
    Ends S (Program.provided c p) := by
  cases c
  · exact ends_pure ()
  · exact inside

theorem ends_each {xs : List α} {f : α → Program Mem Op Ans Unit}
    (turn : ∀ x ∈ xs, Ends S (f x)) : Ends S (Program.each xs f) := by
  induction xs with
  | nil => exact ends_pure ()
  | cons x xs ih =>
    exact ends_then (turn x (by simp)) fun _ => ih fun y member => turn y (by simp [member])

theorem unroll_eq (body : β → Program Mem Op Ans (β ⊕ γ)) (start : β) :
    Program.unroll body .ret start = (body start).bind (Sum.elim (.loop body · .ret) .ret) := by
  unfold Program.unroll
  congr 1
  funext turn
  cases turn <;> rfl

/-- A loop whose every turn may be its last. -/
theorem ends_repeatFrom {start : β} {body : β → Program Mem Op Ans (β ⊕ γ)}
    (leaves : ∀ b, CanEnd S (fun turn => turn.isRight = true) (body b)) :
    Ends S (Program.repeatFrom start body) := by
  intro m e
  obtain ⟨turn,m',e',last,run⟩ := leaves start m e
  have unrolled := reaches_bind (Sum.elim (.loop body · .ret) .ret) run
  cases turn with
  | inl b => contradiction
  | inr c =>
    refine ⟨c,m',e',.head (.unroll body start .ret m e) ?_⟩
    rw [unroll_eq]
    exact unrolled

end Rules

/-- A step at the same program and memory in wider surroundings. -/
theorem step_wider {S T : Surroundings Mem Op Ans Env}
    (moves : ∀ op m e e', S.moves op m e e' → T.moves op m e e')
    (replies : ∀ op m e r e', S.replies op m e r e' → T.replies op m e r e')
    {s t : State Mem Op Ans Env α} (step : Step S s t) : Step T s t := by
  cases step with
  | access act next m e => exact .access act next m e
  | move op next m e e' moved => exact .move op next m e e' (moves op m e e' moved)
  | reply op next m e r e' replied => exact .reply op next m e r e' (replies op m e r e' replied)
  | unroll body b next m e => exact .unroll body b next m e

theorem reaches_wider {S T : Surroundings Mem Op Ans Env}
    (moves : ∀ op m e e', S.moves op m e e' → T.moves op m e e')
    (replies : ∀ op m e r e', S.replies op m e r e' → T.replies op m e r e')
    {s t : State Mem Op Ans Env α} (run : Reaches S s t) : Reaches T s t := by
  induction run with
  | refl => exact .refl
  | tail _ step ih => exact ih.tail (step_wider moves replies step)

/-- What a condition lets happen, a wider one does. -/
theorem reaches_within {M : Machine Mem Op Ans Env Event} {C D : Condition Mem Op Ans Env Event}
    (within : C.Within D) {s t : State Mem Op Ans Env α}
    (run : Reaches (M.under C).surroundings s t) : Reaches (M.under D).surroundings s t := by
  refine reaches_wider ?_ ?_ run
  · rintro op m e e' ⟨ev,stirred⟩
    obtain ⟨allowed,stirs⟩ := Machine.under_stir_iff.mp stirred
    exact ⟨ev,Machine.under_stir_iff.mpr ⟨within.event ev op m e allowed,stirs⟩⟩
  · intro op m e r e' replied
    obtain ⟨allowed,answers⟩ := Machine.under_answer_iff.mp replied
    exact Machine.under_answer_iff.mpr ⟨within.reply op m e r allowed,answers⟩

theorem reaches_of_under {M : Machine Mem Op Ans Env Event} {C : Condition Mem Op Ans Env Event}
    {s t : State Mem Op Ans Env α} (run : Reaches (M.under C).surroundings s t) :
    Reaches M.surroundings s t := by
  refine reaches_wider ?_ ?_ run
  · rintro op m e e' ⟨ev,stirred⟩
    exact ⟨ev,(Machine.under_stir_iff.mp stirred).2⟩
  · intro op m e r e' replied
    exact (Machine.under_answer_iff.mp replied).2

end Interaction
