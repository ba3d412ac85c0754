import MitosServices.Interaction.Run

/-! Programs put together from given parts. What each part keeps as a whole, and no other update or
call can spoil, such a program keeps: within a part it may be out of order. -/
namespace Interaction

variable {Mem Op : Type} {Ans : Op → Type} {Env α β γ δ : Type}

/-- A program made of `parts`, of updates in `upd` and of calls in `ok`. -/
inductive Program.Made (parts : Program Mem Op Ans δ → Prop) (upd : Mem → Mem → Prop) (ok : Op → Prop) :
    {α : Type} → Program Mem Op Ans α → Prop
  | ret {α : Type} (value : α) : Made parts upd ok (.ret value)
  | access {α β : Type} (act : Mem → β × Mem) (next : β → Program Mem Op Ans α)
      (allowed : ∀ m, upd m (act m).2) (rest : ∀ b, Made parts upd ok (next b)) :
      Made parts upd ok (.access act next)
  | call {α : Type} (op : Op) (next : Ans op → Program Mem Op Ans α) (allowed : ok op)
      (rest : ∀ r, Made parts upd ok (next r)) : Made parts upd ok (.call op next)
  | loop {α β γ : Type} (body : β → Program Mem Op Ans (β ⊕ γ)) (start : β)
      (next : γ → Program Mem Op Ans α) (turn : ∀ b, Made parts upd ok (body b))
      (rest : ∀ c, Made parts upd ok (next c)) : Made parts upd ok (.loop body start next)
  | part {α : Type} (p : Program Mem Op Ans δ) (next : δ → Program Mem Op Ans α) (given : parts p)
      (rest : ∀ d, Made parts upd ok (next d)) : Made parts upd ok (p.bind next)

namespace Program
variable {parts : Program Mem Op Ans δ → Prop} {upd : Mem → Mem → Prop} {ok : Op → Prop}

theorem bind_ret (p : Program Mem Op Ans α) : p.bind .ret = p := by
  induction p with
  | ret value => rfl
  | access act next ih => exact congrArg (Program.access act) (funext ih)
  | call op next ih => exact congrArg (Program.call op) (funext ih)
  | loop body start next _ ih => exact congrArg (Program.loop body start) (funext ih)

theorem made_bind {p : Program Mem Op Ans α} {f : α → Program Mem Op Ans β}
    (first : p.Made parts upd ok) (rest : ∀ a, (f a).Made parts upd ok) :
    (p >>= f).Made parts upd ok := by
  change (p.bind f).Made parts upd ok
  induction first with
  | ret value => exact rest value
  | access act next allowed _ ih => exact .access act _ allowed fun b => ih b rest
  | call op next allowed _ ih => exact .call op _ allowed fun r => ih r rest
  | loop body start next turn _ _ ih => exact .loop body start _ turn fun c => ih c rest
  | part p next given _ ih =>
    rw [Program.bind_assoc]
    exact .part p _ given fun d => ih d rest

theorem made_part {p : Program Mem Op Ans δ} (given : parts p) : p.Made parts upd ok := by
  have made : (p.bind .ret).Made parts upd ok := .part p .ret given fun d => .ret d
  rwa [bind_ret] at made

theorem made_of_uses {p : Program Mem Op Ans α} (uses : p.Uses upd ok) : p.Made parts upd ok := by
  induction p with
  | ret value => exact .ret value
  | access act next ih => exact .access act next uses.1 fun b => ih b (uses.2 b)
  | call op next ih => exact .call op next uses.1 fun r => ih r (uses.2 r)
  | loop body start next ihBody ih =>
    exact .loop body start next (fun b => ihBody b (uses.1 b)) fun c => ih c (uses.2 c)

theorem made_mono {upd' : Mem → Mem → Prop} {ok' : Op → Prop} {p : Program Mem Op Ans α}
    (made : p.Made parts upd ok) (updates : ∀ m m', upd m m' → upd' m m') (calls : ∀ op, ok op → ok' op) :
    p.Made parts upd' ok' := by
  induction made with
  | ret value => exact .ret value
  | access act next allowed _ ih => exact .access act next (fun m => updates _ _ (allowed m)) ih
  | call op next allowed _ ih => exact .call op next (calls op allowed) ih
  | loop body start next _ _ ihBody ih => exact .loop body start next ihBody ih
  | part p next given _ ih => exact .part p next given ih

theorem made_pure (a : α) : (pure a : Program Mem Op Ans α).Made parts upd ok := .ret a

theorem made_perform {op : Op} (allowed : ok op) :
    (perform op : Program Mem Op Ans _).Made parts upd ok := made_of_uses (uses_perform allowed)

theorem made_repeatFrom {start : β} {body : β → Program Mem Op Ans (β ⊕ γ)}
    (turn : ∀ b, (body b).Made parts upd ok) : (repeatFrom start body).Made parts upd ok :=
  .loop body start .ret turn fun c => .ret c

theorem made_provided {c : Bool} {p : Program Mem Op Ans Unit} (inside : p.Made parts upd ok) :
    (provided c p).Made parts upd ok := by
  cases c
  · exact .ret ()
  · exact inside

theorem made_each {xs : List α} {f : α → Program Mem Op Ans Unit}
    (turn : ∀ x ∈ xs, (f x).Made parts upd ok) : (each xs f).Made parts upd ok := by
  induction xs with
  | nil => exact .ret ()
  | cons x xs ih =>
    exact made_bind (turn x (by simp)) fun _ => ih fun y member => turn y (by simp [member])

/-- The frame rule for a program made of parts: each part has to keep the property as a whole. -/
theorem wp_made {S : Surroundings Mem Op Ans Env} {A : Option Op → Mem → Env → Prop}
    {P : Mem → Env → Prop} {p : Program Mem Op Ans α} (frame : S.Frame A upd ok P)
    (keeps : ∀ p, parts p → ∀ m e, P m e → p.wp S A (fun _ => P) m e) (made : p.Made parts upd ok)
    {m : Mem} {e : Env} (start : P m e) : p.wp S A (fun _ => P) m e := by
  induction made generalizing m e with
  | ret value => exact start
  | access act next allowed _ ih =>
    exact ⟨frame.holds none m e (by simp) start,ih _ (frame.updates _ _ _ (allowed m) start)⟩
  | call op next allowed _ ih =>
    intro e₁ drifted
    have pending : P m e₁ :=
      drifts_keep (fun e e' moved => frame.moves op m e e' allowed moved) drifted start
    refine ⟨frame.holds (some op) m e₁ (by simpa using allowed) pending,fun r e₂ replied => ?_⟩
    exact ih r (frame.replies op m e₁ r e₂ allowed replied pending)
  | loop body b next turn _ ihBody ih =>
    refine ⟨fun _ => P,start,fun b m e inv => ⟨frame.holds none m e (by simp) inv,?_⟩⟩
    refine wp_mono (ihBody b inv) fun turn m e done => ?_
    cases turn with
    | inl b => exact done
    | inr c => exact ih c done
  | part p next given _ ih =>
    refine (wp_bind_iff _ _ _ _ _).mpr (wp_mono (keeps p given m e start) ?_)
    exact fun d m e kept => ih d kept

end Program
end Interaction
