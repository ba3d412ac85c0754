import MitosServices.Interaction.Live
import Mathlib.Order.WellFounded

/-! Programs that come to their end whatever the surroundings do, and programs that go on by taking
turn after turn. The surroundings may move while a call is pending; what is counted is the program's own
steps. -/
namespace Interaction

variable {Mem Op : Type} {Ans : Op → Type} {Env : Type} {α β γ : Type}

/-- A step of the program itself; before an answer the surroundings may have moved. -/
inductive Advances (S : Surroundings Mem Op Ans Env) :
    State Mem Op Ans Env α → State Mem Op Ans Env α → Prop
  | access {β : Type} (act : Mem → β × Mem) (next : β → Program Mem Op Ans α) (m : Mem) (e : Env) :
      Advances S ⟨.access act next,m,e⟩ ⟨next (act m).1,(act m).2,e⟩
  | reply (op : Op) (next : Ans op → Program Mem Op Ans α) (m : Mem) (e e₁ : Env) (r : Ans op) (e₂ : Env)
      (drifted : S.Drifts op m e e₁) (replied : S.replies op m e₁ r e₂) :
      Advances S ⟨.call op next,m,e⟩ ⟨next r,m,e₂⟩
  | unroll {β γ : Type} (body : β → Program Mem Op Ans (β ⊕ γ)) (b : β)
      (next : γ → Program Mem Op Ans α) (m : Mem) (e : Env) :
      Advances S ⟨.loop body b next,m,e⟩ ⟨.unroll body next b,m,e⟩

/-- No run of the program from here takes infinitely many steps of its own. -/
def Halts (S : Surroundings Mem Op Ans Env) (p : Program Mem Op Ans α) (m : Mem) (e : Env) : Prop :=
  Acc (fun t s => Advances S s t) ⟨p,m,e⟩

def Halting (S : Surroundings Mem Op Ans Env) (p : Program Mem Op Ans α) : Prop := ∀ m e, Halts S p m e

variable {S : Surroundings Mem Op Ans Env} {s t : State Mem Op Ans Env α} {m : Mem} {e : Env}

theorem advances_reaches (step : Advances S s t) : Reaches S s t := by
  cases step with
  | access act next m e => exact .single (.access act next m e)
  | unroll body b next m e => exact .single (.unroll body b next m e)
  | reply op next m e e₁ r e₂ drifted replied =>
    have moved : Reaches S ⟨.call op next,m,e⟩ ⟨.call op next,m,e₁⟩ :=
      drifted.lift (fun e' => (⟨.call op next,m,e'⟩ : State Mem Op Ans Env α)) fun a b => .move op next m a b
    exact moved.tail (.reply op next m e₁ r e₂ replied)

theorem unroll_bind (body : β → Program Mem Op Ans (β ⊕ γ)) (next : γ → Program Mem Op Ans α)
    {δ : Type} (f : α → Program Mem Op Ans δ) (b : β) :
    (Program.unroll body next b).bind f = Program.unroll body (fun c => (next c).bind f) b := by
  rw [Program.unroll,Program.unroll,Program.bind_assoc]
  congr 1
  funext turn
  cases turn <;> rfl

/-- A step of a sequence is one of its first part, as long as that has not returned. -/
theorem advances_bind {p : Program Mem Op Ans α} {f : α → Program Mem Op Ans β} {t : State Mem Op Ans Env β}
    (step : Advances S ⟨p.bind f,m,e⟩ t) :
    (∃ a, p = .ret a ∧ Advances S ⟨f a,m,e⟩ t) ∨
      ∃ p' m' e', Advances S ⟨p,m,e⟩ ⟨p',m',e'⟩ ∧ t = ⟨p'.bind f,m',e'⟩ := by
  cases p with
  | ret a => exact .inl ⟨a,rfl,step⟩
  | access act next =>
    cases step
    exact .inr ⟨_,_,_,.access act next m e,rfl⟩
  | call op next =>
    cases step with
    | reply _ _ _ _ e₁ r e₂ drifted replied => exact .inr ⟨_,_,_,.reply op next m e e₁ r e₂ drifted replied,rfl⟩
  | loop body b next =>
    cases step
    refine .inr ⟨_,_,_,.unroll body b next m e,?_⟩
    rw [unroll_bind]

theorem halts_pure (a : α) : Halts S (pure a) m e := .intro _ fun _ step => nomatch step

theorem halts_bind {p : Program Mem Op Ans α} {f : α → Program Mem Op Ans β} (first : Halts S p m e)
    (rest : ∀ a m' e', Reaches S ⟨p,m,e⟩ ⟨.ret a,m',e'⟩ → Halts S (f a) m' e') : Halts S (p >>= f) m e := by
  change Halts S (p.bind f) m e
  generalize start : (⟨p,m,e⟩ : State Mem Op Ans Env α) = s at first rest
  unfold Halts at first
  rw [start] at first
  induction first generalizing p m e with
  | intro s _ ih =>
    subst start
    refine .intro _ fun t step => ?_
    rcases advances_bind step with ⟨a,rfl,went⟩ | ⟨p',m',e',went,rfl⟩
    · exact (rest a m e .refl).inv went
    · exact ih ⟨p',m',e'⟩ went rfl fun a m e run => rest a m e ((advances_reaches went).trans run)

section Halting
variable {p : Program Mem Op Ans α}

theorem halting_pure (a : α) : Halting S (pure a) := fun _ _ => halts_pure a

theorem halting_bind {f : α → Program Mem Op Ans β} (first : Halting S p) (rest : ∀ a, Halting S (f a)) :
    Halting S (p >>= f) := fun m e => halts_bind (first m e) fun a m' e' _ => rest a m' e'

theorem halting_perform (op : Op) : Halting S (Program.perform op) := by
  refine fun m e => .intro _ fun t step => ?_
  cases step
  exact halts_pure _

theorem halting_exchange (act : Mem → β × Mem) : Halting S (Program.exchange act) := by
  refine fun m e => .intro _ fun t step => ?_
  cases step
  exact halts_pure _

theorem halting_update (f : Mem → Mem) : Halting S (Program.update f) := halting_exchange fun m => ((),f m)

theorem halting_read : Halting S (Program.read : Program Mem Op Ans Mem) := halting_exchange fun m => (m,m)

theorem halting_provided {c : Bool} {p : Program Mem Op Ans Unit} (inside : Halting S p) :
    Halting S (Program.provided c p) := by
  cases c
  · exact halting_pure ()
  · exact inside

theorem halting_each {xs : List α} {f : α → Program Mem Op Ans Unit} (turn : ∀ x ∈ xs, Halting S (f x)) :
    Halting S (Program.each xs f) := by
  induction xs with
  | nil => exact halting_pure ()
  | cons x xs ih =>
    exact halting_bind (turn x (by simp)) fun _ => ih fun y member => turn y (by simp [member])

/-- A loop whose turns halt and, as long as it goes on, bring a measure down. -/
theorem halting_repeatFrom {start : β} {body : β → Program Mem Op Ans (β ⊕ γ)} (measure : β → Mem → Env → Nat)
    (turns : ∀ b, Halting S (body b))
    (falls : ∀ b m e b' m' e', Reaches S ⟨body b,m,e⟩ ⟨.ret (.inl b'),m',e'⟩ → measure b' m' e' < measure b m e) :
    Halting S (Program.repeatFrom start body) := by
  intro m e
  induction bound : measure start m e using Nat.strong_induction_on generalizing start m e with
  | _ n ih =>
    subst bound
    refine .intro _ fun t step => ?_
    cases step
    refine halts_bind (turns start m e) fun turn m' e' run => ?_
    cases turn with
    | inl b => exact ih _ (falls start m e b m' e' run) m' e' rfl
    | inr c => exact halts_pure c

end Halting

section Recurrence
variable {f : ℕ → State Mem Op Ans Env α}

def Endless (S : Surroundings Mem Op Ans Env) (f : ℕ → State Mem Op Ans Env α) : Prop :=
  ∀ n, Advances S (f n) (f (n+1))

theorem halts_iff : Halts S s.program s.mem s.env ↔ ¬ ∃ f, f 0 = s ∧ Endless S f := by
  rw [← not_iff_not,not_not]
  exact not_acc_iff_exists_descending_chain

variable {δ : Type} {body : δ → β → Program Mem Op Ans (β ⊕ γ)} {stop : Op}

def Stops (stop : Op) (S : Surroundings Mem Op Ans Env) (g : δ → Program Mem Op Ans α) : Prop :=
  ∀ d m e t, Advances S ⟨g d,m,e⟩ t → t.program.next? = some stop

theorem next_bind {p : Program Mem Op Ans α} {op : Op} (g : α → Program Mem Op Ans β) (next : p.next? = some op) :
    (p.bind g).next? = some op := by
  cases p with
  | call op' rest => exact next
  | _ => contradiction

theorem reaches_stop {q : Program Mem Op Ans δ} {g : δ → Program Mem Op Ans α} (stops : Stops stop S g)
    (run : Endless S f) (halts : Halts S q m e) (n : ℕ) (now : f n = ⟨q.bind g,m,e⟩) :
    ∃ k, n ≤ k ∧ (f k).program.next? = some stop := by
  generalize start : (⟨q,m,e⟩ : State Mem Op Ans Env δ) = s at halts
  unfold Halts at halts
  rw [start] at halts
  induction halts generalizing q m e n with
  | intro s _ ih =>
    subst start
    have step := run n
    rw [now] at step
    rcases advances_bind step with ⟨d,rfl,went⟩ | ⟨q',m',e',went,next⟩
    · exact ⟨n+1,Nat.le_succ n,stops d m e _ went⟩
    · obtain ⟨k,later,there⟩ := ih ⟨q',m',e'⟩ went (n+1) next rfl
      exact ⟨k,(Nat.le_succ n).trans later,there⟩

inductive Under (S : Surroundings Mem Op Ans Env) (body : δ → β → Program Mem Op Ans (β ⊕ γ)) (b₀ : β) :
    State Mem Op Ans Env γ → Prop
  | before {q : Program Mem Op Ans δ} {m : Mem} {e : Env} (halts : Halts S q m e) :
      Under S body b₀ ⟨q.bind fun d => .loop (body d) b₀ .ret,m,e⟩
  | turn {d : δ} {q : Program Mem Op Ans (β ⊕ γ)} {m : Mem} {e : Env} (halts : Halts S q m e) :
      Under S body b₀ ⟨q.bind (Sum.elim (.loop (body d) · .ret) .ret),m,e⟩

theorem advances_loop {body : β → Program Mem Op Ans (β ⊕ γ)} {b : β} {t : State Mem Op Ans Env γ}
    (step : Advances S ⟨.loop body b .ret,m,e⟩ t) : t = ⟨(body b).bind (Sum.elim (.loop body · .ret) .ret),m,e⟩ := by
  cases step
  rw [unroll_eq]

theorem under_advances {b₀ : β} {s t : State Mem Op Ans Env γ} (turns : ∀ d b, Halting S (body d b))
    (under : Under S body b₀ s) (step : Advances S s t) : Under S body b₀ t := by
  cases under with
  | before halts =>
    rcases advances_bind step with ⟨d,rfl,went⟩ | ⟨q',m',e',went,rfl⟩
    · rw [advances_loop went]
      exact .turn (turns d b₀ _ _)
    · exact .before (halts.inv went)
  | @turn d q m e halts =>
    rcases advances_bind step with ⟨turn,rfl,went⟩ | ⟨q',m',e',went,rfl⟩
    · cases turn with
      | inl b =>
        rw [advances_loop went]
        exact .turn (turns d b _ _)
      | inr c => cases went
    · exact .turn (halts.inv went)

/-- A run without end of a program that halts up to its loop and in each of its turns takes turns without
end. -/
theorem turns_without_end {f : ℕ → State Mem Op Ans Env γ} {pre : Program Mem Op Ans δ} {b₀ : β} (first : Halting S pre)
    (turns : ∀ d b, Halting S (body d b)) (begins : ∀ d b, (body d b).next? = some stop) (run : Endless S f)
    (start : f 0 = ⟨pre >>= fun d => Program.repeatFrom b₀ (body d),m,e⟩) (n : ℕ) :
    ∃ k, n ≤ k ∧ (f k).program.next? = some stop := by
  have under : ∀ n, Under S body b₀ (f n) := by
    intro n
    induction n with
    | zero =>
      rw [start]
      exact .before (first m e)
    | succ n ih => exact under_advances turns ih (run n)
  have begun : ∀ d b m e (t : State Mem Op Ans Env γ), Advances S ⟨.loop (body d) b .ret,m,e⟩ t →
      t.program.next? = some stop := by
    intro d b m e t step
    rw [advances_loop step]
    exact next_bind _ (begins d b)
  have here := under n
  generalize now : f n = s at here
  cases here with
  | before halts => exact reaches_stop (fun d => begun d b₀) run halts n now
  | turn halts =>
    refine reaches_stop ?_ run halts n now
    intro turn m e t step
    cases turn with
    | inl b => exact begun _ b m e t step
    | inr c => cases step

end Recurrence

section Witness

theorem advancing_of_reaches {a : α} {m : Mem} {e : Env} (run : Reaches S s ⟨.ret a,m,e⟩) :
    Relation.ReflTransGen (Advances S) s ⟨.ret a,m,e⟩ := by
  induction run using Relation.ReflTransGen.head_induction_on with
  | refl => exact .refl
  | head step _ ih =>
    cases step with
    | access act next m e => exact .head (.access act next m e) ih
    | unroll body b next m e => exact .head (.unroll body b next m e) ih
    | reply op next m e r e' replied => exact .head (.reply op next m e e r e' .refl replied) ih
    | move op next m e e' moved =>
      -- the move is one of those before the answer
      rcases Relation.ReflTransGen.cases_head ih with same | ⟨_,went,rest⟩
      · cases same
      · cases went with
        | reply _ _ _ _ e₁ r e₂ drifted replied => exact .head (.reply op next m e e₁ r e₂ (.head moved drifted) replied) rest

theorem advances_lift {f : α → Program Mem Op Ans β} (step : Advances S s t) :
    Advances S ⟨s.program.bind f,s.mem,s.env⟩ ⟨t.program.bind f,t.mem,t.env⟩ := by
  cases step with
  | access act next m e => exact .access act _ m e
  | reply op next m e e₁ r e₂ drifted replied => exact .reply op _ m e e₁ r e₂ drifted replied
  | unroll body b next m e =>
    simp only [unroll_bind]
    exact .unroll body b _ m e

/-- Where every call has an answer, what halts has a run to its end. -/
theorem ends_of_halting {p : Program Mem Op Ans α} (answers : ∀ op m e, ∃ r e', S.replies op m e r e')
    (halting : Halting S p) : Ends S p := by
  intro m e
  have halts := halting m e
  clear halting
  generalize start : (⟨p,m,e⟩ : State Mem Op Ans Env α) = s at halts
  unfold Halts at halts
  rw [start] at halts
  induction halts generalizing p m e with
  | intro s _ ih =>
    subst start
    cases p with
    | ret a => exact ⟨a,m,e,.refl⟩
    | access act next =>
      obtain ⟨a,m',e',run⟩ := ih _ (.access act next m e) _ _ rfl
      exact ⟨a,m',e',.head (.access act next m e) run⟩
    | loop body b next =>
      obtain ⟨a,m',e',run⟩ := ih _ (.unroll body b next m e) _ _ rfl
      exact ⟨a,m',e',.head (.unroll body b next m e) run⟩
    | call op next =>
      obtain ⟨r,e₁,replied⟩ := answers op m e
      obtain ⟨a,m',e',run⟩ := ih _ (.reply op next m e e r e₁ .refl replied) _ _ rfl
      exact ⟨a,m',e',.head (.reply op next m e r e₁ replied) run⟩

/-- What comes around again and again has a run without end. -/
theorem endless_of_recurring {P : State Mem Op Ans Env α → Prop}
    (again : ∀ s, P s → ∃ t, Relation.TransGen (Advances S) s t ∧ P t)
    (path : Relation.ReflTransGen (Advances S) s t) (there : P t) : ∃ f, f 0 = s ∧ Endless S f := by
  by_contra none
  have halts := halts_iff.mpr none
  have accessible : Acc (fun t s => Advances S s t) t := by
    clear none there
    induction path with
    | refl => exact halts
    | tail _ step ih => exact ih.inv step
  have recurring : ∀ s, Acc (Relation.TransGen fun t s => Advances S s t) s → ¬ P s := by
    intro s acc
    induction acc with
    | intro s _ ih =>
      intro here
      obtain ⟨t,went,there⟩ := again s here
      exact ih t (Relation.transGen_swap.mpr went) there
  exact recurring t accessible.transGen there

/-- A loop that can be gone around from every state can be gone around for ever. -/
theorem endless_loop {pre : Program Mem Op Ans γ} {body : γ → β → Program Mem Op Ans (β ⊕ α)} {b₀ : β}
    (ends : Ends S pre) (again : ∀ c b, CanEnd S (fun turn => turn.isLeft = true) (body c b)) (m : Mem) (e : Env) :
    ∃ f, f 0 = ⟨pre >>= fun c => Program.repeatFrom b₀ (body c),m,e⟩ ∧ Endless S f := by
  obtain ⟨c,m₁,e₁,run⟩ := ends m e
  have path := (advancing_of_reaches run).lift
    (fun s => (⟨s.program.bind fun c => Program.repeatFrom b₀ (body c),s.mem,s.env⟩ : State Mem Op Ans Env α))
    fun _ _ => advances_lift
  refine endless_of_recurring (P := fun s => ∃ b, s.program = .loop (body c) b .ret) ?_ path ⟨b₀,rfl⟩
  rintro ⟨_,m,e⟩ ⟨b,rfl⟩
  obtain ⟨turn,m',e',left,turned⟩ := again c b m e
  cases turn with
  | inr _ => contradiction
  | inl b' =>
    have around := (advancing_of_reaches turned).lift
      (fun s => (⟨s.program.bind (Sum.elim (.loop (body c) · .ret) .ret),s.mem,s.env⟩ : State Mem Op Ans Env α))
      fun _ _ => advances_lift
    refine ⟨⟨.loop (body c) b' .ret,m',e'⟩,.head' (.unroll (body c) b .ret m e) ?_,b',rfl⟩
    rw [unroll_eq]
    exact around

end Witness
end Interaction
