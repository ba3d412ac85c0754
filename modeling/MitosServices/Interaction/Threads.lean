import MitosServices.Interaction.Run

/-! Two programs side by side, each with a memory of its own. While one waits for an answer the other may
go on, and what that does counts among the moves of the surroundings of the first. -/
namespace Interaction

variable {Mem Op Mem' Op' : Type} {Ans : Op → Type} {Ans' : Op' → Type} {Env Abs Phase : Type} {α β : Type}

structure Threads (Mem Op : Type) (Ans : Op → Type) (Mem' Op' : Type) (Ans' : Op' → Type) (Env α β : Type) where
  program : Program Mem Op Ans α
  mem : Mem
  other : Program Mem' Op' Ans' β
  otherMem : Mem'
  env : Env

namespace Threads

/-- `S` is what the first program meets but for the other, and `T` what the other meets but for the first. -/
inductive Step (S : Surroundings Mem Op Ans Env) (T : Surroundings Mem' Op' Ans' Env) :
    Threads Mem Op Ans Mem' Op' Ans' Env α β → Threads Mem Op Ans Mem' Op' Ans' Env α β → Prop
  | first {p p' : Program Mem Op Ans α} {m m' : Mem} {e e' : Env} (q : Program Mem' Op' Ans' β) (n : Mem')
      (step : Interaction.Step S ⟨p,m,e⟩ ⟨p',m',e'⟩) : Step S T ⟨p,m,q,n,e⟩ ⟨p',m',q,n,e'⟩
  | other (op : Op) (next : Ans op → Program Mem Op Ans α) (m : Mem) {q q' : Program Mem' Op' Ans' β} {n n' : Mem'}
      {e e' : Env} (step : Interaction.Step T ⟨q,n,e⟩ ⟨q',n',e'⟩) :
      Step S T ⟨.call op next,m,q,n,e⟩ ⟨.call op next,m,q',n',e'⟩

def Reaches (S : Surroundings Mem Op Ans Env) (T : Surroundings Mem' Op' Ans' Env) :
    Threads Mem Op Ans Mem' Op' Ans' Env α β → Threads Mem Op Ans Mem' Op' Ans' Env α β → Prop :=
  Relation.ReflTransGen (Step S T)

section Alone
variable {S : Surroundings Mem Op Ans Env} {T : Surroundings Mem' Op' Ans' Env}

/-- The first program may go on alone. -/
theorem reaches_first {s t : State Mem Op Ans Env α} (q : Program Mem' Op' Ans' β) (n : Mem')
    (run : Interaction.Reaches S s t) : Reaches S T ⟨s.program,s.mem,q,n,s.env⟩ ⟨t.program,t.mem,q,n,t.env⟩ := by
  induction run with
  | refl => exact .refl
  | tail _ last ih => exact ih.tail (.first q n last)

/-- The other may go on alone while the first waits. -/
theorem reaches_other {s t : State Mem' Op' Ans' Env β} {op : Op} {p : Program Mem Op Ans α} (m : Mem)
    (waits : p.next? = some op) (run : Interaction.Reaches T s t) :
    Reaches S T ⟨p,m,s.program,s.mem,s.env⟩ ⟨p,m,t.program,t.mem,t.env⟩ := by
  cases p with
  | call op next =>
    induction run with
    | refl => exact .refl
    | tail _ last ih => exact ih.tail (.other op next m last)
  | _ => contradiction

end Alone
end Threads

def Surroundings.beside (S : Surroundings Mem Op Ans Env) (T : Surroundings Mem' Op' Ans' Env) :
    Surroundings Mem Op Ans Env where
  moves op m e e' := S.moves op m e e' ∨ (∃ op' n, T.moves op' n e e') ∨ ∃ op' n r, T.replies op' n e r e'
  replies := S.replies

section Rules
variable {S : Surroundings Mem Op Ans Env} {T : Surroundings Mem' Op' Ans' Env} {A : Option Op → Mem → Env → Prop}
  {Q : α → Mem → Env → Prop}

/-- What is shown of a program with another beside it holds whatever the other is. -/
theorem wp_beside_step {t t' : Threads Mem Op Ans Mem' Op' Ans' Env α β} (step : Threads.Step S T t t')
    (safe : t.program.wp (S.beside T) A Q t.mem t.env) : t'.program.wp (S.beside T) A Q t'.mem t'.env := by
  cases step with
  | @first p p' m m' e e' q n step =>
    have widened : Step (S.beside T) ⟨p,m,e⟩ ⟨p',m',e'⟩ := by
      cases step with
      | access act next => exact .access act next m e
      | move op next _ _ _ moved => exact .move op next m e e' (.inl moved)
      | reply op next _ _ r _ replied => exact .reply op next m e r e' replied
      | unroll body b next => exact .unroll body b next m e
    exact wp_step widened safe
  | @other op next m q q' n n' e e' step =>
    have stays : e' = e ∨ (S.beside T).moves op m e e' := by
      cases step with
      | access act next => exact .inl rfl
      | move op' next' _ _ _ moved => exact .inr (.inr (.inl ⟨op',n,moved⟩))
      | reply op' next' _ _ r _ replied => exact .inr (.inr (.inr ⟨op',n,r,replied⟩))
      | unroll body b next => exact .inl rfl
    rcases stays with rfl | moved
    · exact safe
    · exact fun e₁ drifted => safe e₁ (.head moved drifted)

theorem reaches_drifts {S' : Surroundings Mem Op Ans Abs} {op : Op} {next : Ans op → Program Mem Op Ans α}
    {m : Mem} {a a' : Abs} (drifted : S'.Drifts op m a a') :
    Reaches S' ⟨.call op next,m,a⟩ ⟨.call op next,m,a'⟩ := by
  induction drifted with
  | refl => exact .refl
  | tail _ moved ih => exact ih.tail (.move op next m _ _ moved)

end Rules

/-- What two programs do together, seen from the first: the other keeps to the conduct `P`, at each phase of
which `I` ties the state they share to the one that `S'` speaks of, and all it does is a drift of `S'`. -/
structure Conducted (S : Surroundings Mem Op Ans Env) (T : Surroundings Mem' Op' Ans' Env)
    (S' : Surroundings Mem Op Ans Abs) (P : Surroundings Mem' Op' Ans' Phase) (A : Option Op → Mem → Env → Prop)
    (B : Option Op' → Mem' → Phase → Prop) (I : Phase → Env → Abs → Prop) : Prop where
  moves : ∀ op m e e' phase a, S.moves op m e e' → I phase e a → ∃ a', S'.Drifts op m a a' ∧ I phase e' a'
  replies : ∀ op m e r e' phase a, A (some op) m e → S.replies op m e r e' → I phase e a →
    ∃ a', S'.replies op m a r a' ∧ I phase e' a'
  stirs : ∀ op m op' n e e' phase a, T.moves op' n e e' → I phase e a → ∃ a', S'.Drifts op m a a' ∧ I phase e' a'
  calls : ∀ op m op' n e r e' phase a, B (some op') n phase → T.replies op' n e r e' → I phase e a →
    ∃ phase' a', P.replies op' n phase r phase' ∧ S'.Drifts op m a a' ∧ I phase' e' a'

namespace Conducted
variable {S : Surroundings Mem Op Ans Env} {T : Surroundings Mem' Op' Ans' Env} {S' : Surroundings Mem Op Ans Abs}
  {P : Surroundings Mem' Op' Ans' Phase} {A : Option Op → Mem → Env → Prop}
  {B : Option Op' → Mem' → Phase → Prop} {I : Phase → Env → Abs → Prop} {Q : α → Mem → Env → Prop}
  {R : β → Mem' → Phase → Prop}

def Abreast (P : Surroundings Mem' Op' Ans' Phase) (B : Option Op' → Mem' → Phase → Prop)
    (I : Phase → Env → Abs → Prop) (R : β → Mem' → Phase → Prop) (q : Program Mem' Op' Ans' β) (n : Mem')
    (e : Env) (a : Abs) : Prop :=
  ∃ phase, q.wp P B R n phase ∧ I phase e a

theorem step {t t' : Threads Mem Op Ans Mem' Op' Ans' Env α β} (conducted : Conducted S T S' P A B I)
    (step : Threads.Step S T t t') (safe : t.program.wp (S.beside T) A Q t.mem t.env) {a : Abs}
    (abreast : Abreast P B I R t.other t.otherMem t.env a) :
    ∃ a', Reaches S' ⟨t.program,t.mem,a⟩ ⟨t'.program,t'.mem,a'⟩ ∧ Abreast P B I R t'.other t'.otherMem t'.env a' := by
  obtain ⟨phase,keeps,tied⟩ := abreast
  cases step with
  | @first p p' m m' e e' q n step =>
    cases step with
    | access act next => exact ⟨a,.single (.access act next m a),phase,keeps,tied⟩
    | move op next _ _ _ moved =>
      obtain ⟨a',drifted,tied⟩ := conducted.moves op m e e' phase a moved tied
      exact ⟨a',reaches_drifts drifted,phase,keeps,tied⟩
    | reply op next _ _ r _ replied =>
      obtain ⟨a',answered,tied⟩ := conducted.replies op m e r e' phase a (safe e .refl).1 replied tied
      exact ⟨a',.single (.reply op next m a r a' answered),phase,keeps,tied⟩
    | unroll body b next => exact ⟨a,.single (.unroll body b next m a),phase,keeps,tied⟩
  | @other op next m q q' n n' e e' step =>
    cases step with
    | access act next' => exact ⟨a,.refl,phase,wp_step (.access act next' n phase) keeps,tied⟩
    | move op' next' _ _ _ moved =>
      obtain ⟨a',drifted,tied⟩ := conducted.stirs op m op' n e e' phase a moved tied
      exact ⟨a',reaches_drifts drifted,phase,keeps,tied⟩
    | reply op' next' _ _ r _ replied =>
      have allowed := (keeps phase .refl).1
      obtain ⟨phase',a',answered,drifted,tied⟩ := conducted.calls op m op' n e r e' phase a allowed replied tied
      exact ⟨a',reaches_drifts drifted,phase',(keeps phase .refl).2 r phase' answered,tied⟩
    | unroll body b next' => exact ⟨a,.refl,phase,wp_step (.unroll body b next' n phase) keeps,tied⟩

/-- Every run of the two is a run of the first alone, among the surroundings that stand for the other as well. -/
theorem reaches {t t' : Threads Mem Op Ans Mem' Op' Ans' Env α β} (conducted : Conducted S T S' P A B I)
    (run : Threads.Reaches S T t t') (safe : t.program.wp (S.beside T) A Q t.mem t.env) {a : Abs}
    (abreast : Abreast P B I R t.other t.otherMem t.env a) :
    ∃ a', Reaches S' ⟨t.program,t.mem,a⟩ ⟨t'.program,t'.mem,a'⟩ ∧ Abreast P B I R t'.other t'.otherMem t'.env a' := by
  have both : t'.program.wp (S.beside T) A Q t'.mem t'.env ∧ ∃ a', Reaches S' ⟨t.program,t.mem,a⟩
      ⟨t'.program,t'.mem,a'⟩ ∧ Abreast P B I R t'.other t'.otherMem t'.env a' := by
    induction run with
    | refl => exact ⟨safe,a,.refl,abreast⟩
    | tail _ last ih =>
      obtain ⟨safe,a₁,reached,abreast⟩ := ih
      obtain ⟨a₂,onward,abreast⟩ := conducted.step last safe abreast
      exact ⟨wp_beside_step last safe,a₂,reached.trans onward,abreast⟩
  exact both.2

end Conducted
end Interaction
