import Mathlib.Logic.Relation

/-! Programs over a private memory that put calls to surroundings they do not control.
While a call is pending the surroundings move on their own and then choose the answer, so a
precondition ranges over every such move and every answer; loops are met by an invariant. -/
namespace Interaction

inductive Program (Mem Op : Type) (Ans : Op → Type) : Type → Type 1
  | ret {α : Type} (value : α) : Program Mem Op Ans α
  | access {α β : Type} (act : Mem → β × Mem) (next : β → Program Mem Op Ans α) :
      Program Mem Op Ans α
  | call {α : Type} (op : Op) (next : Ans op → Program Mem Op Ans α) : Program Mem Op Ans α
  | loop {α β γ : Type} (body : β → Program Mem Op Ans (β ⊕ γ)) (start : β)
      (next : γ → Program Mem Op Ans α) : Program Mem Op Ans α

variable {Mem Op : Type} {Ans : Op → Type} {Env : Type} {α β γ : Type}

namespace Program

def bind : Program Mem Op Ans α → (α → Program Mem Op Ans β) → Program Mem Op Ans β
  | .ret value, f => f value
  | .access act next, f => .access act fun b => (next b).bind f
  | .call op next, f => .call op fun r => (next r).bind f
  | .loop body start next, f => .loop body start fun c => (next c).bind f

instance : Monad (Program Mem Op Ans) where
  pure := .ret
  bind := bind

/-- The call whose answer the program is waiting for, if it is at one. -/
def next? : Program Mem Op Ans α → Option Op
  | .call op _ => some op
  | _ => none

def returned : Program Mem Op Ans α → Bool
  | .ret _ => true
  | _ => false

def unroll (body : β → Program Mem Op Ans (β ⊕ γ)) (next : γ → Program Mem Op Ans α) (b : β) :
    Program Mem Op Ans α :=
  (body b).bind fun turn => match turn with
    | .inl b => .loop body b next
    | .inr c => next c

def perform (op : Op) : Program Mem Op Ans (Ans op) := .call op .ret

def exchange (act : Mem → β × Mem) : Program Mem Op Ans β := .access act .ret

def read : Program Mem Op Ans Mem := .access (fun m => (m,m)) .ret

def update (f : Mem → Mem) : Program Mem Op Ans Unit := .access (fun m => ((),f m)) .ret

def repeatFrom (start : β) (body : β → Program Mem Op Ans (β ⊕ γ)) : Program Mem Op Ans γ :=
  .loop body start .ret

def provided (c : Bool) (p : Program Mem Op Ans Unit) : Program Mem Op Ans Unit :=
  if c then p else pure ()

def each : List α → (α → Program Mem Op Ans Unit) → Program Mem Op Ans Unit
  | [], _ => pure ()
  | x :: xs, f => do f x; each xs f

end Program

/-- What a program may meet: how the surroundings move while a call is pending, and which
answers they may give to it, with the state they are left in. -/
structure Surroundings (Mem Op : Type) (Ans : Op → Type) (Env : Type) where
  moves : Op → Mem → Env → Env → Prop
  replies : (op : Op) → Mem → Env → Ans op → Env → Prop

/-- The surroundings `e'` after any number of moves of their own. -/
def Surroundings.Drifts (S : Surroundings Mem Op Ans Env) (op : Op) (m : Mem) : Env → Env → Prop :=
  Relation.ReflTransGen (S.moves op m)

namespace Program
variable (S : Surroundings Mem Op Ans Env) (A : Option Op → Mem → Env → Prop)

/-- The weakest precondition under which `A` holds at every point of the run and `Q` at its end. -/
def wp : {α : Type} → Program Mem Op Ans α → (α → Mem → Env → Prop) → Mem → Env → Prop
  | _, .ret value, Q, m, e => Q value m e
  | _, .access act next, Q, m, e => A none m e ∧ (next (act m).1).wp Q (act m).2 e
  | _, .call op next, Q, m, e => ∀ e₁, S.Drifts op m e e₁ →
      A (some op) m e₁ ∧ ∀ r e₂, S.replies op m e₁ r e₂ → (next r).wp Q m e₂
  | _, .loop body start next, Q, m, e => ∃ I : _ → Mem → Env → Prop, I start m e ∧
      ∀ b m e, I b m e → A none m e ∧ (body b).wp (fun turn m e => match turn with
        | .inl b => I b m e
        | .inr c => (next c).wp Q m e) m e

variable {S A}

theorem wp_weaken {B : Option Op → Mem → Env → Prop} {p : Program Mem Op Ans α}
    {Q R : α → Mem → Env → Prop} {m : Mem} {e : Env} (h : p.wp S A Q m e)
    (weaker : ∀ op m e, A op m e → B op m e) (implies : ∀ a m e, Q a m e → R a m e) :
    p.wp S B R m e := by
  induction p generalizing m e with
  | ret value => exact implies _ _ _ h
  | access act next ih => exact ⟨weaker _ _ _ h.1,ih _ h.2 implies⟩
  | call op next ih =>
    intro e₁ drifted
    obtain ⟨holds,rest⟩ := h e₁ drifted
    exact ⟨weaker _ _ _ holds,fun r e₂ replied => ih r (rest r e₂ replied) implies⟩
  | loop body start next ihBody ih =>
    obtain ⟨I,initial,keep⟩ := h
    refine ⟨I,initial,fun b m e inv => ⟨weaker _ _ _ (keep b m e inv).1,?_⟩⟩
    refine ihBody b (keep b m e inv).2 ?_
    intro turn m e done
    cases turn with
    | inl b => exact done
    | inr c => exact ih c done implies

theorem wp_mono {p : Program Mem Op Ans α} {Q R : α → Mem → Env → Prop} {m : Mem} {e : Env}
    (h : p.wp S A Q m e) (implies : ∀ a m e, Q a m e → R a m e) : p.wp S A R m e :=
  wp_weaken h (fun _ _ _ holds => holds) implies

/-- Two facts about one program hold of it together. -/
theorem wp_and {B : Option Op → Mem → Env → Prop} {p : Program Mem Op Ans α}
    {Q R : α → Mem → Env → Prop} {m : Mem} {e : Env} (left : p.wp S A Q m e)
    (right : p.wp S B R m e) :
    p.wp S (fun op m e => A op m e ∧ B op m e) (fun a m e => Q a m e ∧ R a m e) m e := by
  induction p generalizing m e with
  | ret value => exact ⟨left,right⟩
  | access act next ih => exact ⟨⟨left.1,right.1⟩,ih _ left.2 right.2⟩
  | call op next ih =>
    intro e₁ drifted
    obtain ⟨holdsLeft,restLeft⟩ := left e₁ drifted
    obtain ⟨holdsRight,restRight⟩ := right e₁ drifted
    exact ⟨⟨holdsLeft,holdsRight⟩,fun r e₂ replied =>
      ih r (restLeft r e₂ replied) (restRight r e₂ replied)⟩
  | loop body start next ihBody ih =>
    obtain ⟨I,initialLeft,keepLeft⟩ := left
    obtain ⟨J,initialRight,keepRight⟩ := right
    refine ⟨fun b m e => I b m e ∧ J b m e,⟨initialLeft,initialRight⟩,fun b m e inv => ?_⟩
    obtain ⟨holdsLeft,turnLeft⟩ := keepLeft b m e inv.1
    obtain ⟨holdsRight,turnRight⟩ := keepRight b m e inv.2
    refine ⟨⟨holdsLeft,holdsRight⟩,wp_mono (ihBody b turnLeft turnRight) ?_⟩
    intro turn m e done
    cases turn with
    | inl b => exact done
    | inr c => exact ih c done.1 done.2

theorem wp_bind_iff (p : Program Mem Op Ans α) (f : α → Program Mem Op Ans β)
    (Q : β → Mem → Env → Prop) (m : Mem) (e : Env) :
    (p.bind f).wp S A Q m e ↔ p.wp S A (fun a m e => (f a).wp S A Q m e) m e := by
  induction p generalizing m e with
  | ret value => exact Iff.rfl
  | access act next ih => simp only [bind,wp,ih]
  | call op next ih => simp only [bind,wp,ih]
  | loop body start next ihBody ih => simp only [bind,wp,ih]

@[simp] theorem wp_bind (p : Program Mem Op Ans α) (f : α → Program Mem Op Ans β)
    (Q : β → Mem → Env → Prop) (m : Mem) (e : Env) :
    (p >>= f).wp S A Q m e ↔ p.wp S A (fun a m e => (f a).wp S A Q m e) m e :=
  wp_bind_iff p f Q m e

@[simp] theorem wp_pure (a : α) (Q : α → Mem → Env → Prop) (m : Mem) (e : Env) :
    (pure a : Program Mem Op Ans α).wp S A Q m e ↔ Q a m e := Iff.rfl

@[simp] theorem wp_exchange (act : Mem → β × Mem) (Q : β → Mem → Env → Prop) (m : Mem) (e : Env) :
    (exchange act : Program Mem Op Ans β).wp S A Q m e ↔ A none m e ∧ Q (act m).1 (act m).2 e :=
  Iff.rfl

@[simp] theorem wp_read (Q : Mem → Mem → Env → Prop) (m : Mem) (e : Env) :
    (read : Program Mem Op Ans Mem).wp S A Q m e ↔ A none m e ∧ Q m m e := Iff.rfl

@[simp] theorem wp_update (f : Mem → Mem) (Q : Unit → Mem → Env → Prop) (m : Mem) (e : Env) :
    (update f : Program Mem Op Ans Unit).wp S A Q m e ↔ A none m e ∧ Q () (f m) e := Iff.rfl

theorem wp_bind_exchange {act : Mem → γ × Mem} {f : γ → Program Mem Op Ans β}
    {Q : β → Mem → Env → Prop} {m : Mem} {e : Env} (holds : A none m e)
    (rest : (f (act m).1).wp S A Q (act m).2 e) : (exchange act >>= f).wp S A Q m e :=
  (wp_bind _ _ _ _ _).mpr ⟨holds,rest⟩

theorem wp_bind_read {f : Mem → Program Mem Op Ans β} {Q : β → Mem → Env → Prop} {m : Mem} {e : Env}
    (holds : A none m e) (rest : (f m).wp S A Q m e) : (read >>= f).wp S A Q m e :=
  (wp_bind _ _ _ _ _).mpr ⟨holds,rest⟩

theorem wp_bind_update {act : Mem → Mem} {f : Unit → Program Mem Op Ans β}
    {Q : β → Mem → Env → Prop} {m : Mem} {e : Env} (holds : A none m e)
    (rest : (f ()).wp S A Q (act m) e) : (update act >>= f).wp S A Q m e :=
  (wp_bind _ _ _ _ _).mpr ⟨holds,rest⟩

/-- A program, then what follows it. -/
theorem wp_then {p : Program Mem Op Ans α} {f : α → Program Mem Op Ans β} {R : α → Mem → Env → Prop}
    {Q : β → Mem → Env → Prop} {m : Mem} {e : Env} (first : p.wp S A R m e)
    (rest : ∀ a m e, R a m e → (f a).wp S A Q m e) : (p >>= f).wp S A Q m e :=
  (wp_bind _ _ _ _ _).mpr (wp_mono first rest)

theorem wp_perform_iff (op : Op) (Q : Ans op → Mem → Env → Prop) (m : Mem) (e : Env) :
    (perform op : Program Mem Op Ans _).wp S A Q m e ↔ ∀ e₁, S.Drifts op m e e₁ →
      A (some op) m e₁ ∧ ∀ r e₂, S.replies op m e₁ r e₂ → Q r m e₂ := Iff.rfl

/-- What holds while a call is pending: a property no move of the surroundings can spoil. -/
theorem drifts_keep {op : Op} {m : Mem} {P : Env → Prop}
    (stable : ∀ e e', S.moves op m e e' → P e → P e') {e e' : Env} (drifted : S.Drifts op m e e')
    (start : P e) : P e' := by
  induction drifted with
  | refl => exact start
  | tail _ moved ih => exact stable _ _ moved ih

theorem wp_perform {op : Op} {m : Mem} {P : Env → Prop} {Q : Ans op → Mem → Env → Prop} {e : Env}
    (start : P e) (stable : ∀ e e', S.moves op m e e' → P e → P e')
    (holds : ∀ e, P e → A (some op) m e)
    (answered : ∀ e r e', P e → S.replies op m e r e' → Q r m e') :
    (perform op : Program Mem Op Ans _).wp S A Q m e := by
  intro e₁ drifted
  have pending := drifts_keep stable drifted start
  exact ⟨holds e₁ pending,fun r e₂ replied => answered e₁ r e₂ pending replied⟩

theorem wp_repeatFrom {start : β} {body : β → Program Mem Op Ans (β ⊕ γ)}
    {Q : γ → Mem → Env → Prop} {m : Mem} {e : Env} (I : β → Mem → Env → Prop)
    (initial : I start m e) (holds : ∀ b m e, I b m e → A none m e)
    (keep : ∀ b m e, I b m e → (body b).wp S A (fun turn m e => match turn with
      | .inl b => I b m e
      | .inr c => Q c m e) m e) :
    (repeatFrom start body).wp S A Q m e :=
  ⟨I,initial,fun b m e inv => ⟨holds b m e inv,keep b m e inv⟩⟩

@[simp] theorem wp_provided (c : Bool) (p : Program Mem Op Ans Unit) (Q : Unit → Mem → Env → Prop)
    (m : Mem) (e : Env) :
    (provided c p).wp S A Q m e ↔ if c then p.wp S A Q m e else Q () m e := by
  cases c <;> exact Iff.rfl

theorem wp_each {xs : List α} {f : α → Program Mem Op Ans Unit} {m : Mem} {e : Env}
    (I : List α → Mem → Env → Prop) (initial : I xs m e)
    (keep : ∀ x rest m e, I (x::rest) m e → (f x).wp S A (fun _ => I rest) m e) :
    (each xs f).wp S A (fun _ => I []) m e := by
  induction xs generalizing m e with
  | nil => exact initial
  | cons x xs ih =>
    refine (wp_bind _ _ _ _ _).mpr ?_
    exact wp_mono (keep x xs m e initial) fun _ m e rest => ih rest

end Program

section Uses
variable (upd : Mem → Mem → Prop) (ok : Op → Prop)

/-- Which memory updates and which calls occur anywhere in a program. -/
def Program.Uses : {α : Type} → Program Mem Op Ans α → Prop
  | _, .ret _ => True
  | _, .access act next => (∀ m, upd m (act m).2) ∧ ∀ b, (next b).Uses
  | _, .call op next => ok op ∧ ∀ r, (next r).Uses
  | _, .loop body _ next => (∀ b, (body b).Uses) ∧ ∀ c, (next c).Uses

variable {upd ok}
namespace Program

theorem uses_bind {p : Program Mem Op Ans α} {f : α → Program Mem Op Ans β}
    (first : p.Uses upd ok) (rest : ∀ a, (f a).Uses upd ok) : (p >>= f).Uses upd ok := by
  change (p.bind f).Uses upd ok
  induction p with
  | ret value => exact rest value
  | access act next ih => exact ⟨first.1,fun b => ih b (first.2 b) rest⟩
  | call op next ih => exact ⟨first.1,fun r => ih r (first.2 r) rest⟩
  | loop body start next _ ih => exact ⟨first.1,fun c => ih c (first.2 c) rest⟩

theorem uses_pure (a : α) : (pure a : Program Mem Op Ans α).Uses upd ok := trivial

theorem uses_perform {op : Op} (allowed : ok op) :
    (perform op : Program Mem Op Ans _).Uses upd ok := ⟨allowed,fun _ => trivial⟩

theorem uses_exchange {act : Mem → β × Mem} (allowed : ∀ m, upd m (act m).2) :
    (exchange act : Program Mem Op Ans β).Uses upd ok := ⟨allowed,fun _ => trivial⟩

theorem uses_read (same : ∀ m, upd m m) : (read : Program Mem Op Ans Mem).Uses upd ok :=
  ⟨same,fun _ => trivial⟩

theorem uses_update {f : Mem → Mem} (allowed : ∀ m, upd m (f m)) :
    (update f : Program Mem Op Ans Unit).Uses upd ok := ⟨allowed,fun _ => trivial⟩

theorem uses_repeatFrom {start : β} {body : β → Program Mem Op Ans (β ⊕ γ)}
    (turn : ∀ b, (body b).Uses upd ok) : (repeatFrom start body).Uses upd ok :=
  ⟨turn,fun _ => trivial⟩

theorem uses_provided {c : Bool} {p : Program Mem Op Ans Unit} (inside : p.Uses upd ok) :
    (provided c p).Uses upd ok := by
  cases c
  · exact trivial
  · exact inside

theorem uses_each {xs : List α} {f : α → Program Mem Op Ans Unit}
    (turn : ∀ x ∈ xs, (f x).Uses upd ok) : (each xs f).Uses upd ok := by
  induction xs with
  | nil => exact trivial
  | cons x xs ih =>
    exact uses_bind (turn x (by simp)) fun _ => ih fun y member => turn y (by simp [member])

theorem uses_mono {upd' : Mem → Mem → Prop} {ok' : Op → Prop} {p : Program Mem Op Ans α}
    (h : p.Uses upd ok) (wider : ∀ m m', upd m m' → upd' m m') (more : ∀ op, ok op → ok' op) :
    p.Uses upd' ok' := by
  induction p with
  | ret value => exact trivial
  | access act next ih => exact ⟨fun m => wider _ _ (h.1 m),fun b => ih b (h.2 b)⟩
  | call op next ih => exact ⟨more _ h.1,fun r => ih r (h.2 r)⟩
  | loop body start next ihBody ih => exact ⟨fun b => ihBody b (h.1 b),fun c => ih c (h.2 c)⟩

/-- What two footprints both allow. -/
theorem uses_and {upd' : Mem → Mem → Prop} {ok' : Op → Prop} {p : Program Mem Op Ans α}
    (left : p.Uses upd ok) (right : p.Uses upd' ok') :
    p.Uses (fun m m' => upd m m' ∧ upd' m m') fun op => ok op ∧ ok' op := by
  induction p with
  | ret value => exact trivial
  | access act next ih => exact ⟨fun m => ⟨left.1 m,right.1 m⟩,fun b => ih b (left.2 b) (right.2 b)⟩
  | call op next ih => exact ⟨⟨left.1,right.1⟩,fun r => ih r (left.2 r) (right.2 r)⟩
  | loop body start next ihBody ih =>
    exact ⟨fun b => ihBody b (left.1 b) (right.1 b),fun c => ih c (left.2 c) (right.2 c)⟩

theorem uses_any (p : Program Mem Op Ans α) : p.Uses (fun _ _ => True) fun _ => True := by
  induction p with
  | ret value => exact trivial
  | access act next ih => exact ⟨fun _ => trivial,fun b => ih b⟩
  | call op next ih => exact ⟨trivial,fun r => ih r⟩
  | loop body start next ihBody ih => exact ⟨fun b => ihBody b,fun c => ih c⟩

end Program

/-- What no update in `upd` and nothing that happens around the calls in `ok` can spoil, and
which gives what is asked of the states on the way. -/
structure Surroundings.Frame (S : Surroundings Mem Op Ans Env) (A : Option Op → Mem → Env → Prop)
    (upd : Mem → Mem → Prop) (ok : Op → Prop) (P : Mem → Env → Prop) : Prop where
  updates : ∀ m m' e, upd m m' → P m e → P m' e
  moves : ∀ op m e e', ok op → S.moves op m e e' → P m e → P m e'
  replies : ∀ op m e r e', ok op → S.replies op m e r e' → P m e → P m e'
  holds : ∀ op m e, (∀ o ∈ op, ok o) → P m e → A op m e

theorem Surroundings.Frame.narrow {S : Surroundings Mem Op Ans Env} {A : Option Op → Mem → Env → Prop}
    {P : Mem → Env → Prop} {ok' : Op → Prop} (frame : S.Frame A upd ok P) (fewer : ∀ op, ok' op → ok op) :
    S.Frame A upd ok' P where
  updates := frame.updates
  moves op m e e' allowed := frame.moves op m e e' (fewer op allowed)
  replies op m e r e' allowed := frame.replies op m e r e' (fewer op allowed)
  holds op m e allowed := frame.holds op m e fun o member => fewer o (allowed o member)

namespace Program
variable {S : Surroundings Mem Op Ans Env} {A : Option Op → Mem → Env → Prop} {P : Mem → Env → Prop}

/-- The frame rule: what a program cannot spoil is kept throughout. -/
theorem wp_frame {p : Program Mem Op Ans α} (frame : S.Frame A upd ok P) (uses : p.Uses upd ok)
    {m : Mem} {e : Env} (start : P m e) : p.wp S A (fun _ => P) m e := by
  induction p generalizing m e with
  | ret value => exact start
  | access act next ih =>
    exact ⟨frame.holds none m e (by simp) start,ih _ (uses.2 _) (frame.updates _ _ _ (uses.1 m) start)⟩
  | call op next ih =>
    intro e₁ drifted
    have pending : P m e₁ :=
      drifts_keep (fun e e' moved => frame.moves op m e e' uses.1 moved) drifted start
    refine ⟨frame.holds (some op) m e₁ (by simpa using uses.1) pending,fun r e₂ replied => ?_⟩
    exact ih r (uses.2 r) (frame.replies op m e₁ r e₂ uses.1 replied pending)
  | loop body b next ihBody ih =>
    refine ⟨fun _ => P,start,fun b m e inv => ⟨frame.holds none m e (by simp) inv,?_⟩⟩
    refine wp_mono (ihBody b (uses.1 b) inv) ?_
    intro turn m e done
    cases turn with
    | inl b => exact done
    | inr c => exact ih c (uses.2 c) done

/-- Nothing has to be shown to be asked nothing. -/
theorem wp_trivial (p : Program Mem Op Ans α) (m : Mem) (e : Env) :
    p.wp S (fun _ _ _ => True) (fun _ _ _ => True) m e := by
  induction p generalizing m e with
  | ret value => exact trivial
  | access act next ih => exact ⟨trivial,ih _ _ _⟩
  | call op next ih => exact fun e₁ _ => ⟨trivial,fun r e₂ _ => ih r m e₂⟩
  | loop body start next ihBody ih =>
    refine ⟨fun _ _ _ => True,trivial,fun b m e _ => ⟨trivial,wp_mono (ihBody b m e) ?_⟩⟩
    intro turn m e _
    cases turn with
    | inl b => exact trivial
    | inr c => exact ih c m e

/-- What no update of a program can spoil holds at its end as well. -/
theorem wp_writes {p : Program Mem Op Ans α} {Q : α → Mem → Env → Prop} {P : Mem → Prop} {m : Mem} {e : Env}
    (closed : ∀ m m', upd m m' → P m → P m') (uses : p.Uses upd ok) (start : P m) (done : p.wp S A Q m e) :
    p.wp S A (fun a m e => Q a m e ∧ P m) m e := by
  have frame : S.Frame (fun _ _ _ => True) upd ok fun m _ => P m := by
    refine ⟨fun m m' _ => closed m m',?_,?_,fun _ _ _ _ _ => trivial⟩
    · exact fun _ _ _ _ _ _ held => held
    · exact fun _ _ _ _ _ _ _ held => held
  exact wp_weaken (wp_and done (wp_frame frame uses start)) (fun _ _ _ both => both.1) fun _ _ _ both => both

/-- What follows a program that writes nothing still finds the memory it began in. -/
theorem wp_bind_unwritten {p : Program Mem Op Ans α} {f : α → Program Mem Op Ans β} {R : α → Mem → Env → Prop}
    {Q : β → Mem → Env → Prop} {m : Mem} {e : Env} (uses : p.Uses Eq ok) (done : p.wp S A R m e)
    (rest : ∀ a e, R a m e → (f a).wp S A Q m e) : (p >>= f).wp S A Q m e := by
  refine wp_then (wp_writes (P := fun m' => m' = m) ?_ uses rfl done) ?_
  · exact fun m₁ m₂ same before => same.symm.trans before
  · rintro a m' e ⟨held,rfl⟩
    exact rest a e held

theorem wp_bind_frame {p : Program Mem Op Ans α} {f : α → Program Mem Op Ans β}
    {Q : β → Mem → Env → Prop} {m : Mem} {e : Env} (frame : S.Frame A upd ok P)
    (uses : p.Uses upd ok) (start : P m e) (rest : ∀ a m e, P m e → (f a).wp S A Q m e) :
    (p >>= f).wp S A Q m e :=
  wp_then (wp_frame frame uses start) rest

end Program
end Uses

/-- A property no move spoils, which the answers to quiet calls keep and which gives what is
asked of the states at mild calls. -/
structure Surroundings.Steady (S : Surroundings Mem Op Ans Env) (A : Option Op → Mem → Env → Prop)
    (quiet mild : Op → Prop) (P : Mem → Env → Prop) : Prop where
  moves : ∀ op m e e', S.moves op m e e' → P m e → P m e'
  replies : ∀ op m e r e', quiet op → S.replies op m e r e' → P m e → P m e'
  holds : ∀ op m e, (∀ o ∈ op, mild o) → P m e → A op m e

namespace Program
variable {S : Surroundings Mem Op Ans Env} {A : Option Op → Mem → Env → Prop}
  {quiet mild : Op → Prop} {P : Mem → Env → Prop}

theorem wp_steady {p : Program Mem Op Ans α} (steady : S.Steady A quiet mild P)
    (uses : p.Uses Eq fun op => quiet op ∧ mild op) {m : Mem} {e : Env} (start : P m e) :
    p.wp S A (fun _ => P) m e := by
  refine wp_frame ⟨?_,?_,?_,?_⟩ uses start
  · intro m m' e equal before
    exact equal ▸ before
  · intro op m e e' _ moved before
    exact steady.moves op m e e' moved before
  · intro op m e r e' allowed replied before
    exact steady.replies op m e r e' allowed.1 replied before
  · intro op m e allowed before
    exact steady.holds op m e (fun o member => (allowed o member).2) before

theorem wp_bind_steady {p : Program Mem Op Ans α} {f : α → Program Mem Op Ans β}
    {Q : β → Mem → Env → Prop} {m : Mem} {e : Env} (steady : S.Steady A quiet mild P)
    (uses : p.Uses Eq fun op => quiet op ∧ mild op) (start : P m e)
    (rest : ∀ a m e, P m e → (f a).wp S A Q m e) : (p >>= f).wp S A Q m e :=
  (wp_bind _ _ _ _ _).mpr (wp_mono (wp_steady steady uses start) rest)

theorem wp_bind_perform {op : Op} {f : Ans op → Program Mem Op Ans β} {Q : β → Mem → Env → Prop}
    {m : Mem} {e : Env} (steady : S.Steady A quiet mild P) (start : P m e)
    (holds : ∀ m e, P m e → A (some op) m e)
    (answered : ∀ e r e', P m e → S.replies op m e r e' → (f r).wp S A Q m e') :
    (perform op >>= f).wp S A Q m e := by
  refine (wp_bind _ _ _ _ _).mpr ?_
  exact wp_perform start (fun e e' moved before => steady.moves op m e e' moved before)
    (fun e before => holds m e before) answered

/-- A call in a steady state: only the answers have to be looked at. -/
theorem wp_steady_perform {op : Op} {Q : Ans op → Mem → Env → Prop} {m : Mem} {e : Env}
    (steady : S.Steady A quiet mild P) (start : P m e) (holds : ∀ m e, P m e → A (some op) m e)
    (answered : ∀ e r e', P m e → S.replies op m e r e' → Q r m e') :
    (perform op : Program Mem Op Ans _).wp S A Q m e :=
  wp_perform start (fun e e' moved before => steady.moves op m e e' moved before)
    (fun e before => holds m e before) answered

end Program

end Interaction
