import MitosServices.Interaction.Run

/-! Surroundings given by functions: what an event does, and what an answer costs. They can be
watched by a monitor, which only looks on, held to conditions on single steps, and run. -/
namespace Interaction

variable {Mem Op : Type} {Ans : Op → Type} {Env Event Ghost : Type} {α : Type}

structure Machine (Mem Op : Type) (Ans : Op → Type) (Env Event : Type) where
  stir : Event → Op → Mem → Env → Option Env
  answer : (op : Op) → Mem → Env → Ans op → Option Env

/-- A condition on single steps: on the event or the answer, and the state it comes in. -/
structure Condition (Mem Op : Type) (Ans : Op → Type) (Env Event : Type) where
  event : Event → Op → Mem → Env → Bool
  reply : (op : Op) → Mem → Env → Ans op → Bool

namespace Condition

def both (C D : Condition Mem Op Ans Env Event) : Condition Mem Op Ans Env Event where
  event ev op m e := C.event ev op m e && D.event ev op m e
  reply op m e r := C.reply op m e r && D.reply op m e r

structure Within (C D : Condition Mem Op Ans Env Event) : Prop where
  event : ∀ ev op m e, C.event ev op m e = true → D.event ev op m e = true
  reply : ∀ op m e r, C.reply op m e r = true → D.reply op m e r = true

variable {C D : Condition Mem Op Ans Env Event}

theorem Within.trans {E : Condition Mem Op Ans Env Event} (inner : C.Within D) (outer : D.Within E) : C.Within E :=
  ⟨fun ev op m e h => outer.event ev op m e (inner.event ev op m e h),
    fun op m e r h => outer.reply op m e r (inner.reply op m e r h)⟩

theorem both_left : (C.both D).Within C :=
  ⟨fun _ _ _ _ h => (Bool.and_eq_true_iff.mp h).1,fun _ _ _ _ h => (Bool.and_eq_true_iff.mp h).1⟩

theorem both_right : (C.both D).Within D :=
  ⟨fun _ _ _ _ h => (Bool.and_eq_true_iff.mp h).2,fun _ _ _ _ h => (Bool.and_eq_true_iff.mp h).2⟩

end Condition

/-- A monitor keeps a record of the steps it sees and never takes part in them. -/
structure Monitor (Mem Op : Type) (Ans : Op → Type) (Env Event Ghost : Type) where
  event : Event → Op → Mem → Env → Ghost → Ghost
  reply : (op : Op) → Mem → Env → Ans op → Ghost → Ghost

namespace Machine
variable (M : Machine Mem Op Ans Env Event)

def surroundings : Surroundings Mem Op Ans Env where
  moves op m e e' := ∃ ev, M.stir ev op m e = some e'
  replies op m e r e' := M.answer op m e r = some e'

def under (C : Condition Mem Op Ans Env Event) : Machine Mem Op Ans Env Event where
  stir ev op m e := if C.event ev op m e then M.stir ev op m e else none
  answer op m e r := if C.reply op m e r then M.answer op m e r else none

def watched (W : Monitor Mem Op Ans Env Event Ghost) : Machine Mem Op Ans (Env × Ghost) Event where
  stir ev op m e := (M.stir ev op m e.1).map fun e' => (e',W.event ev op m e.1 e.2)
  answer op m e r := (M.answer op m e.1 r).map fun e' => (e',W.reply op m e.1 r e.2)

variable {M}

theorem under_stir_iff {C : Condition Mem Op Ans Env Event} {ev : Event} {op : Op} {m : Mem}
    {e e' : Env} : (M.under C).stir ev op m e = some e' ↔
      C.event ev op m e = true ∧ M.stir ev op m e = some e' := by
  simp only [under,Option.ite_none_right_eq_some]

theorem under_answer_iff {C : Condition Mem Op Ans Env Event} {op : Op} {m : Mem} {e e' : Env}
    {r : Ans op} : (M.under C).answer op m e r = some e' ↔
      C.reply op m e r = true ∧ M.answer op m e r = some e' := by
  simp only [under,Option.ite_none_right_eq_some]

theorem watched_stir_iff {W : Monitor Mem Op Ans Env Event Ghost} {ev : Event} {op : Op} {m : Mem}
    {e e' : Env × Ghost} : (M.watched W).stir ev op m e = some e' ↔
      M.stir ev op m e.1 = some e'.1 ∧ e'.2 = W.event ev op m e.1 e.2 := by
  obtain ⟨k',g'⟩ := e'
  simp only [watched,Option.map_eq_some_iff,Prod.mk.injEq]
  constructor
  · rintro ⟨_,stirred,rfl,rfl⟩; exact ⟨stirred,rfl⟩
  · rintro ⟨stirred,rfl⟩; exact ⟨_,stirred,rfl,rfl⟩

theorem watched_answer_iff {W : Monitor Mem Op Ans Env Event Ghost} {op : Op} {m : Mem}
    {e e' : Env × Ghost} {r : Ans op} : (M.watched W).answer op m e r = some e' ↔
      M.answer op m e.1 r = some e'.1 ∧ e'.2 = W.reply op m e.1 r e.2 := by
  obtain ⟨k',g'⟩ := e'
  simp only [watched,Option.map_eq_some_iff,Prod.mk.injEq]
  constructor
  · rintro ⟨_,replied,rfl,rfl⟩; exact ⟨replied,rfl⟩
  · rintro ⟨replied,rfl⟩; exact ⟨_,replied,rfl,rfl⟩

end Machine

/-- The monitor takes no notice of events, nor of the answers to the calls in `ok`. -/
structure Monitor.Deaf (W : Monitor Mem Op Ans Env Event Ghost) (ok : Op → Prop) : Prop where
  event : ∀ ev op m e g, W.event ev op m e g = g
  reply : ∀ op m e r g, ok op → W.reply op m e r g = g

section Deaf
variable {M : Machine Mem Op Ans Env Event} {W : Monitor Mem Op Ans Env Event Ghost}
  {A : Option Op → Mem → Env × Ghost → Prop} {ok : Op → Prop}

theorem Monitor.Deaf.moves {op : Op} {m : Mem} {e e' : Env × Ghost} (deaf : W.Deaf ok)
    (moved : (M.watched W).surroundings.moves op m e e') : e'.2 = e.2 := by
  obtain ⟨ev,stirred⟩ := moved
  rw [(Machine.watched_stir_iff.mp stirred).2,deaf.event]

/-- Where the monitor is deaf, what no update spoils of the memory and its record is kept. -/
theorem Machine.watched_keeps {upd : Mem → Mem → Prop} {P : Mem → Ghost → Prop} (deaf : W.Deaf ok)
    (closed : ∀ m m' g, upd m m' → P m g → P m' g)
    (holds : ∀ op m e, (∀ o ∈ op, ok o) → P m e.2 → A op m e) :
    (M.watched W).surroundings.Frame A upd ok fun m e => P m e.2 where
  updates m m' e written held := closed m m' e.2 written held
  moves op m e e' _ moved held := by
    rw [deaf.moves moved]
    exact held
  replies op m e r e' allowed replied held := by
    obtain ⟨-,noted⟩ := Machine.watched_answer_iff.mp replied
    rw [noted,deaf.reply op m e.1 r e.2 allowed]
    exact held
  holds := holds

/-- Where the monitor is deaf its record stays as it is, and so does what is not written. -/
theorem Machine.watched_frame {β : Type} {part : Mem → β} {x : β} {g : Ghost} (deaf : W.Deaf ok)
    (holds : ∀ op m e, (∀ o ∈ op, ok o) → part m = x → A op m (e,g)) :
    (M.watched W).surroundings.Frame A (fun m m' => part m' = part m) ok
      fun m e => part m = x ∧ e.2 = g := by
  refine Machine.watched_keeps (P := fun m g' => part m = x ∧ g' = g) deaf ?_ ?_
  · exact fun m m' g' same before => ⟨same.trans before.1,before.2⟩
  · rintro op m e allowed ⟨same,rfl⟩
    exact holds op m e.1 allowed same

/-- A call the monitor does take notice of. -/
theorem Program.wp_noted {op : Op} {Q : Ans op → Mem → Env × Ghost → Prop} {m : Mem}
    {e : Env × Ghost} (deaf : W.Deaf ok) (holds : ∀ e', A (some op) m (e',e.2))
    (rest : ∀ e₁ r e₂, M.answer op m e₁ r = some e₂ → Q r m (e₂,W.reply op m e₁ r e.2)) :
    (perform op : Program Mem Op Ans _).wp (M.watched W).surroundings A Q m e := by
  refine wp_perform (P := fun e' => e'.2 = e.2) rfl ?_ ?_ ?_
  · exact fun e₁ e₂ moved same => (deaf.moves moved).trans same
  · rintro ⟨k,g⟩ rfl
    exact holds k
  · rintro ⟨k,g⟩ r ⟨k',g'⟩ rfl replied
    obtain ⟨answered,noted⟩ := Machine.watched_answer_iff.mp replied
    dsimp only at noted
    rw [noted]
    exact rest k r k' answered

theorem Program.wp_bind_noted {α : Type} {op : Op} {f : Ans op → Program Mem Op Ans α}
    {Q : α → Mem → Env × Ghost → Prop} {m : Mem} {e : Env × Ghost} (deaf : W.Deaf ok)
    (holds : ∀ e', A (some op) m (e',e.2))
    (rest : ∀ e₁ r e₂, M.answer op m e₁ r = some e₂ →
      (f r).wp (M.watched W).surroundings A Q m (e₂,W.reply op m e₁ r e.2)) :
    (perform op >>= f).wp (M.watched W).surroundings A Q m e :=
  (wp_bind _ _ _ _ _).mpr (wp_noted deaf holds rest)

end Deaf

def Monitor.Unstirred (W : Monitor Mem Op Ans Env Event Ghost) : Prop :=
  ∀ ev op m e g, W.event ev op m e g = g

section Heard
variable {M : Machine Mem Op Ans Env Event} {W : Monitor Mem Op Ans Env Event Ghost}
  {C : Condition Mem Op Ans (Env × Ghost) Event} {A : Option Op → Mem → Env × Ghost → Prop}
  {op : Op} {m : Mem} {e e' : Env × Ghost}

theorem Monitor.Unstirred.moves (unstirred : W.Unstirred)
    (moved : ((M.watched W).under C).surroundings.moves op m e e') : e'.2 = e.2 := by
  obtain ⟨ev,stirred⟩ := moved
  rw [(Machine.watched_stir_iff.mp (Machine.under_stir_iff.mp stirred).2).2,unstirred]

/-- What an answer within the condition is, and what the monitor makes of it. -/
theorem Machine.heard_iff {r : Ans op} : ((M.watched W).under C).surroundings.replies op m e r e' ↔
    C.reply op m e r = true ∧ M.answer op m e.1 r = some e'.1 ∧ e'.2 = W.reply op m e.1 r e.2 := by
  refine Machine.under_answer_iff.trans ?_
  rw [Machine.watched_answer_iff]

/-- A call among watched surroundings that are held to a condition. -/
theorem Program.wp_heard {Q : Ans op → Mem → Env × Ghost → Prop} (unstirred : W.Unstirred)
    (holds : ∀ k, A (some op) m (k,e.2))
    (rest : ∀ k r k', C.reply op m (k,e.2) r = true → M.answer op m k r = some k' →
      Q r m (k',W.reply op m k r e.2)) :
    (perform op : Program Mem Op Ans _).wp ((M.watched W).under C).surroundings A Q m e := by
  refine wp_perform (P := fun e' => e'.2 = e.2) rfl ?_ ?_ ?_
  · exact fun e₁ e₂ moved same => (unstirred.moves moved).trans same
  · rintro ⟨k,g⟩ rfl
    exact holds k
  · rintro ⟨k,g⟩ r ⟨k',g'⟩ rfl replied
    obtain ⟨allowed,answered,noted⟩ := Machine.heard_iff.mp replied
    dsimp only at noted
    rw [noted]
    exact rest k r k' allowed answered

theorem Program.wp_bind_heard {α : Type} {f : Ans op → Program Mem Op Ans α}
    {Q : α → Mem → Env × Ghost → Prop} (unstirred : W.Unstirred) (holds : ∀ k, A (some op) m (k,e.2))
    (rest : ∀ k r k', C.reply op m (k,e.2) r = true → M.answer op m k r = some k' →
      (f r).wp ((M.watched W).under C).surroundings A Q m (k',W.reply op m k r e.2)) :
    (perform op >>= f).wp ((M.watched W).under C).surroundings A Q m e :=
  (wp_bind _ _ _ _ _).mpr (wp_heard unstirred holds rest)

end Heard

section Drive
variable (M : Machine Mem Op Ans Env Event) (oracle : (op : Op) → Mem → Env → Ans op)

/-- One step of the program itself, calls being answered by the oracle where the machine allows. -/
def advance : State Mem Op Ans Env α → Option (State Mem Op Ans Env α)
  | ⟨.ret _,_,_⟩ => none
  | ⟨.access act next,m,e⟩ => some ⟨next (act m).1,(act m).2,e⟩
  | ⟨.call op next,m,e⟩ =>
    match M.answer op m e (oracle op m e) with
    | some e' => some ⟨next (oracle op m e),m,e'⟩
    | none => none
  | ⟨.loop body b next,m,e⟩ => some ⟨.unroll body next b,m,e⟩

def advanceTo (stop : Op → Bool) : Nat → State Mem Op Ans Env α → Option (State Mem Op Ans Env α)
  | 0, _ => none
  | fuel+1, s =>
    if s.program.next?.any stop || s.program.returned then some s
    else (advance M oracle s).bind (advanceTo stop fuel)

/-- A cue for a run: go on to a call or to the end, put one step, or an event. -/
inductive Cue (Op Event : Type)
  | upTo (stop : Op → Bool) (fuel : Nat)
  | step
  | stir (event : Event)

def cued : Cue Op Event → State Mem Op Ans Env α → Option (State Mem Op Ans Env α)
  | .upTo stop fuel, s => advanceTo M oracle stop fuel s
  | .step, s => advance M oracle s
  | .stir event, ⟨.call op next,m,e⟩ => (M.stir event op m e).map fun e' => ⟨.call op next,m,e'⟩
  | .stir _, _ => none

def drive : List (Cue Op Event) → State Mem Op Ans Env α → Option (State Mem Op Ans Env α)
  | [], s => some s
  | cue :: cues, s => (cued M oracle cue s).bind (drive cues)

variable {M oracle}

theorem advance_step {s t : State Mem Op Ans Env α} (went : advance M oracle s = some t) :
    Step M.surroundings s t := by
  obtain ⟨p,m,e⟩ := s
  cases p with
  | ret value => simp [advance] at went
  | access act next => cases Option.some.inj went; exact .access act next m e
  | call op next =>
    simp only [advance] at went
    split at went
    · rename_i e' replied
      cases Option.some.inj went
      exact .reply op next m e _ e' replied
    · contradiction
  | loop body b next => cases Option.some.inj went; exact .unroll body b next m e

theorem advanceTo_reaches {stop : Op → Bool} {fuel : Nat} {s t : State Mem Op Ans Env α}
    (went : advanceTo M oracle stop fuel s = some t) : Reaches M.surroundings s t := by
  induction fuel generalizing s with
  | zero => simp [advanceTo] at went
  | succ fuel ih =>
    simp only [advanceTo] at went
    split at went
    · cases Option.some.inj went; exact .refl
    · obtain ⟨next,stepped,rest⟩ := Option.bind_eq_some_iff.mp went
      exact .head (advance_step stepped) (ih rest)

theorem cued_reaches {cue : Cue Op Event} {s t : State Mem Op Ans Env α}
    (went : cued M oracle cue s = some t) : Reaches M.surroundings s t := by
  cases cue with
  | upTo stop fuel => exact advanceTo_reaches went
  | step => exact .single (advance_step went)
  | stir event =>
    obtain ⟨p,m,e⟩ := s
    cases p with
    | call op next =>
      obtain ⟨e',stirred,rfl⟩ := Option.map_eq_some_iff.mp went
      exact .single (.move op next m e e' ⟨event,stirred⟩)
    | _ => simp [cued] at went

/-- What a driven run reaches is reached: a computed run is a run. -/
theorem drive_reaches {cues : List (Cue Op Event)} {s t : State Mem Op Ans Env α}
    (went : drive M oracle cues s = some t) : Reaches M.surroundings s t := by
  induction cues generalizing s with
  | nil => cases Option.some.inj went; exact .refl
  | cons cue cues ih =>
    obtain ⟨next,cueWent,rest⟩ := Option.bind_eq_some_iff.mp went
    exact (cued_reaches cueWent).trans (ih rest)

def State.result? (s : State Mem Op Ans Env α) : Option α :=
  match s.program with
  | .ret value => some value
  | _ => none

theorem drive_returned {cues : List (Cue Op Event)} {s t : State Mem Op Ans Env α} {a : α}
    (went : drive M oracle cues s = some t) (returned : t.result? = some a) :
    Reaches M.surroundings s ⟨.ret a,t.mem,t.env⟩ := by
  obtain ⟨p,m,e⟩ := t
  cases p with
  | ret value =>
    cases Option.some.inj returned
    exact drive_reaches went
  | _ => contradiction

theorem drive_returns {cues : List (Cue Op Event)} {s : State Mem Op Ans Env α} {a : α}
    (went : (drive M oracle cues s).bind State.result? = some a) :
    ∃ m e, Reaches M.surroundings s ⟨.ret a,m,e⟩ := by
  obtain ⟨t,driven,returned⟩ := Option.bind_eq_some_iff.mp went
  exact ⟨t.mem,t.env,drive_returned driven returned⟩

end Drive
end Interaction
