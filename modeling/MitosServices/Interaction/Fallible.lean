import MitosServices.Interaction.Program

/-! Programs whose steps can fail: the first failure ends the whole with its error. -/
namespace Interaction

variable {Mem Op : Type} {Ans : Op → Type} {Env ε α : Type}

namespace Program

def andThen (first next : Program Mem Op Ans (Except ε Unit)) : Program Mem Op Ans (Except ε Unit) := do
  let r ← first
  match r with
  | .ok _ => next
  | .error e => pure (.error e)

def whenSome (x : Option α) (step : α → Program Mem Op Ans (Except ε Unit)) :
    Program Mem Op Ans (Except ε Unit) :=
  x.elim (pure (.ok ())) step

def whenTrue (c : Bool) (step : Program Mem Op Ans (Except ε Unit)) : Program Mem Op Ans (Except ε Unit) :=
  if c then step else pure (.ok ())

section Rules
variable {S : Surroundings Mem Op Ans Env} {A : Option Op → Mem → Env → Prop}
  {Q : Except ε Unit → Mem → Env → Prop} {m : Mem} {e : Env}

/-- What a step has to come to for the rest to come to `Q`. -/
def Onward (next : Program Mem Op Ans (Except ε Unit)) (S : Surroundings Mem Op Ans Env)
    (A : Option Op → Mem → Env → Prop) (Q : Except ε Unit → Mem → Env → Prop) :
    Except ε Unit → Mem → Env → Prop
  | .ok _, m, e => next.wp S A Q m e
  | .error failure, m, e => Q (.error failure) m e

theorem wp_andThen {first next : Program Mem Op Ans (Except ε Unit)} (h : first.wp S A (Onward next S A Q) m e) :
    (first.andThen next).wp S A Q m e := by
  apply (wp_bind _ _ _ _ _).mpr
  apply wp_mono h
  intro r m e onward
  cases r with
  | ok _ => exact onward
  | error failure => exact onward

/-- One step, then the next, where failing is always in order. -/
theorem wp_andThen_of {first next : Program Mem Op Ans (Except ε Unit)} {R : Except ε Unit → Mem → Env → Prop}
    (h : first.wp S A R m e) (rest : ∀ m e, R (.ok ()) m e → next.wp S A Q m e)
    (failed : ∀ failure m e, R (.error failure) m e → Q (.error failure) m e) :
    (first.andThen next).wp S A Q m e := by
  apply wp_andThen
  apply wp_mono h
  intro r m e after
  cases r with
  | ok _ => exact rest m e after
  | error failure => exact failed failure m e after

theorem wp_whenTrue {c : Bool} {step : Program Mem Op Ans (Except ε Unit)}
    (left : c = false → Q (.ok ()) m e) (taken : c = true → step.wp S A Q m e) :
    (whenTrue c step).wp S A Q m e := by
  cases c with
  | false => exact left rfl
  | true => exact taken rfl

end Rules
end Program
end Interaction
