import MitosServices.Kernel
import MitosServices.Footprint

/-! No request is lost between the two threads: what has been asked for and not yet been done is still
there whenever the loop turns, is done before it turns again, and once the program has been asked to stop the
loop turns no second time. -/
namespace MitosServices.Requests
open Interaction Interaction.Program

/-- What has been asked for: a reload since the configuration was last read, a dump since the last was
published, the last isolate unless it has been acted on, and a shutdown ever. What of it was there when the loop
last turned is due, and a turn that begins after a shutdown was asked for is late. -/
structure Asked where
  reload : Bool := false
  dump : Bool := false
  isolate : Option String := none
  stop : Bool := false
  dueReload : Bool := false
  dueDump : Bool := false
  dueIsolate : Bool := false
  late : Bool := false
deriving DecidableEq

def Asked.ask (a : Asked) : Flag → Asked
  | .reloadRequested => { a with reload := true }
  | .statusDumpRequested => { a with dump := true }
  | .rebootRequested | .poweroffRequested | .haltRequested => { a with stop := true }

def Asked.isolated (a : Asked) (name : String) : Asked :=
  if a.isolate = some name then { a with isolate := none, dueIsolate := false } else a

def Asked.turned (a : Asked) : Asked :=
  { a with dueReload := a.reload, dueDump := a.dump, dueIsolate := a.isolate.isSome, late := a.late || a.stop }

def stirred : Event → Asked → Asked
  | .deliver sig, a => (onSignal sig).elim a a.ask
  | .requestReload, a => a.ask .reloadRequested
  | .requestStatus, a => a.ask .statusDumpRequested
  | .requestIsolate name, a => { a with isolate := some name, dueIsolate := false }
  | _, a => a

def noted : Op → Asked → Asked
  | .loadOrDefault, a => { a with reload := false, dueReload := false }
  | .publishStatus _, a => { a with dump := false, dueDump := false }
  | .log (.isolateUnknown name), a => a.isolated name
  | .log (.isolating name), a => a.isolated name
  | .swap .rebootRequested, a => a.turned
  | _, a => a

def asks : Monitor Memory Op Op.Ans Kernel Event Asked where
  event ev _ _ _ a := stirred ev a
  reply op _ _ _ a := noted op a

abbrev around : Surroundings Memory Op Op.Ans (Kernel × Asked) := (Kernel.machine.watched asks).surroundings

inductive Kind
  | reload
  | dump
  | isolate
deriving DecidableEq

inductive Debt
  | none
  | reload
  | dump
  | isolate (name : String)

structure Waits (debt : Debt) (requested : Flag → Bool) (pending : Option String) (a : Asked) : Prop where
  reload : a.reload = true → requested .reloadRequested = true ∨ debt = .reload
  dump : a.dump = true → requested .statusDumpRequested = true ∨ debt = .dump
  isolate : ∀ name, a.isolate = some name → pending = some name ∨ debt = .isolate name
  stop : a.stop = true → requested .rebootRequested = true ∨ requested .poweroffRequested = true ∨
    requested .haltRequested = true

/-- What is due has been asked for, and is one of the things this turn has not come to yet. -/
structure Due (debt : Debt) (left : List Kind) (a : Asked) : Prop where
  reload : a.dueReload = true → a.reload = true ∧ .reload ∈ left
  dump : a.dueDump = true → a.dump = true ∧ .dump ∈ left
  isolate : a.dueIsolate = true → a.isolate ≠ none ∧ (∀ name, debt = .isolate name → a.isolate = some name) ∧
    .isolate ∈ left

structure Kept (debt : Debt) (flags : List Flag) (left : List Kind) (e : Kernel × Asked) : Prop where
  waits : Waits debt e.1.requested e.1.isolate e.2
  due : Due debt left e.2
  warned : e.2.late = true → ∃ flag ∈ flags, e.1.requested flag = true

structure NoneLost (k : Kernel) (a : Asked) : Prop where
  reload : a.reload = true → k.requested .reloadRequested = true ∧ a.dueReload = false
  dump : a.dump = true → k.requested .statusDumpRequested = true ∧ a.dueDump = false
  isolate : ∀ name, a.isolate = some name → k.isolate = some name ∧ a.dueIsolate = false
  stop : a.stop = true → k.requested .rebootRequested = true ∨ k.requested .poweroffRequested = true ∨
    k.requested .haltRequested = true
  early : a.late = false

def asked (op : Option Op) (_ : Memory) (e : Kernel × Asked) : Prop :=
  op = some (.swap .rebootRequested) → NoneLost e.1 e.2

def takes : Op → Bool
  | .swap _ | .takePendingIsolate => true
  | _ => false

section Steps
variable {debt : Debt} {requested : Flag → Bool} {pending : Option String} {k k' : Kernel} {a : Asked} {op : Op}
  {m : Memory} {e e' : Kernel × Asked}

theorem waits_raise (flag : Flag) (held : Waits debt k.requested pending a) :
    Waits debt (k.raise flag).requested pending (a.ask flag) := by
  have still : ∀ f, k.requested f = true → (k.raise flag).requested f = true := by
    intro f there
    simp [Kernel.raise,there]
  have up : (k.raise flag).requested flag = true := by simp [Kernel.raise]
  have others : Waits debt (k.raise flag).requested pending a :=
    ⟨fun h => (held.reload h).imp_left (still _),fun h => (held.dump h).imp_left (still _),held.isolate,
      fun h => (held.stop h).imp (still _) (Or.imp (still _) (still _))⟩
  cases flag with
  | rebootRequested => exact ⟨others.reload,others.dump,others.isolate,fun _ => .inl up⟩
  | poweroffRequested => exact ⟨others.reload,others.dump,others.isolate,fun _ => .inr (.inl up)⟩
  | haltRequested => exact ⟨others.reload,others.dump,others.isolate,fun _ => .inr (.inr up)⟩
  | reloadRequested => exact ⟨fun _ => .inl up,others.dump,others.isolate,others.stop⟩
  | statusDumpRequested => exact ⟨others.reload,fun _ => .inl up,others.isolate,others.stop⟩

theorem waits_moves (moved : around.moves op m e e') (held : Waits debt e.1.requested e.1.isolate e.2) :
    Waits debt e'.1.requested e'.1.isolate e'.2 := by
  obtain ⟨ev,stirs⟩ := moved
  obtain ⟨stirs,heard⟩ := Machine.watched_stir_iff.mp stirs
  rw [heard]
  generalize e'.1 = k' at stirs
  cases Kernel.stir_cases stirs with
  | requestReload => exact waits_raise _ held
  | requestStatus => exact waits_raise _ held
  | requestIsolate name => exact ⟨held.reload,held.dump,fun n same => .inl same,held.stop⟩
  | @deliver sig flag handled =>
    have raised := waits_raise flag held
    have same : stirred (.deliver sig) e.2 = e.2.ask flag := by simp [stirred,handled]
    rw [← same] at raised
    exact raised
  | _ => exact held

/-- Only a call that takes a request leaves the surroundings with one less. -/
theorem answer_untaken {r : op.Ans} (untaken : takes op = false) (answered : Kernel.answer op m k r = some k') :
    k'.requested = k.requested ∧ k'.isolate = k.isolate := by
  cases op with
  | swap flag => contradiction
  | takePendingIsolate => contradiction
  | spawn origin command =>
    cases r with
    | ok pid =>
      obtain ⟨-,rfl⟩ := Kernel.answer_spawned answered
      exact ⟨rfl,rfl⟩
    | error err =>
      cases Option.some.inj answered
      exact ⟨rfl,rfl⟩
  | waitpid target nohang =>
    cases Kernel.waited_cases answered with
    | _ => exact ⟨rfl,rfl⟩
  | takeApp pid =>
    simp only [Kernel.answer,Option.ite_none_right_eq_some,Option.some.injEq] at answered
    obtain ⟨-,rfl⟩ := answered
    exact ⟨rfl,rfl⟩
  | blockHandled =>
    cases r with
    | ok _ =>
      cases Option.some.inj answered
      exact ⟨rfl,rfl⟩
    | error err =>
      cases Option.some.inj answered
      exact ⟨rfl,rfl⟩
  | unblockHandled =>
    cases r with
    | ok _ =>
      cases Option.some.inj answered
      exact ⟨rfl,rfl⟩
    | error err =>
      cases Option.some.inj answered
      exact ⟨rfl,rfl⟩
  | spawnListener =>
    cases Option.some.inj answered
    exact ⟨rfl,rfl⟩
  | log line =>
    cases Option.some.inj answered
    exact ⟨rfl,rfl⟩
  | _ =>
    have same := Kernel.answer_quiet rfl answered
    rw [same]
    exact ⟨rfl,rfl⟩

/-- To be done with is not to be owed. -/
theorem waits_noted (untaken : takes op = false) (held : Waits debt requested pending a) :
    Waits debt requested pending (noted op a) := by
  have isolated : ∀ name, Waits debt requested pending (a.isolated name) := by
    intro name
    unfold Asked.isolated
    split
    · exact ⟨held.reload,held.dump,fun n wanted => absurd wanted (by simp),held.stop⟩
    · exact held
  cases op with
  | loadOrDefault => exact ⟨fun owed => absurd owed (by simp [noted]),held.dump,held.isolate,held.stop⟩
  | publishStatus text => exact ⟨held.reload,fun owed => absurd owed (by simp [noted]),held.isolate,held.stop⟩
  | log line =>
    cases line with
    | isolateUnknown name => exact isolated name
    | isolating name => exact isolated name
    | _ => exact held
  | swap flag => contradiction
  | _ => exact held

variable {flags : List Flag} {left : List Kind}

theorem due_ask (flag : Flag) (held : Due debt left a) : Due debt left (a.ask flag) := by
  cases flag with
  | reloadRequested => exact ⟨fun due => ⟨rfl,(held.reload due).2⟩,held.dump,held.isolate⟩
  | statusDumpRequested => exact ⟨held.reload,fun due => ⟨rfl,(held.dump due).2⟩,held.isolate⟩
  | _ => exact ⟨held.reload,held.dump,held.isolate⟩

theorem due_stirred (ev : Event) (held : Due debt left a) : Due debt left (stirred ev a) := by
  cases ev with
  | requestReload => exact due_ask .reloadRequested held
  | requestStatus => exact due_ask .statusDumpRequested held
  | requestIsolate name => exact ⟨held.reload,held.dump,fun due => absurd due (by simp [stirred])⟩
  | deliver sig =>
    rw [stirred]
    cases onSignal sig with
    | none => exact held
    | some flag => exact due_ask flag held
  | _ => exact held

theorem due_noted (untaken : takes op = false) (held : Due debt left a) : Due debt left (noted op a) := by
  have isolated : ∀ name, Due debt left (a.isolated name) := by
    intro name
    unfold Asked.isolated
    split
    · exact ⟨held.reload,held.dump,fun due => absurd due (by simp)⟩
    · exact held
  cases op with
  | loadOrDefault => exact ⟨fun due => absurd due (by simp [noted]),held.dump,held.isolate⟩
  | publishStatus text => exact ⟨held.reload,fun due => absurd due (by simp [noted]),held.isolate⟩
  | log line =>
    cases line with
    | isolateUnknown name => exact isolated name
    | isolating name => exact isolated name
    | _ => exact held
  | swap flag => contradiction
  | _ => exact held

theorem late_noted (untaken : takes op = false) : (noted op a).late = a.late := by
  have isolated : ∀ name, (a.isolated name).late = a.late := by
    intro name
    unfold Asked.isolated
    split <;> rfl
  cases op with
  | swap flag => contradiction
  | log line =>
    cases line with
    | isolateUnknown name => exact isolated name
    | isolating name => exact isolated name
    | _ => rfl
  | _ => rfl

theorem late_stirred (ev : Event) : (stirred ev a).late = a.late := by
  have asks : ∀ flag, (a.ask flag).late = a.late := by
    intro flag
    cases flag <;> rfl
  cases ev with
  | requestReload => exact asks _
  | requestStatus => exact asks _
  | deliver sig =>
    rw [stirred]
    cases onSignal sig with
    | none => rfl
    | some flag => exact asks flag
  | _ => rfl

/-- No flag is lowered but by the main thread. -/
theorem moves_up {flag : Flag} (moved : around.moves op m e e') (up : e.1.requested flag = true) :
    e'.1.requested flag = true := by
  obtain ⟨ev,stirs⟩ := moved
  have stirs := (Machine.watched_stir_iff.mp stirs).1
  have raised : ∀ f, (e.1.raise f).requested flag = true := by
    intro f
    simp [Kernel.raise,up]
  generalize e'.1 = k' at stirs
  cases Kernel.stir_cases stirs with
  | requestReload => exact raised _
  | requestStatus => exact raised _
  | deliver handled => exact raised _
  | _ => exact up

theorem kept_moves (moved : around.moves op m e e') (held : Kept debt flags left e) : Kept debt flags left e' where
  waits := waits_moves moved held.waits
  due := by
    obtain ⟨ev,stirs⟩ := moved
    rw [(Machine.watched_stir_iff.mp stirs).2]
    exact due_stirred ev held.due
  warned late := by
    have before : e.2.late = true := by
      obtain ⟨ev,stirs⟩ := moved
      rw [(Machine.watched_stir_iff.mp stirs).2] at late
      exact (late_stirred ev).symm.trans late
    obtain ⟨flag,listed,up⟩ := held.warned before
    exact ⟨flag,listed,moves_up moved up⟩

theorem kept_replies {r : op.Ans} (untaken : takes op = false) (replied : around.replies op m e r e')
    (held : Kept debt flags left e) : Kept debt flags left e' := by
  obtain ⟨answered,heard⟩ := Machine.watched_answer_iff.mp replied
  obtain ⟨requested,isolate⟩ := answer_untaken untaken answered
  have heard : e'.2 = noted op e.2 := heard
  refine ⟨?_,?_,fun late => ?_⟩
  · rw [heard,requested,isolate]
    exact waits_noted untaken held.waits
  · rw [heard]
    exact due_noted untaken held.due
  · rw [heard,late_noted untaken] at late
    rw [requested]
    exact held.warned late

theorem asked_of (other : op ≠ .swap .rebootRequested) : asked (some op) m e := by
  intro turns
  exact absurd (Option.some.inj turns) other

/-- Calls that take nothing leave everything waiting. -/
theorem frame_kept (debt : Debt) (flags : List Flag) (left : List Kind) :
    around.Frame asked (fun _ _ => True) (fun op => takes op = false) fun _ e => Kept debt flags left e where
  updates _ _ _ _ held := held
  moves _ _ _ _ _ moved held := kept_moves moved held
  replies _ _ _ _ _ untaken replied held := kept_replies untaken replied held
  holds op m e untaken held := by
    rintro rfl
    exact absurd (untaken _ rfl) (by decide)

theorem takes_of_gentle (h : op.gentle = true) : takes op = false := by
  cases op with
  | swap flag => contradiction
  | takePendingIsolate => contradiction
  | _ => rfl

abbrev Untaking {α : Type} (p : Code α) : Prop := p.Uses (fun _ _ => True) fun op => takes op = false

theorem untaking_of_gentle {α : Type} {p : Code α} (gentle : Gentle p) : Untaking p :=
  uses_mono gentle (fun _ _ _ => trivial) fun _ => takes_of_gentle

theorem untaking_call (untaken : takes op = false) : Untaking (call op) := uses_perform untaken

theorem wp_bind_untaking {α β : Type} {p : Code α} {f : α → Code β} {Q : β → Memory → Kernel × Asked → Prop}
    (untaking : Untaking p) (held : Kept debt flags left e)
    (rest : ∀ a m e, Kept debt flags left e → (f a).wp around asked Q m e) : (p >>= f).wp around asked Q m e :=
  wp_bind_frame (frame_kept debt flags left) untaking held rest

/-- A call by which something is taken or done. -/
theorem wp_take {Q : op.Ans → Memory → Kernel × Asked → Prop} (held : Kept debt flags left e)
    (other : op ≠ .swap .rebootRequested)
    (rest : ∀ e r k', Kept debt flags left e → Kernel.answer op m e.1 r = some k' → Q r m (k',noted op e.2)) :
    (call op).wp around asked Q m e := by
  refine wp_perform (P := fun e => Kept debt flags left e) held ?_ ?_ ?_
  · exact fun e e' moved held => kept_moves moved held
  · exact fun e _ => asked_of other
  · rintro e r ⟨k',a'⟩ held replied
    obtain ⟨answered,heard⟩ := Machine.watched_answer_iff.mp replied
    dsimp only at heard
    rw [heard]
    exact rest e r k' held answered

theorem wp_bind_take {β : Type} {f : op.Ans → Code β} {Q : β → Memory → Kernel × Asked → Prop}
    (held : Kept debt flags left e) (other : op ≠ .swap .rebootRequested)
    (rest : ∀ e r k', Kept debt flags left e → Kernel.answer op m e.1 r = some k' →
      (f r).wp around asked Q m (k',noted op e.2)) : (call op >>= f).wp around asked Q m e :=
  (wp_bind _ _ _ _ _).mpr (wp_take held other rest)

end Steps

section Serving
variable {m : Memory} {e : Kernel × Asked}

theorem answer_swap {flag : Flag} {k k' : Kernel} {r : Bool} (answered : Kernel.answer (.swap flag) m k r = some k') :
    r = k.requested flag ∧ k' = k.lower flag := by
  simp only [Kernel.answer,Option.ite_none_right_eq_some,Option.some.injEq] at answered
  exact ⟨answered.1,answered.2.symm⟩

theorem lower_down {flag : Flag} {k : Kernel} (down : k.requested flag = false) : k.lower flag = k := by
  unfold Kernel.lower
  congr
  funext f
  by_cases same : f = flag
  · subst same
    simp [down]
  · simp [same]

theorem lowered_up {flag other : Flag} {k : Kernel} (apart : other ≠ flag) (up : k.requested other = true) :
    (k.lower flag).requested other = true := by
  simp [Kernel.lower,up,apart]

/-- The turn has come to the reload, and has taken a request for one or found none. -/
theorem kept_reload (held : Kept .none [] [.reload,.isolate,.dump] e) :
    Kept .reload [] [.reload,.isolate,.dump] (e.1.lower .reloadRequested,e.2) where
  waits := ⟨fun _ => .inr rfl,
    fun h => (held.waits.dump h).imp (lowered_up (by simp)) (by simp),
    fun n h => (held.waits.isolate n h).imp_right (by simp),
    fun h => (held.waits.stop h).imp (lowered_up (by simp)) (Or.imp (lowered_up (by simp)) (lowered_up (by simp)))⟩
  due := ⟨held.due.reload,held.due.dump,fun due => ⟨(held.due.isolate due).1,by simp,(held.due.isolate due).2.2⟩⟩
  warned late := by
    obtain ⟨flag,listed,-⟩ := held.warned late
    contradiction

theorem kept_unasked (held : Kept .none [] [.reload,.isolate,.dump] e) (down : e.1.requested .reloadRequested = false) :
    Kept .none [] [.isolate,.dump] e where
  waits := held.waits
  due := by
    refine ⟨fun due => ?_,fun due => ⟨(held.due.dump due).1,by simp⟩,
      fun due => ⟨(held.due.isolate due).1,by simp,by simp⟩⟩
    have up := held.waits.reload (held.due.reload due).1
    simp [down] at up
  warned := held.warned

/-- The configuration is read after the request has been taken: a request that comes later is waiting again. -/
theorem kept_loaded (owed : Kept .reload [] [.reload,.isolate,.dump] e) :
    Kept .none [] [.isolate,.dump] (e.1,noted .loadOrDefault e.2) where
  waits := ⟨fun owed => absurd owed (by simp [noted]),fun h => (owed.waits.dump h).imp_right (by simp),
    fun n h => (owed.waits.isolate n h).imp_right (by simp),owed.waits.stop⟩
  due := ⟨fun due => absurd due (by simp [noted]),fun due => ⟨(owed.due.dump due).1,by simp⟩,
    fun due => ⟨(owed.due.isolate due).1,by simp,by simp⟩⟩
  warned := owed.warned

theorem kept_isolate {name : String} (held : Kept .none [] [.isolate,.dump] e) (pending : e.1.isolate = some name) :
    Kept (.isolate name) [] [.isolate,.dump] ({ e.1 with isolate := none },e.2) := by
  have same : ∀ n, e.2.isolate = some n → n = name := by
    intro n wanted
    have waiting := (held.waits.isolate n wanted).resolve_right (by simp)
    rw [pending] at waiting
    exact (Option.some.inj waiting).symm
  refine ⟨⟨fun h => (held.waits.reload h).imp_right (by simp),fun h => (held.waits.dump h).imp_right (by simp),?_,
    held.waits.stop⟩,⟨held.due.reload,held.due.dump,fun due => ?_⟩,held.warned⟩
  · intro n wanted
    rw [same n wanted]
    exact .inr rfl
  · obtain ⟨wanted,-,here⟩ := held.due.isolate due
    obtain ⟨n,wanted⟩ := Option.ne_none_iff_exists'.mp wanted
    refine ⟨by simp [wanted],?_,here⟩
    rintro _ ⟨⟩
    rw [wanted,same n wanted]

theorem kept_unisolated (held : Kept .none [] [.isolate,.dump] e) (none : e.1.isolate = none) :
    Kept .none [] [.dump] ({ e.1 with isolate := .none },e.2) := by
  refine ⟨⟨held.waits.reload,held.waits.dump,none ▸ held.waits.isolate,held.waits.stop⟩,
    ⟨fun due => absurd (held.due.reload due).2 (by simp),fun due => ⟨(held.due.dump due).1,by simp⟩,fun due => ?_⟩,
    held.warned⟩
  obtain ⟨n,wanted⟩ := Option.ne_none_iff_exists'.mp (held.due.isolate due).1
  have waiting := (held.waits.isolate n wanted).resolve_right (by simp)
  rw [none] at waiting
  contradiction

/-- Whoever has asked for another target since is waiting again. -/
theorem kept_isolated {name : String} (owed : Kept (.isolate name) [] [.isolate,.dump] e) :
    Kept .none [] [.dump] (e.1,e.2.isolated name) := by
  unfold Asked.isolated
  split
  · exact ⟨⟨fun h => (owed.waits.reload h).imp_right (by simp),fun h => (owed.waits.dump h).imp_right (by simp),
      fun n h => absurd h (by simp),owed.waits.stop⟩,
      ⟨fun due => absurd (owed.due.reload due).2 (by simp),fun due => ⟨(owed.due.dump due).1,by simp⟩,
        fun due => absurd due (by simp)⟩,owed.warned⟩
  · rename_i other
    refine ⟨⟨fun h => (owed.waits.reload h).imp_right (by simp),fun h => (owed.waits.dump h).imp_right (by simp),?_,
      owed.waits.stop⟩,⟨fun due => absurd (owed.due.reload due).2 (by simp),
      fun due => ⟨(owed.due.dump due).1,by simp⟩,fun due => absurd ((owed.due.isolate due).2.1 name rfl) other⟩,
      owed.warned⟩
    intro n wanted
    rcases owed.waits.isolate n wanted with pending | same
    · exact .inl pending
    · cases same
      exact absurd wanted other

theorem kept_dump (held : Kept .none [] [.dump] e) : Kept .dump [] [.dump] (e.1.lower .statusDumpRequested,e.2) where
  waits := ⟨fun h => (held.waits.reload h).imp (lowered_up (by simp)) (by simp),fun _ => .inr rfl,
    fun n h => (held.waits.isolate n h).imp_right (by simp),
    fun h => (held.waits.stop h).imp (lowered_up (by simp)) (Or.imp (lowered_up (by simp)) (lowered_up (by simp)))⟩
  due := ⟨held.due.reload,held.due.dump,fun due => absurd (held.due.isolate due).2.2 (by simp)⟩
  warned late := by
    obtain ⟨flag,listed,-⟩ := held.warned late
    contradiction

theorem kept_undumped (held : Kept .none [] [.dump] e) (down : e.1.requested .statusDumpRequested = false) :
    Kept .none [] [] e where
  waits := held.waits
  due := by
    refine ⟨fun due => absurd (held.due.reload due).2 (by simp),fun due => ?_,
      fun due => absurd (held.due.isolate due).2.2 (by simp)⟩
    have up := held.waits.dump (held.due.dump due).1
    simp [down] at up
  warned := held.warned

theorem kept_published {text : String} (owed : Kept .dump [] [.dump] e) :
    Kept .none [] [] (e.1,noted (.publishStatus text) e.2) where
  waits := ⟨fun h => (owed.waits.reload h).imp_right (by simp),fun paid => absurd paid (by simp [noted]),
    fun n h => (owed.waits.isolate n h).imp_right (by simp),owed.waits.stop⟩
  due := ⟨fun due => absurd (owed.due.reload due).2 (by simp),fun due => absurd due (by simp [noted]),
    fun due => absurd (owed.due.isolate due).2.2 (by simp)⟩
  warned := owed.warned

theorem wp_loadConfig (owed : Kept .reload [] [.reload,.isolate,.dump] e) :
    loadConfig.wp around asked (fun _ _ => Kept .none [] [.isolate,.dump]) m e := by
  refine wp_bind_take owed (by simp) fun e cfg k' owed answered => ?_
  have same := Kernel.answer_quiet rfl answered
  rw [same]
  exact wp_bind_untaking (untaking_call rfl) (kept_loaded owed) fun _ m e read => read

theorem wp_handleReload (held : Kept .none [] [.reload,.isolate,.dump] e) :
    handleReload.wp around asked (fun _ _ => Kept .none [] [.isolate,.dump]) m e := by
  refine wp_bind_take held (by simp) fun e requested k' held answered => ?_
  obtain ⟨rfl,rfl⟩ := answer_swap answered
  rw [wp_provided]
  split
  · refine wp_bind_untaking (untaking_call rfl) (kept_reload held) fun _ m e owed => ?_
    refine wp_then (wp_loadConfig owed) fun newCfg m e held => ?_
    have hostname : Untaking (applyHostname (fun _ e => .reloadedHostnameRefused e) newCfg.hostname) :=
      untaking_of_gentle (gentle_of_plain (applyHostname_plain (fun _ _ => rfl) _))
    refine wp_bind_untaking (untaking_call rfl) held fun _ m e held => ?_
    refine wp_bind_untaking hostname held fun _ m e held => ?_
    refine wp_bind_untaking (untaking_call rfl) held fun timerDefs m e held => ?_
    refine wp_bind_untaking (uses_update fun _ => trivial) held fun _ m e held => ?_
    refine wp_bind_untaking (uses_read fun _ => trivial) held fun now m e held => ?_
    refine wp_bind_untaking (untaking_of_gentle (gentle_of_supervising (begin_supervises _ _ _))) held
      fun watch m e held => ?_
    refine wp_bind_untaking (uses_update fun _ => trivial) held fun _ m e held => ?_
    exact wp_frame (frame_kept _ _ _) (untaking_call rfl) held
  · rename_i down
    have down : e.1.requested .reloadRequested = false := Bool.not_eq_true _ ▸ down
    rw [lower_down down]
    exact kept_unasked held down

/-- An isolate that has been taken is acted on before anything else: in vain or not. -/
theorem wp_isolate {name : String} (owed : Kept (.isolate name) [] [.isolate,.dump] e) :
    (isolate name).wp around asked (fun _ _ => Kept .none [] [.dump]) m e := by
  refine wp_bind_read (fun turns => absurd turns (by simp)) ?_
  split
  · refine wp_take owed (by simp) fun e _ k' owed answered => ?_
    cases Option.some.inj answered
    exact kept_isolated owed
  · refine wp_bind_take owed (by simp) fun e _ k' owed answered => ?_
    cases Option.some.inj answered
    have held : Kept .none [] [.dump] (e.1,noted (.log (.isolating name)) e.2) := kept_isolated owed
    refine wp_bind_untaking (untaking_of_gentle (gentle_of_supervising (reloadServices_supervises _))) held
      fun _ m e held => ?_
    refine wp_bind_untaking (uses_update fun _ => trivial) held fun _ m e held => ?_
    exact wp_frame (frame_kept _ _ _) (untaking_call rfl) held

theorem wp_handleIsolate (held : Kept .none [] [.isolate,.dump] e) :
    handleIsolate.wp around asked (fun _ _ => Kept .none [] [.dump]) m e := by
  refine wp_bind_take held (by simp) fun e pending k' held answered => ?_
  simp only [Kernel.answer,Option.ite_none_right_eq_some,Option.some.injEq] at answered
  obtain ⟨rfl,rfl⟩ := answered
  cases pending : e.1.isolate with
  | none => exact kept_unisolated held pending
  | some name => exact wp_then (wp_isolate (kept_isolate held pending)) fun _ _ _ held => held

theorem wp_dumpStatus (held : Kept .none [] [.dump] e) :
    dumpStatus.wp around asked (fun _ _ => Kept .none [] []) m e := by
  refine wp_bind_take held (by simp) fun e requested k' held answered => ?_
  obtain ⟨rfl,rfl⟩ := answer_swap answered
  rw [wp_provided]
  split
  · refine wp_bind_untaking (uses_read fun _ => trivial) (kept_dump held) fun now m e owed => ?_
    refine wp_bind_untaking (untaking_of_gentle (gentle_of_plain statusSummary_plain)) owed fun summary m e owed => ?_
    refine wp_bind_untaking (untaking_call rfl) owed fun _ m e owed => ?_
    refine wp_take owed (by simp) fun e _ k' owed answered => ?_
    cases Option.some.inj answered
    exact kept_published owed
  · rename_i down
    have down : e.1.requested .statusDumpRequested = false := Bool.not_eq_true _ ▸ down
    rw [lower_down down]
    exact kept_undumped held down

theorem noneLost_of_kept (held : Kept .none [] [] e) : NoneLost e.1 e.2 where
  reload h := by
    refine ⟨(held.waits.reload h).resolve_right (by simp),?_⟩
    by_contra due
    exact absurd (held.due.reload (Bool.not_eq_false _ ▸ due)).2 (by simp)
  dump h := by
    refine ⟨(held.waits.dump h).resolve_right (by simp),?_⟩
    by_contra due
    exact absurd (held.due.dump (Bool.not_eq_false _ ▸ due)).2 (by simp)
  isolate n h := by
    refine ⟨(held.waits.isolate n h).resolve_right (by simp),?_⟩
    by_contra due
    exact absurd (held.due.isolate (Bool.not_eq_false _ ▸ due)).2.2 (by simp)
  stop := held.waits.stop
  early := by
    by_contra late
    obtain ⟨flag,listed,-⟩ := held.warned (Bool.not_eq_false _ ▸ late)
    contradiction

/-- What is left of a turn once it is known that it is no shutdown. -/
theorem wp_serve (grace : Nat) (held : Kept .none [] [.reload,.isolate,.dump] e) :
    (serve grace).wp around asked (fun _ _ => Kept .none [] []) m e := by
  refine wp_then (wp_handleReload held) fun _ m e held => ?_
  refine wp_then (wp_handleIsolate held) fun _ m e held => ?_
  refine wp_then (wp_dumpStatus held) fun _ m e held => ?_
  refine wp_bind_untaking (uses_read fun _ => trivial) held fun now m e held => ?_
  refine wp_bind_untaking (untaking_of_gentle (gentle_of_timing (tick_times _ _))) held fun _ m e held => ?_
  have waits : Untaking wait := uses_bind (uses_read fun _ => trivial) fun _ =>
    uses_bind (untaking_call rfl) fun _ => uses_pure _
  refine wp_bind_untaking waits held fun waited m e held => ?_
  refine wp_bind_untaking (untaking_of_gentle killExpired_gentle) held fun _ m e held => ?_
  exact wp_frame (frame_kept _ _ _) (untaking_of_gentle (dispatch_gentle grace waited.1 waited.2)) held

end Serving

section Turns
variable {m : Memory} {e : Kernel × Asked}

def Turned : Unit ⊕ Unit → Memory → Kernel × Asked → Prop
  | .inl _, _, e => Kept .none [] [] e
  | .inr _, _, _ => True

theorem wp_bind_any {op : Op} {β : Type} {f : op.Ans → Code β} {Q : β → Memory → Kernel × Asked → Prop}
    (other : op ≠ .swap .rebootRequested) (rest : ∀ r e, (f r).wp around asked Q m e) :
    (call op >>= f).wp around asked Q m e :=
  (wp_bind _ _ _ _ _).mpr (wp_perform (P := fun _ => True) trivial (fun _ _ _ _ => trivial)
    (fun _ _ => asked_of other) fun _ r e' _ _ => rest r e')

/-- Where the loop is left nothing has to be kept any more. -/
theorem wp_bind_leaving {α β : Type} {p : Code α} {f : α → Code β} {Q : β → Memory → Kernel × Asked → Prop}
    (gentle : Gentle p) (rest : ∀ a m e, (f a).wp around asked Q m e) : (p >>= f).wp around asked Q m e := by
  refine wp_bind_frame (P := fun _ _ => True) ⟨?_,?_,?_,?_⟩ gentle trivial fun a m e _ => rest a m e
  · exact fun _ _ _ _ _ => trivial
  · exact fun _ _ _ _ _ _ _ => trivial
  · exact fun _ _ _ _ _ _ _ _ => trivial
  · rintro op m e allowed - rfl
    exact absurd (allowed _ rfl) (by decide)

theorem wp_stopServing (grace : Nat) : (stopServing grace).wp around asked Turned m e := by
  refine wp_bind_leaving (gentle_call rfl) fun _ m e => ?_
  refine wp_bind_leaving (shutdownAll_gentle grace) fun _ m e => ?_
  exact wp_bind_leaving acknowledgeShutdown_gentle fun _ m e => trivial

/-- Whether to stop is asked of three flags, one after the other; who has asked before the turn has raised one
of them, and no one but this thread lowers it. -/
theorem wp_turn (grace : Nat) (held : Kept .none [] [] e) : (turn grace).wp around asked Turned m e := by
  refine (wp_bind _ _ _ _ _).mpr (wp_perform (P := fun e => Kept .none [] [] e) held ?_ ?_ ?_)
  · exact fun e e' moved held => kept_moves moved held
  · exact fun e held _ => noneLost_of_kept held
  rintro e reboot ⟨k',a'⟩ held replied
  obtain ⟨answered,heard⟩ := Machine.watched_answer_iff.mp replied
  obtain ⟨rfl,same⟩ := answer_swap (m := m) answered
  have heard : a' = e.2.turned := heard
  dsimp only at same
  subst same heard
  cases down : e.1.requested .rebootRequested with
  | true =>
    refine wp_bind_any (by simp) fun poweroff e => wp_bind_any (by simp) fun halt e => ?_
    rw [if_pos (by simp)]
    exact wp_stopServing grace
  | false =>
    rw [lower_down down]
    have early : e.2.late = false := (noneLost_of_kept held).early
    have warned : Kept .none [.poweroffRequested,.haltRequested] [.reload,.isolate,.dump] (e.1,e.2.turned) := by
      refine ⟨⟨held.waits.reload,held.waits.dump,held.waits.isolate,held.waits.stop⟩,⟨fun due => ⟨due,by simp⟩,
        fun due => ⟨due,by simp⟩,fun due => ⟨?_,by simp,by simp⟩⟩,fun late => ?_⟩
      · exact Option.isSome_iff_ne_none.mp due
      · have stop : e.2.stop = true := by simpa [Asked.turned,early] using late
        have up := held.waits.stop stop
        simpa [down] using up
    refine wp_bind_take warned (by simp) fun e poweroff k' held answered => ?_
    obtain ⟨rfl,rfl⟩ := answer_swap answered
    cases down : e.1.requested .poweroffRequested with
    | true =>
      refine wp_bind_any (by simp) fun halt e => ?_
      rw [if_pos (by simp)]
      exact wp_stopServing grace
    | false =>
      rw [lower_down down]
      have warned : Kept .none [.haltRequested] [.reload,.isolate,.dump] (e.1,noted (.swap .poweroffRequested) e.2) :=
        ⟨held.waits,held.due,fun late => by simpa [down] using held.warned late⟩
      refine wp_bind_take warned (by simp) fun e halt k' held answered => ?_
      obtain ⟨rfl,rfl⟩ := answer_swap answered
      cases down : e.1.requested .haltRequested with
      | true => exact wp_stopServing grace
      | false =>
        rw [lower_down down]
        have kept : Kept .none [] [.reload,.isolate,.dump] (e.1,noted (.swap .haltRequested) e.2) :=
          ⟨held.waits,held.due,fun late => by simpa [down] using held.warned late⟩
        refine wp_mono (wp_serve grace kept) fun turned m e held => ?_
        cases turned with
        | inl _ => exact held
        | inr _ => trivial

theorem wp_main (held : Kept .none [] [] e) : main.wp around asked (fun _ _ _ => True) m e := by
  have guards : Untaking guardSignals := by
    refine uses_bind (untaking_call rfl) fun installed => ?_
    refine uses_bind (untaking_of_gentle (gentle_of_plain (orElseLog_plain fun _ => rfl))) fun _ => ?_
    refine uses_bind (untaking_call rfl) fun blocked => ?_
    exact untaking_of_gentle (gentle_of_plain (orElseLog_plain fun _ => rfl))
  have boots : ∀ cfg, Untaking (boot cfg) := fun cfg =>
    uses_bind (untaking_call rfl) fun _ =>
    uses_bind (untaking_call rfl) fun _ =>
    uses_bind (untaking_call rfl) fun _ =>
    uses_bind (untaking_call rfl) fun _ =>
    uses_bind (uses_update fun _ => trivial) fun _ =>
    untaking_of_gentle (gentle_of_supervising (spawnAll_supervises _))
  refine wp_bind_untaking (untaking_of_gentle (gentle_of_plain prepare_plain)) held fun cfg m e held => ?_
  refine wp_bind_untaking guards held fun _ m e held => ?_
  refine wp_bind_untaking (boots cfg) held fun _ m e held => ?_
  refine wp_bind_untaking (untaking_call rfl) held fun unblocked m e held => ?_
  refine wp_bind_untaking (untaking_of_gentle (gentle_of_plain (orElseLog_plain fun _ => rfl))) held
    fun _ m e held => ?_
  refine wp_bind_untaking (uses_update fun _ => trivial) held fun _ m e held => ?_
  refine wp_repeatFrom (fun _ _ e => Kept .none [] [] e) held (fun _ _ _ _ turns => absurd turns (by simp)) ?_
  intro _ m e held
  refine wp_mono (wp_turn _ held) fun turned m e kept => ?_
  cases turned with
  | inl _ => exact kept
  | inr _ => trivial

/-- Whenever the loop turns, however the requests of the other thread and the signals fall: a reload that has
been asked for since the configuration was last read, a dump since the last one was published and the last
isolate, unless it has been acted on, are waiting to be taken, and have been asked for since the loop last
turned; and if the program has ever been asked to stop, the loop is turning for the first time since. -/
theorem none_lost (m : Memory) (k : Kernel) {t : State Memory Op Op.Ans (Kernel × Asked) Unit}
    (run : Reaches around ⟨main,m,(k,{})⟩ t) (turns : t.program.next? = some (.swap .rebootRequested)) :
    NoneLost t.env.1 t.env.2 := by
  have initial : Kept .none [] [] (k,({} : Asked)) :=
    ⟨⟨fun h => absurd h (by simp),fun h => absurd h (by simp),fun _ h => absurd h (by simp),
      fun h => absurd h (by simp)⟩,
      ⟨fun h => absurd h (by simp),fun h => absurd h (by simp),fun h => absurd h (by simp)⟩,
      fun h => absurd h (by simp)⟩
  exact wp_everywhere run (wp_main initial) (fun _ _ _ _ h => absurd h (by simp)) turns

end Turns

section Runs

def web : ServiceDef := { name := "web", path := "/usr/bin/web", target := "multi-user" }

def config : Config := { Config.default with services := [web] }

def turning : Cue Op Event := .upTo (· == .swap .rebootRequested) 400

def askedRun : Option (State Memory Op Op.Ans (Kernel × Asked) Unit) :=
  drive (Kernel.machine.watched asks) (fun op m e => Kernel.obliging (fun _ => true) config op m e.1)
    [turning,.stir .requestReload,.upTo (· == .loadUnits) 400,.stir .requestReload,
      .upTo (· == .sleep (fromMillis 100)) 400,.stir (.requestIsolate "rescue"),.stir (.deliver .sigterm),turning]
    ⟨main,{},({},{})⟩

theorem none_lost_asked : ∃ t, askedRun = some t ∧
    t.env.2 = ⟨true,false,some "rescue",true,false,false,false,false⟩ ∧ NoneLost t.env.1 t.env.2 := by
  have there : askedRun.any (fun t => decide (t.program.next? = some (.swap .rebootRequested) ∧
      t.env.2 = ⟨true,false,some "rescue",true,false,false,false,false⟩)) = true := by decide +kernel
  obtain ⟨t,reached,now⟩ := (Option.any_eq_true _ _).mp there
  obtain ⟨turns,left⟩ := of_decide_eq_true now
  exact ⟨t,reached,left,none_lost {} {} (drive_reaches reached) turns⟩

end Runs
end MitosServices.Requests
