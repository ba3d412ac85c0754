import MitosServices.Phases

/-! The rule for the event loop: what has to be shown of the phases of a turn, so that every run of it comes to
what they promise; and the rule for an invariant of the loop, which is one case of it. -/
namespace MitosServices
open Interaction Interaction.Program

def takeFlags : Code Bool := do
  let reboot ← swap .rebootRequested
  let poweroff ← swap .poweroffRequested
  let halt ← swap .haltRequested
  pure (reboot || poweroff || halt)

theorem turn_eq (grace : Nat) :
    turn grace = takeFlags >>= fun raised => if raised then stopServing grace else serve grace := rfl

section Phases
variable {Env : Type} (S : Surroundings Memory Op Op.Ans Env) (A : Option Op → Memory → Env → Prop)

/-- The phases of a turn, from `head` to `head`: `served` once no flag is raised, `handled` and `idle` after the
reload and the isolate, `waited` with what the wait came to, `offered` with an exit that is claimed or not, and
`judged` with its outcome. A turn that ends the loop is `called` for, `closing`, `closed`, and at last `ended`. -/
structure LoopPhases (head served handled idle : Memory → Env → Prop)
    (waited : Except Errno WaitStatus → Memory → Env → Prop) (offered : Int → Ending → Bool → Memory → Env → Prop)
    (judged : Outcome → Memory → Env → Prop) (called closing closed ended : Memory → Env → Prop) : Prop where
  unread : ∀ m e, A none m e
  takes : ∀ m e, head m e → takeFlags.wp S A (fun raised m e => if raised then called m e else served m e) m e
  reloads : ∀ m e, served m e → handleReload.wp S A (fun _ => handled) m e
  isolates : ∀ m e, handled m e → handleIsolate.wp S A (fun _ => idle) m e
  dumps : ∀ m e, idle m e → dumpStatus.wp S A (fun _ => idle) m e
  ticks : ∀ m e, idle m e → (Timers.tick m.timerDefs m.cfg.services).wp S A (fun _ => idle) m e
  waits : ∀ m e, idle m e → (waitpid .any (polls m)).wp S A waited m e
  kills : ∀ status m e, waited status m e → killExpired.wp S A (fun _ => waited status) m e
  offers : ∀ pid ending m e, waited (.ok (.ended pid ending)) m e → (offer pid).wp S A (offered pid ending) m e
  claims : ∀ pid ending m e, offered pid ending true m e → judged .continue m e
  exits : ∀ pid ending m e, offered pid ending false m e → (handleExit (.ended pid ending)).wp S A judged m e
  waited_calm : ∀ status, openedBy status = none → Calmly S A (waited status)
  passes : ∀ status m e, waited (.ok status) m e → openedBy (.ok status) = none → judged .continue m e
  fails : ∀ err m e, waited (.error err) m e → head m e
  resolves : ∀ outcome m e, judged outcome m e →
    (∀ name, outcome = .halt name → (m.watch.any fun w => w.touches name) = true) →
    (resolveWatch outcome.failedName).wp S A (fun _ => head) m e
  halts : ∀ name m e, judged (.halt name) m e → (m.watch.any fun w => w.touches name) = false →
    (log .criticalExited).wp S A (fun _ => closing) m e
  relays : ∀ m e, called m e → (log .shutdownRelayed).wp S A (fun _ => closing) m e
  closes : ∀ grace m e, closing m e → (shutdownAll grace).wp S A (fun _ => closed) m e
  acknowledges : ∀ m e, closed m e → acknowledgeShutdown.wp S A (fun _ => ended) m e

variable {S A}
variable {m : Memory} {e : Env} {head served handled idle called closing closed ended : Memory → Env → Prop}
  {waited : Except Errno WaitStatus → Memory → Env → Prop} {offered : Int → Ending → Bool → Memory → Env → Prop}
  {judged : Outcome → Memory → Env → Prop}

def Turned (head ended : Memory → Env → Prop) : Unit ⊕ Unit → Memory → Env → Prop
  | .inl _, m, e => head m e
  | .inr _, m, e => ended m e

theorem wp_keepsOn {p : Code Unit} (kept : p.wp S A (fun _ => head) m e) :
    (p >>= fun _ => pure (.inl ())).wp S A (Turned head ended) m e := wp_then kept fun _ _ _ held => held

variable (phases : LoopPhases S A head served handled idle waited offered judged called closing closed ended)
include phases

theorem LoopPhases.wp_closing (grace : Nat) (start : closing m e) : (do
    shutdownAll grace
    acknowledgeShutdown
    pure (.inr ()) : Code (Unit ⊕ Unit)).wp S A (Turned head ended) m e := by
  refine wp_then (phases.closes grace m e start) fun _ m e held => ?_
  exact wp_then (phases.acknowledges m e held) fun _ m e done => done

theorem LoopPhases.wp_judge (grace : Nat) {outcome : Outcome} (start : judged outcome m e) :
    (judge grace outcome).wp S A (Turned head ended) m e := by
  have resolves := phases.resolves outcome m e start
  cases outcome with
  | «continue» => exact wp_keepsOn (resolves (by simp))
  | gaveUp name => exact wp_keepsOn (resolves (by simp))
  | halt name =>
    refine wp_bind_read (phases.unread _ _) ?_
    split
    · rename_i touched
      exact wp_keepsOn (resolves (by rintro _ ⟨⟩; exact touched))
    · rename_i untouched
      refine wp_then (phases.halts name m e start (Bool.eq_false_iff.mpr untouched)) fun _ m e held => ?_
      exact phases.wp_closing grace held

theorem LoopPhases.wp_dispatchExit (grace : Nat) {pid : Int} {ending : Ending}
    (start : waited (.ok (.ended pid ending)) m e) :
    (dispatchExit grace pid ending).wp S A (Turned head ended) m e := by
  refine wp_then (phases.offers pid ending m e start) fun claimed m e held => ?_
  refine wp_then (R := judged) ?_ fun outcome m e held => phases.wp_judge grace held
  cases claimed with
  | true => exact phases.claims pid ending m e held
  | false => exact phases.exits pid ending m e held

theorem LoopPhases.wp_dispatch (grace : Nat) (polling : Bool) {status : Except Errno WaitStatus}
    (start : waited status m e) : (dispatch grace polling status).wp S A (Turned head ended) m e := by
  match status with
  | .ok (.ended pid ending) => exact phases.wp_dispatchExit grace start
  | .ok .stillAlive =>
    have sleeps : (provided polling (sleep (fromMillis 100))).Uses Eq Op.Calm := uses_provided (calm_call rfl)
    refine wp_bind_calmly (phases.waited_calm _ rfl) sleeps start fun _ e held => ?_
    have passed := phases.passes .stillAlive m e held rfl
    exact wp_keepsOn (phases.resolves .continue m e passed (by simp))
  | .ok .other => exact phases.wp_judge grace (phases.passes .other m e start rfl)
  | .error .eintr => exact phases.fails .eintr m e start
  | .error .echild =>
    have calm := phases.waited_calm (.error .echild) rfl
    refine wp_bind_calmly calm (calm_log rfl) start fun _ e held => ?_
    exact wp_bind_calmly calm (calm_call rfl) held fun _ e held => phases.fails .echild m e held
  | .error .other =>
    have calm := phases.waited_calm (.error .other) rfl
    exact wp_bind_calmly calm (calm_log rfl) start fun _ e held => phases.fails .other m e held

theorem LoopPhases.wp_serve (grace : Nat) (start : served m e) :
    (serve grace).wp S A (Turned head ended) m e := by
  refine wp_then (phases.reloads m e start) fun _ m e held => ?_
  refine wp_then (phases.isolates m e held) fun _ m e held => ?_
  refine wp_then (phases.dumps m e held) fun _ m e held => ?_
  refine wp_bind_read (phases.unread _ _) ?_
  refine wp_then (phases.ticks m e held) fun _ m e held => ?_
  refine wp_then (R := fun status => waited status.2) ?_ fun status m e held => ?_
  · exact wp_bind_read (phases.unread _ _) (wp_then (phases.waits m e held) fun status m e held => held)
  refine wp_then (phases.kills status.2 m e held) fun _ m e held => ?_
  exact phases.wp_dispatch grace status.1 held

theorem LoopPhases.wp_turn (grace : Nat) (start : head m e) : (turn grace).wp S A (Turned head ended) m e := by
  rw [turn_eq]
  refine wp_then (phases.takes m e start) fun raised m e held => ?_
  cases raised with
  | true =>
    refine wp_then (phases.relays m e held) fun _ m e held => ?_
    exact phases.wp_closing grace held
  | false => exact phases.wp_serve grace held

/-- A run of the loop: the head of every turn is met, and the end when it is left. -/
theorem LoopPhases.wp_loop (grace : Nat) (start : head m e) : (loop grace).wp S A (fun _ => ended) m e := by
  refine wp_repeatFrom (fun _ => head) start (fun _ m e _ => phases.unread m e) ?_
  intro _ m e held
  refine wp_mono (phases.wp_turn grace held) fun turned m e done => ?_
  cases turned with
  | inl _ => exact done
  | inr _ => exact done

theorem LoopPhases.wp_runEventLoop (grace : Nat) (start : head { m with watch := none } e) :
    (runEventLoop grace).wp S A (fun _ => ended) m e :=
  wp_bind_update (phases.unread _ _) (phases.wp_loop grace start)

end Phases

/-- An invariant of the loop: `J` holds when it turns, `K` within a turn. No call outside a reload,
an isolate, the answer to an exit and the verdict on the watch can touch `K`, and a run is judged
only when the loop turns. -/
structure LoopInvariant {Env : Type} (S : Surroundings Memory Op Op.Ans Env)
    (A : Option Op → Memory → Env → Prop) (J K : Memory → Env → Prop) : Prop where
  unasked : ∀ op m e, op ≠ some (.swap .rebootRequested) → A op m e
  head : ∀ m e, J m e → A (some (.swap .rebootRequested)) m e
  pending : ∀ m e e', S.moves (.swap .rebootRequested) m e e' → J m e → J m e'
  turned : ∀ m e r e', S.replies (.swap .rebootRequested) m e r e' → J m e → K m e'
  moves : ∀ op m e e', S.moves op m e e' → K m e → K m e'
  replies : ∀ op m e r e', op.configures = false → op.starts = false → op ≠ .swap .rebootRequested →
    S.replies op m e r e' → K m e → K m e'
  timers : ∀ m m' e, OnlyTimers m m' → K m e → K m' e
  reloads : ∀ m e, K m e → handleReload.wp S A (fun _ => K) m e
  isolates : ∀ m e, K m e → handleIsolate.wp S A (fun _ => K) m e
  exits : ∀ status m e, K m e → (handleExit status).wp S A (fun _ => K) m e
  resolves : ∀ failedName m e, K m e → (resolveWatch failedName).wp S A (fun _ => J) m e
  settles : ∀ m e, K m e → J m e

section Rule
variable {Env : Type} {S : Surroundings Memory Op Op.Ans Env} {A : Option Op → Memory → Env → Prop}
  {J K : Memory → Env → Prop} {m : Memory} {e : Env}

structure Op.Passes (op : Op) : Prop where
  unconfigured : op.configures = false
  unstarted : op.starts = false
  turnless : op ≠ .swap .rebootRequested

abbrev Passing {α : Type} (p : Code α) : Prop := p.Uses OnlyTimers Op.Passes

theorem passing_call {op : Op} (apart : (!op.configures && !op.starts) = true)
    (turnless : op ≠ .swap .rebootRequested) : Passing (call op) := by
  simp only [Bool.and_eq_true,Bool.not_eq_true'] at apart
  exact uses_perform ⟨apart.1,apart.2,turnless⟩

theorem passing_of_calm {α : Type} {p : Code α} (calm : p.Uses Eq Op.Calm) : Passing p := by
  refine uses_mono calm onlyTimers_of_eq fun op allowed => ⟨allowed.unconfigured,allowed.unstarted,?_⟩
  rintro rfl
  exact absurd allowed.plain.1 (by decide)

theorem passing_of_ticking {α : Type} {p : Code α} (ticks : Ticking p) : Passing p := by
  refine uses_mono ticks (fun _ _ written => written) fun op allowed => ⟨allowed.unconfigured,allowed.unstarted,?_⟩
  rintro rfl
  exact absurd allowed.times (by decide)

theorem passing_of_offering {α : Type} {p : Code α} (offers : Offering p) : Passing p := by
  refine uses_mono offers (fun _ _ written => written) fun op allowed => ⟨allowed.unconfigured,allowed.unstarted,?_⟩
  rintro rfl
  exact absurd allowed.offers (by decide)

theorem dumpStatus_passes : Passing dumpStatus := by
  refine uses_bind (passing_call rfl (by simp)) fun _ => uses_provided ?_
  refine uses_bind (uses_read fun _ => rfl) fun m => ?_
  refine uses_bind (passing_of_calm statusSummary_calm) fun services => ?_
  exact uses_bind (passing_call rfl (by simp)) fun _ => passing_call rfl (by simp)

theorem killExpired_passes : Passing killExpired :=
  uses_bind (passing_of_calm expiredWatchdogs_calm) fun _ =>
  uses_each fun _ _ => uses_bind (passing_call rfl (by simp)) fun _ => passing_call rfl (by simp)

theorem wp_passing {α : Type} {p : Code α} (loops : LoopInvariant S A J K) (passing : Passing p)
    (start : K m e) : p.wp S A (fun _ => K) m e := by
  refine wp_frame ⟨loops.timers,?_,?_,?_⟩ passing start
  · intro op m e e' _ moved held
    exact loops.moves op m e e' moved held
  · intro op m e r e' allowed replied held
    exact loops.replies op m e r e' allowed.unconfigured allowed.unstarted allowed.turnless replied held
  · intro op m e allowed _
    refine loops.unasked op m e ?_
    rintro rfl
    exact (allowed _ rfl).turnless rfl

theorem wp_bind_passing {α β : Type} {p : Code α} {f : α → Code β} {Q : β → Memory → Env → Prop}
    (loops : LoopInvariant S A J K) (passing : Passing p) (start : K m e)
    (rest : ∀ a m e, K m e → (f a).wp S A Q m e) : (p >>= f).wp S A Q m e :=
  wp_then (wp_passing loops passing start) rest

/-- Once the loop has been left nothing is asked any more. -/
theorem wp_leaving {α : Type} {p : Code α} (loops : LoopInvariant S A J K) (gentle : Gentle p) :
    p.wp S A (fun _ _ _ => True) m e := by
  refine wp_frame (P := fun _ _ => True) ⟨?_,?_,?_,?_⟩ gentle trivial
  · exact fun _ _ _ _ _ => trivial
  · exact fun _ _ _ _ _ _ _ => trivial
  · exact fun _ _ _ _ _ _ _ _ => trivial
  · intro op m e allowed _
    refine loops.unasked op m e ?_
    rintro rfl
    exact absurd (allowed _ rfl) (by decide)

theorem takeFlags_takes (loops : LoopInvariant S A J K) (start : J m e) :
    takeFlags.wp S A (fun _ => K) m e := by
  refine (wp_bind _ _ _ _ _).mpr (wp_perform (P := J m) start ?_ ?_ ?_)
  · exact fun e e' moved held => loops.pending m e e' moved held
  · exact fun e held => loops.head m e held
  intro e reboot e' held replied
  have held := loops.turned m e reboot e' replied held
  refine wp_bind_passing loops (passing_call rfl (by simp)) held fun poweroff m e held => ?_
  exact wp_bind_passing loops (passing_call rfl (by simp)) held fun halt m e held => held

/-- What is kept by the calls that pass cannot be spoilt by calm ones. -/
theorem calmly_of_loops (loops : LoopInvariant S A J K) : Calmly S A K := by
  have passes : ∀ op : Op, op.Calm → op ≠ .swap .rebootRequested := by
    rintro op calm rfl
    exact absurd calm.plain.1 (by decide)
  refine ⟨fun _ _ _ same held => same ▸ held,?_,?_,?_⟩
  · exact fun op m e e' _ moved held => loops.moves op m e e' moved held
  · exact fun op m e r e' calm replied held =>
      loops.replies op m e r e' calm.unconfigured calm.unstarted (passes op calm) replied held
  · refine fun op m e calm _ => loops.unasked op m e ?_
    rintro rfl
    exact passes _ (calm _ rfl) rfl

/-- An invariant of the loop is one of every phase but the head, and nothing is asked once the loop is left. -/
theorem LoopInvariant.phases (loops : LoopInvariant S A J K) :
    LoopPhases S A J K K K (fun _ => K) (fun _ _ _ => K) (fun _ => K) K K (fun _ _ => True) fun _ _ => True where
  unread m e := loops.unasked none m e (by simp)
  takes m e held := wp_mono (takeFlags_takes loops held) fun raised m e kept => by cases raised <;> exact kept
  reloads := loops.reloads
  isolates := loops.isolates
  dumps _ _ held := wp_passing loops dumpStatus_passes held
  ticks _ _ held := wp_passing loops (passing_of_ticking (tick_ticks _ _)) held
  waits _ _ held := wp_passing loops (passing_call rfl (by simp)) held
  kills _ _ _ held := wp_passing loops killExpired_passes held
  offers pid _ _ _ held := wp_passing loops (passing_of_offering (offer_offers pid)) held
  claims _ _ _ _ held := held
  exits pid ending m e held := loops.exits (.ended pid ending) m e held
  waited_calm _ _ := calmly_of_loops loops
  passes _ _ _ held _ := held
  fails _ m e held := loops.settles m e held
  resolves outcome m e held _ := loops.resolves outcome.failedName m e held
  halts _ _ _ held _ := wp_passing loops (passing_call rfl (by simp)) held
  relays _ _ held := wp_passing loops (passing_call rfl (by simp)) held
  closes grace _ _ _ := wp_leaving loops (shutdownAll_gentle grace)
  acknowledges _ _ _ := wp_leaving loops acknowledgeShutdown_gentle

/-- An invariant that holds when the loop begins holds whenever it turns. -/
theorem wp_loop_keeps (loops : LoopInvariant S A J K) (grace : Nat) (start : J m e) :
    (loop grace).wp S A (fun _ _ _ => True) m e := loops.phases.wp_loop grace start

end Rule
end MitosServices
