import MitosServices.LoopRule

/-! Serving, as opposed to the end of a run: outside the shutdown the program neither acknowledges
anything nor says that it stops, and only a timer's tick may abort the process. -/
namespace MitosServices
open Interaction Interaction.Program

def Line.closes : Line → Bool
  | .shutdownRelayed | .criticalExited => true
  | _ => false

def Op.serves : Op → Bool
  | .log line => !line.closes
  | .openAck | .panic => false
  | _ => true

abbrev Serving {α : Type} (p : Code α) : Prop := p.Uses (fun _ _ => True) fun op => op.serves = true

section Rules

theorem serving_call {op : Op} (serves : op.serves = true) : Serving (call op) := uses_perform serves

theorem serving_read : Serving (read : Code Memory) := uses_read fun _ => trivial

theorem serving_update (f : Memory → Memory) : Serving (update f : Code Unit) := uses_update fun _ => trivial

theorem serving_exchange {β : Type} (act : Memory → β × Memory) : Serving (exchange act : Code β) :=
  uses_exchange fun _ => trivial

theorem serving_of_uses {α : Type} {p : Code α} {upd : Memory → Memory → Prop} {ok : Op → Prop}
    (uses : p.Uses upd ok) (serves : ∀ op, ok op → op.serves = true) : Serving p :=
  uses_mono uses (fun _ _ _ => trivial) serves

theorem serves_of_besides {op : Op} (h : op.besides = true) : op.serves = true := by
  cases op with
  | log line => cases line <;> first | rfl | contradiction
  | _ => first | rfl | contradiction

theorem serves_of_awaits {name : String} {op : Op} (h : op.awaits name = true) : op.serves = true := by
  cases op with
  | log line =>
    obtain rfl : line = .readyTimedOut name := beq_iff_eq.mp h
    rfl
  | _ => first | rfl | contradiction

end Rules

section Supervisor

theorem fallBack_serves : Serving fallBack := by
  apply uses_bind (serving_call rfl)
  intro shell
  cases shell with
  | ok pid => exact serving_of_uses (rescued_follows pid) fun _ => serves_of_besides
  | error _ => exact uses_pure ()

theorem spawnWithHistory_serves (d : ServiceDef) (times : List Nat) : Serving (spawnWithHistory d times) := by
  apply uses_bind (serving_of_uses (prepareCommand_besides d) fun _ => serves_of_besides)
  intro command
  apply uses_bind (serving_call rfl)
  intro child
  cases child with
  | ok pid => exact serving_of_uses (started_follows d times pid) fun _ => serves_of_besides
  | error _ => exact uses_bind (serving_call rfl) fun _ => uses_provided fallBack_serves

theorem startOne_serves (configured spawned : List String) (d : ServiceDef) :
    Serving (startOne configured spawned d) := by
  unfold startOne
  dsimp only
  split
  · exact uses_bind (serving_call rfl) fun _ => uses_pure _
  · have waits : ∀ dep, Serving (waitForReady dep readyWaitTimeout) :=
      fun dep => serving_of_uses (waitForReady_awaits dep _) fun _ => serves_of_awaits
    exact uses_bind (uses_each fun dep _ => waits dep) fun _ =>
      uses_bind (spawnWithHistory_serves d []) fun _ => uses_bind serving_read fun _ => uses_pure _

theorem startEach_serves (configured spawned : List String) (defs : List ServiceDef) :
    Serving (startEach configured spawned defs) := by
  induction defs generalizing spawned with
  | nil => exact uses_pure ()
  | cons d rest ih => exact uses_bind (startOne_serves configured spawned d) fun _ => ih _

theorem spawnAll_serves (defs : List ServiceDef) : Serving (spawnAll defs) := by
  apply uses_bind
  · exact uses_bind (uses_provided (serving_call rfl)) fun _ => uses_pure _
  · exact fun ordered => startEach_serves _ _ ordered

theorem restart_serves (sup : Supervised) : Serving (restart sup) := by
  apply uses_bind (serving_call rfl)
  intro t
  dsimp only
  split
  · exact uses_bind (serving_call rfl) fun _ => uses_pure _
  · exact uses_bind (spawnWithHistory_serves _ _) fun _ => uses_pure _

theorem handleExit_serves (status : WaitStatus) : Serving (handleExit status) := by
  cases status with
  | stillAlive => exact uses_pure _
  | other => exact uses_pure _
  | ended pid ending =>
    apply uses_bind (serving_exchange _)
    intro removed
    cases removed with
    | none => exact uses_pure _
    | some sup =>
      apply uses_bind (serving_call rfl)
      intro _
      apply uses_bind (serving_call rfl)
      intro _
      apply uses_bind (serving_call rfl)
      intro _
      split
      · exact uses_pure _
      · split
        · exact restart_serves sup
        · exact uses_pure _

theorem stopOne_serves (pid : Int) (name : String) : Serving (stopOne pid name) := by
  apply uses_bind (serving_call rfl)
  intro _
  apply uses_bind (serving_call rfl)
  intro start
  apply uses_bind
  · apply uses_repeatFrom
    intro _
    apply uses_bind (serving_call rfl)
    intro t
    split
    · exact uses_bind (serving_call rfl) fun _ => uses_pure _
    · apply uses_bind (serving_call rfl)
      intro status
      split
      · exact uses_pure _
      · exact uses_bind (serving_call rfl) fun _ => uses_pure _
      · exact uses_pure _
  · exact fun _ => serving_call rfl

theorem stopRemoved_serves (pid : Int) : Serving (stopRemoved pid) := by
  apply uses_bind (serving_exchange _)
  intro removed
  cases removed with
  | none => exact uses_pure ()
  | some sup =>
    exact uses_bind (serving_call rfl) fun _ =>
      uses_bind (stopOne_serves _ _) fun _ => serving_call rfl

theorem reconcileOne_serves (d : ServiceDef) : Serving (reconcileOne d) := by
  apply uses_bind serving_read
  intro m
  apply uses_bind (serving_call rfl)
  intro visited
  split
  · split
    · exact uses_pure _
    · apply uses_bind
      · exact uses_bind (serving_call rfl) fun _ => uses_bind (serving_exchange _) fun _ =>
          uses_bind (stopOne_serves _ _) fun _ => spawnWithHistory_serves d []
      · exact fun _ => uses_pure _
  · exact uses_bind (serving_call rfl) fun _ =>
      uses_bind (spawnWithHistory_serves d []) fun _ => uses_pure _

theorem reconcile_serves (touched : List String) (defs : List ServiceDef) :
    Serving (reconcile touched defs) := by
  induction defs generalizing touched with
  | nil => exact uses_pure _
  | cons d rest ih => exact uses_bind (reconcileOne_serves d) fun _ => ih _

theorem reloadServices_serves (defs : List ServiceDef) : Serving (reloadServices defs) :=
  uses_bind serving_read fun _ =>
  uses_bind (serving_call rfl) fun _ =>
  uses_bind (uses_each fun _ _ => stopRemoved_serves _) fun _ => reconcile_serves _ _

end Supervisor

section Requests

theorem loadConfig_serves : Serving loadConfig :=
  uses_bind (serving_call rfl) fun _ => uses_bind (serving_call rfl) fun _ => uses_pure _

theorem applyHostname_serves {refused : String → String → Line}
    (open_ : ∀ h e, (refused h e).closes = false) (hostname : Option String) :
    Serving (applyHostname refused hostname) := by
  apply uses_each
  intro h _
  apply uses_bind (serving_call rfl)
  intro result
  cases result with
  | ok _ => exact uses_pure _
  | error e =>
    apply serving_call
    rw [Op.serves,open_ h e]
    rfl

theorem begin_serves (newCfg previous : Config) (target : String) :
    Serving (Rollback.begin newCfg previous target) := by
  apply uses_bind (reloadServices_serves _)
  intro touched
  apply uses_bind (serving_call (by cases touched <;> rfl))
  exact fun _ => uses_bind (serving_call rfl) fun _ => uses_pure _

theorem handleReload_serves : Serving handleReload := by
  apply uses_bind (serving_call rfl)
  exact fun _ => uses_provided (
    uses_bind (serving_call rfl) fun _ =>
    uses_bind loadConfig_serves fun _ =>
    uses_bind (serving_call rfl) fun _ =>
    uses_bind (applyHostname_serves (fun _ _ => rfl) _) fun _ =>
    uses_bind (serving_call rfl) fun _ =>
    uses_bind (serving_update _) fun _ =>
    uses_bind serving_read fun _ =>
    uses_bind (begin_serves _ _ _) fun _ =>
    uses_bind (serving_update _) fun _ => serving_call rfl)

theorem isolate_serves (name : String) : Serving (isolate name) := by
  apply uses_bind serving_read
  intro m
  split
  · exact serving_call rfl
  · exact uses_bind (serving_call rfl) fun _ =>
      uses_bind (reloadServices_serves _) fun _ =>
      uses_bind (serving_update _) fun _ => serving_call rfl

theorem handleIsolate_serves : Serving handleIsolate :=
  uses_bind (serving_call rfl) fun _ => uses_each fun name _ => isolate_serves name

theorem statusSummary_serves : Serving statusSummary := by
  have lines : ∀ visited, Serving (statusLines visited) := by
    intro visited
    induction visited with
    | nil => exact uses_pure _
    | cons entry rest ih =>
      exact uses_bind (serving_call rfl) fun _ => uses_bind ih fun _ => uses_pure _
  apply uses_bind serving_read
  intro m
  split
  · exact uses_pure _
  · exact uses_bind (serving_call rfl) fun _ => uses_bind (lines _) fun _ => uses_pure _

theorem dumpStatus_serves : Serving dumpStatus := by
  apply uses_bind (serving_call rfl)
  exact fun _ => uses_provided (
    uses_bind serving_read fun _ =>
    uses_bind statusSummary_serves fun _ =>
    uses_bind (serving_call rfl) fun _ => serving_call rfl)

end Requests

section Loop

theorem wait_serves : Serving wait :=
  uses_bind serving_read fun _ => uses_bind (serving_call rfl) fun _ => uses_pure _

theorem killExpired_serves : Serving killExpired := by
  have among : ∀ t visited, Serving (expiredAmong t visited) := by
    intro t visited
    induction visited with
    | nil => exact uses_pure _
    | cons entry rest ih =>
      obtain ⟨pid,sup⟩ := entry
      unfold expiredAmong
      split
      · exact ih
      · exact uses_bind (serving_call rfl) fun _ => uses_bind ih fun _ => uses_pure _
  apply uses_bind
  · exact uses_bind (serving_call rfl) fun _ => uses_bind serving_read fun _ =>
      uses_bind (serving_call rfl) fun _ => among _ _
  · exact fun _ => uses_each fun _ _ => uses_bind (serving_call rfl) fun _ => serving_call rfl

theorem state_serves : Serving Timers.state := by
  apply uses_bind serving_read
  intro m
  split
  · exact uses_pure _
  · exact uses_bind (serving_call rfl) fun _ => serving_exchange _

theorem offer_serves (pid : Int) : Serving (offer pid) := by
  have apps : Serving (reapApp pid) := by
    apply uses_bind (serving_call rfl)
    intro removed
    cases removed with
    | none => exact uses_pure _
    | some info =>
      exact uses_bind (serving_call rfl) fun _ => uses_bind (serving_call rfl) fun _ => uses_pure _
  apply uses_bind
  · apply uses_bind state_serves
    intro _
    apply uses_bind (serving_exchange _)
    intro removed
    cases removed with
    | none => exact uses_pure _
    | some name =>
      exact uses_bind (serving_call rfl) fun _ => uses_bind (serving_call rfl) fun _ =>
        uses_bind (serving_update _) fun _ => uses_pure _
  · intro timer
    cases timer with
    | true => exact uses_pure _
    | false => exact apps

theorem check_serves (watch : Watch) (failedName : Option String) :
    Serving (Rollback.check watch failedName) := by
  have restores : ∀ name, Serving (Rollback.restore watch name) :=
    fun name =>
      uses_bind (serving_call rfl) fun _ =>
      uses_bind (reloadServices_serves _) fun _ =>
      uses_bind (serving_call rfl) fun _ =>
      uses_bind (uses_each fun _ _ => uses_bind (serving_call rfl) fun _ => uses_pure _) fun _ =>
      uses_bind (serving_call rfl) fun _ => serving_update _
  unfold Rollback.check
  split
  · exact uses_bind (restores _) fun _ => uses_pure _
  · apply uses_bind (serving_call rfl)
    intro t
    split
    · exact uses_pure _
    · exact uses_bind (serving_call rfl) fun _ => uses_pure _

theorem resolveWatch_serves (failedName : Option String) : Serving (resolveWatch failedName) :=
  uses_bind (serving_exchange _) fun _ =>
  uses_each fun _ _ => uses_bind (check_serves _ _) fun _ => serving_update _

end Loop

section Tick

theorem fire_serves (services : List ServiceDef) (name : String) : Serving (Timers.fire services name) := by
  have resolves : ∀ spec, Serving (resolveWith (fun spec => call (.resolveUid spec)) spec) := by
    intro spec
    cases spec with
    | none => exact uses_pure _
    | some spec => exact serving_call rfl
  have groups : ∀ spec, Serving (resolveWith (fun spec => call (.resolveGid spec)) spec) := by
    intro spec
    cases spec with
    | none => exact uses_pure _
    | some spec => exact serving_call rfl
  unfold Timers.fire
  split
  · exact serving_call rfl
  · apply uses_bind
    · exact uses_bind (resolves _) fun _ => uses_bind (groups _) fun _ => serving_call rfl
    · intro child
      cases child with
      | ok pid => exact uses_bind (serving_call rfl) fun _ => serving_update _
      | error _ => exact serving_call rfl

end Tick

section Shutdown

theorem awaitExits_serves (deadline : Nat) : Serving (awaitExits deadline) := by
  apply uses_repeatFrom
  intro _
  apply uses_bind (serving_call rfl)
  intro t
  apply uses_bind serving_read
  intro m
  split
  · apply uses_bind (serving_call rfl)
    intro status
    split
    · exact uses_bind (serving_exchange _) fun _ => uses_pure _
    · exact uses_bind (serving_call rfl) fun _ => uses_pure _
    · exact uses_pure _
    · exact uses_pure _
    · exact uses_bind (serving_call rfl) fun _ => uses_pure _
  · exact uses_pure _

end Shutdown

section Main

theorem orElseLog_serves {result : Except String Unit} {refused : String → Line}
    (open_ : ∀ e, (refused e).closes = false) : Serving (orElseLog result refused) := by
  cases result with
  | ok _ => exact uses_pure _
  | error e =>
    apply serving_call
    rw [Op.serves,open_ e]
    rfl

theorem guardSignals_serves : Serving guardSignals := by
  apply uses_bind (serving_call rfl)
  intro installed
  apply uses_bind (orElseLog_serves fun _ => rfl)
  intro _
  apply uses_bind (serving_call rfl)
  exact fun blocked => orElseLog_serves fun _ => rfl

theorem boot_serves (cfg : Config) : Serving (boot cfg) :=
  uses_bind (serving_call rfl) fun _ =>
  uses_bind (serving_call rfl) fun _ =>
  uses_bind (serving_call rfl) fun _ =>
  uses_bind (serving_call rfl) fun _ =>
  uses_bind (serving_update _) fun _ => spawnAll_serves _

end Main

/-- `P` holds while the program serves, and a shutdown leaves `Q` behind. -/
structure ServesUntil {Env : Type} (S : Surroundings Memory Op Op.Ans Env)
    (A : Option Op → Memory → Env → Prop) (grace : Nat) (P Q : Memory → Env → Prop) : Prop where
  frame : S.Frame A (fun _ _ => True) (fun op => op.serves = true) P
  ticks : ∀ (rest : Code (Unit ⊕ Unit)) R m e, P m e → (∀ m e, P m e → rest.wp S A R m e) → (do
    dumpStatus
    let m ← read
    Timers.tick m.timerDefs m.cfg.services
    rest : Code (Unit ⊕ Unit)).wp S A R m e
  closes : ∀ line m e, line.closes = true → P m e → (do
    log line
    shutdownAll grace
    acknowledgeShutdown : Code Unit).wp S A (fun _ => Q) m e

section Turn
variable {Env : Type} {S : Surroundings Memory Op Op.Ans Env} {A : Option Op → Memory → Env → Prop}
  {grace : Nat} {P Q : Memory → Env → Prop} {m : Memory} {e : Env}

theorem wp_bind_until {α β : Type} {p : Code α} {f : α → Code β} {R : β → Memory → Env → Prop}
    (closing : ServesUntil S A grace P Q) (serves : Serving p) (held : P m e)
    (rest : ∀ a m e, P m e → (f a).wp S A R m e) : (p >>= f).wp S A R m e :=
  wp_bind_frame closing.frame serves held rest

theorem wp_closing_until {line : Line} (closing : ServesUntil S A grace P Q) (closes : line.closes = true)
    (held : P m e) : (do
      log line
      shutdownAll grace
      acknowledgeShutdown
      pure (.inr ()) : Code (Unit ⊕ Unit)).wp S A (Turned P Q) m e := by
  have closed := closing.closes line m e closes held
  simp only [wp_bind] at closed ⊢
  exact closed

theorem wp_resolve_until (closing : ServesUntil S A grace P Q) (failedName : Option String) (held : P m e) :
    (do
      resolveWatch failedName
      pure (.inl ()) : Code (Unit ⊕ Unit)).wp S A (Turned P Q) m e :=
  wp_bind_until closing (resolveWatch_serves failedName) held fun _ _ _ held => held

theorem wp_judge_until (closing : ServesUntil S A grace P Q) (outcome : Outcome) (held : P m e) :
    (judge grace outcome).wp S A (Turned P Q) m e := by
  cases outcome with
  | «continue» => exact wp_resolve_until closing none held
  | gaveUp name => exact wp_resolve_until closing (some name) held
  | halt name =>
    apply wp_bind_until closing serving_read held
    intro table m e held
    split
    · exact wp_resolve_until closing (some name) held
    · exact wp_closing_until closing rfl held

theorem wp_dispatch_until (closing : ServesUntil S A grace P Q) (polling : Bool)
    (waited : Except Errno WaitStatus) (held : P m e) :
    (dispatch grace polling waited).wp S A (Turned P Q) m e := by
  match waited with
  | .ok (.ended pid ending) =>
    apply wp_bind_until closing (offer_serves pid) held
    intro claimed m e held
    apply wp_bind_until closing _ held
    · exact fun outcome m e held => wp_judge_until closing outcome held
    · cases claimed with
      | true => exact uses_pure _
      | false => exact handleExit_serves (.ended pid ending)
  | .ok .stillAlive =>
    apply wp_bind_until closing (uses_provided (serving_call rfl)) held
    exact fun _ m e held => wp_resolve_until closing none held
  | .ok .other =>
    apply wp_bind_until closing (handleExit_serves .other) held
    exact fun outcome m e held => wp_judge_until closing outcome held
  | .error .eintr => exact held
  | .error .echild =>
    apply wp_bind_until closing (serving_call rfl) held
    intro _ m e held
    exact wp_bind_until closing (serving_call rfl) held fun _ _ _ held => held
  | .error .other => exact wp_bind_until closing (serving_call rfl) held fun _ _ _ held => held

theorem wp_turn_until (closing : ServesUntil S A grace P Q) (held : P m e) :
    (turn grace).wp S A (Turned P Q) m e := by
  apply wp_bind_until closing (serving_call rfl) held
  intro reboot m e held
  apply wp_bind_until closing (serving_call rfl) held
  intro poweroff m e held
  apply wp_bind_until closing (serving_call rfl) held
  intro halt m e held
  split
  · exact wp_closing_until closing rfl held
  · apply wp_bind_until closing handleReload_serves held
    intro _ m e held
    apply wp_bind_until closing handleIsolate_serves held
    intro _ m e held
    apply closing.ticks _ _ m e held
    intro m e held
    apply wp_bind_until closing wait_serves held
    intro waited m e held
    apply wp_bind_until closing killExpired_serves held
    exact fun _ m e held => wp_dispatch_until closing waited.1 waited.2 held

theorem wp_runEventLoop_until (closing : ServesUntil S A grace P Q) (held : P m e) :
    (runEventLoop grace).wp S A (fun _ => Q) m e := by
  apply wp_bind_until closing (serving_update _) held
  intro _ m e held
  apply wp_repeatFrom (fun _ => P) held
  · exact fun _ m e held => closing.frame.holds none m e (by simp) held
  · intro _ m e held
    apply wp_mono (wp_turn_until closing held)
    intro turned m e done
    cases turned with
    | inl _ => exact done
    | inr _ => exact done

end Turn
end MitosServices
