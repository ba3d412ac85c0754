import MitosServices.Interaction.Halting
import MitosServices.LoopRule

/-! Nothing the program does goes on for ever but its loop. What waits for a deadline looks at the clock each
time around, and a later look shows a later time. -/
namespace MitosServices.Liveness
open Interaction Interaction.Program

/-- The clock, as it was last seen; each look at it shows a later time. -/
structure Ticks {Env : Type} (S : Surroundings Memory Op Op.Ans Env) (clock : Env → Nat) : Prop where
  moves : ∀ op m e e', S.moves op m e e' → clock e ≤ clock e'
  replies : ∀ op m e r e', S.replies op m e r e' → clock e ≤ clock e'
  reads : ∀ m e t e', S.replies .now m e t e' → clock e < t ∧ t = clock e'

section Rules
variable {Env : Type} {S : Surroundings Memory Op Op.Ans Env} {clock : Env → Nat} {α β γ : Type}

theorem wp_clock (ticks : Ticks S clock) (p : Code α) {m : Memory} {e : Env} {t : Nat} (start : t ≤ clock e) :
    p.wp S (fun _ _ _ => True) (fun _ _ e => t ≤ clock e) m e := by
  refine wp_frame (P := fun _ e => t ≤ clock e) ⟨?_,?_,?_,?_⟩ (uses_any p) start
  · exact fun _ _ _ _ held => held
  · exact fun op m e e' _ moved held => held.trans (ticks.moves op m e e' moved)
  · exact fun op m e r e' _ replied held => held.trans (ticks.replies op m e r e' replied)
  · exact fun _ _ _ _ _ => trivial

/-- A loop that looks at the clock first, and is left once a deadline has passed. -/
theorem halting_until (ticks : Ticks S clock) {start : β} {rest : β → Nat → Code (β ⊕ γ)} (deadline : Nat)
    (turns : ∀ b t, Halting S (rest b t))
    (leaves : ∀ b t, deadline ≤ t → ∀ m e, (rest b t).wp S (fun _ _ _ => True) (fun turn _ _ => turn.isRight = true) m e) :
    Halting S (repeatFrom start fun b => now >>= rest b) := by
  refine halting_repeatFrom (fun _ _ e => deadline - clock e)
    (fun b => halting_bind (halting_perform _) fun t => turns b t) ?_
  intro b m e b' m' e' run
  have left : (now >>= rest b).wp S (fun _ _ _ => True)
      (fun turn _ e' => turn.isRight = true ∨ deadline - clock e' < deadline - clock e) m e := by
    refine (wp_bind _ _ _ _ _).mpr (wp_perform (P := fun e' => clock e ≤ clock e') le_rfl ?_ (fun _ _ => trivial) ?_)
    · exact fun e₁ e₂ moved held => held.trans (ticks.moves _ m e₁ e₂ moved)
    intro e₁ t e₂ held replied
    obtain ⟨later,seen⟩ := ticks.reads m e₁ t e₂ replied
    by_cases late : deadline ≤ t
    · exact wp_mono (leaves b t late m e₂) fun _ _ _ out => .inl out
    · refine wp_mono (wp_clock ticks (rest b t) seen.le) fun _ _ e₃ held' => .inr ?_
      omega
  rcases wp_returns run left with out | falls
  · contradiction
  · exact falls

end Rules

section Parts
variable {Env : Type} {S : Surroundings Memory Op Op.Ans Env} {clock : Env → Nat}

theorem halting_call (op : Op) : Halting S (call op) := halting_perform op

theorem resolveWith_halts {resolve : String → Code (Option Nat)} (inside : ∀ spec, Halting S (resolve spec))
    (spec : Option String) : Halting S (resolveWith resolve spec) := by
  cases spec with
  | none => exact halting_pure _
  | some spec => exact inside spec

theorem prepareCommand_halts (d : ServiceDef) : Halting S (prepareCommand d) :=
  halting_bind (resolveWith_halts (fun _ => halting_call _) _) fun _ =>
  halting_bind (halting_provided (halting_call _)) fun _ =>
  halting_bind (resolveWith_halts (fun _ => halting_call _) _) fun _ =>
  halting_bind (halting_provided (halting_call _)) fun _ =>
  halting_bind (halting_call _) fun _ =>
  halting_bind (halting_call _) fun _ => halting_pure _

theorem track_halts (pid : Int) (d : ServiceDef) (times : List Nat) : Halting S (track pid d times) :=
  halting_bind (halting_call _) fun _ => halting_update _

theorem started_halts (d : ServiceDef) (times : List Nat) (pid : Int) : Halting S (started d times pid) :=
  halting_bind (halting_call _) fun _ =>
  halting_bind (halting_call _) fun _ =>
  halting_bind (halting_call _) fun _ =>
  halting_bind (halting_each fun _ _ => halting_call _) fun _ => track_halts pid d times

theorem rescued_halts (pid : Int) : Halting S (rescued pid) :=
  halting_bind (halting_call _) fun _ =>
  halting_bind (halting_call _) fun _ =>
  halting_bind (halting_call _) fun _ => track_halts pid fallbackShell []

theorem fallBack_halts : Halting S fallBack := by
  refine halting_bind (halting_call _) fun shell => ?_
  cases shell with
  | ok pid => exact rescued_halts pid
  | error e => exact halting_pure ()

theorem spawnWithHistory_halts (d : ServiceDef) (times : List Nat) : Halting S (spawnWithHistory d times) := by
  refine halting_bind (prepareCommand_halts d) fun command => halting_bind (halting_call _) fun child => ?_
  cases child with
  | ok pid => exact started_halts d times pid
  | error e => exact halting_bind (halting_call _) fun _ => halting_provided fallBack_halts

variable (ticks : Ticks S clock)
include ticks

theorem waitForReady_halts (name : String) (timeout : Nat) : Halting S (waitForReady name timeout) := by
  refine halting_bind (halting_call _) fun start => halting_bind ?_ fun ready => halting_provided (halting_call _)
  refine halting_until ticks (start + timeout) (fun _ t => ?_) fun _ t late m e => ?_
  · split
    · refine halting_bind (halting_call _) fun ready => ?_
      split
      · exact halting_pure _
      · exact halting_bind (halting_call _) fun _ => halting_pure _
    · exact halting_pure _
  · rw [if_neg (Nat.not_lt.mpr late)]
    exact rfl

theorem stopOne_halts (pid : Int) (name : String) : Halting S (stopOne pid name) := by
  refine halting_bind (halting_call _) fun _ => halting_bind (halting_call _) fun start => ?_
  refine halting_bind ?_ fun _ => halting_call _
  refine halting_until ticks (start + fromSecs 3) (fun _ t => ?_) fun _ t late m e => ?_
  · split
    · exact halting_bind (halting_call _) fun _ => halting_pure _
    · refine halting_bind (halting_call _) fun status => ?_
      split
      · exact halting_pure _
      · exact halting_bind (halting_call _) fun _ => halting_pure _
      · exact halting_pure _
  · rw [if_pos late]
    exact wp_then (wp_clock ticks _ (Nat.zero_le _)) fun _ _ _ _ => rfl

theorem awaitExits_halts (deadline : Nat) : Halting S (awaitExits deadline) := by
  refine halting_until ticks deadline (fun _ t => halting_bind halting_read fun m => ?_) fun _ t late m e => ?_
  · split
    · refine halting_bind (halting_call _) fun status => ?_
      split
      · exact halting_bind (halting_exchange _) fun _ => halting_pure _
      · exact halting_bind (halting_call _) fun _ => halting_pure _
      · exact halting_pure _
      · exact halting_pure _
      · exact halting_bind (halting_call _) fun _ => halting_pure _
    · exact halting_pure _
  · refine wp_bind_read trivial ?_
    rw [if_neg (by simp [Nat.not_lt.mpr late])]
    exact rfl

theorem startOne_halts (configured spawned : List String) (d : ServiceDef) :
    Halting S (startOne configured spawned d) := by
  unfold startOne
  dsimp only
  split
  · exact halting_bind (halting_call _) fun _ => halting_pure _
  · refine halting_bind (halting_each fun dep _ => waitForReady_halts ticks dep _) fun _ => ?_
    exact halting_bind (spawnWithHistory_halts d []) fun _ => halting_bind halting_read fun _ => halting_pure _

theorem startEach_halts (configured spawned : List String) (defs : List ServiceDef) :
    Halting S (startEach configured spawned defs) := by
  induction defs generalizing spawned with
  | nil => exact halting_pure ()
  | cons d rest ih => exact halting_bind (startOne_halts ticks configured spawned d) fun _ => ih _

theorem spawnAll_halts (defs : List ServiceDef) : Halting S (spawnAll defs) := by
  refine halting_bind ?_ fun ordered => startEach_halts ticks _ _ ordered
  exact halting_bind (halting_provided (halting_call _)) fun _ => halting_pure _

theorem stopRemoved_halts (pid : Int) : Halting S (stopRemoved pid) := by
  refine halting_bind (halting_exchange _) fun removed => ?_
  cases removed with
  | none => exact halting_pure ()
  | some sup =>
    refine halting_bind (halting_call _) fun _ => ?_
    exact halting_bind (stopOne_halts ticks pid _) fun _ => halting_call _

theorem reconcileOne_halts (d : ServiceDef) : Halting S (reconcileOne d) := by
  refine halting_bind halting_read fun m => halting_bind (halting_call _) fun visited => ?_
  split
  · split
    · exact halting_pure _
    · refine halting_bind ?_ fun _ => halting_pure _
      refine halting_bind (halting_call _) fun _ => halting_bind (halting_exchange _) fun _ => ?_
      exact halting_bind (stopOne_halts ticks _ _) fun _ => spawnWithHistory_halts d []
  · refine halting_bind (halting_call _) fun _ => ?_
    exact halting_bind (spawnWithHistory_halts d []) fun _ => halting_pure _

theorem reconcile_halts (touched : List String) (defs : List ServiceDef) : Halting S (reconcile touched defs) := by
  induction defs generalizing touched with
  | nil => exact halting_pure _
  | cons d rest ih => exact halting_bind (reconcileOne_halts ticks d) fun _ => ih _

theorem reloadServices_halts (defs : List ServiceDef) : Halting S (reloadServices defs) :=
  halting_bind halting_read fun _ =>
  halting_bind (halting_call _) fun _ =>
  halting_bind (halting_each fun pid _ => stopRemoved_halts ticks pid) fun _ => reconcile_halts ticks _ _

theorem shutdownAll_halts (grace : Nat) : Halting S (shutdownAll grace) :=
  halting_bind halting_read fun _ =>
  halting_bind (halting_call _) fun _ =>
  halting_bind (halting_call _) fun _ =>
  halting_bind (halting_each fun _ _ => halting_call _) fun _ =>
  halting_bind (halting_call _) fun _ =>
  halting_bind (halting_provided (halting_call _)) fun _ =>
  halting_bind (awaitExits_halts ticks _) fun _ =>
  halting_bind halting_read fun _ =>
  halting_bind (halting_call _) fun _ =>
  halting_bind (halting_each fun _ _ => halting_bind (halting_call _) fun _ => halting_call _) fun _ =>
  halting_each fun _ _ => halting_bind (halting_call _) fun _ => halting_call _

end Parts

section Turn
variable {Env : Type} {S : Surroundings Memory Op Op.Ans Env} {clock : Env → Nat}

theorem statusLines_halts (visited : List (Int × Supervised)) : Halting S (statusLines visited) := by
  induction visited with
  | nil => exact halting_pure _
  | cons entry rest ih =>
    exact halting_bind (halting_call _) fun _ => halting_bind ih fun _ => halting_pure _

theorem dumpStatus_halts : Halting S dumpStatus := by
  refine halting_bind (halting_call _) fun _ => halting_provided (halting_bind halting_read fun m => ?_)
  refine halting_bind ?_ fun _ => halting_bind (halting_call _) fun _ => halting_call _
  refine halting_bind halting_read fun m => ?_
  split
  · exact halting_pure _
  · exact halting_bind (halting_call _) fun visited => halting_bind (statusLines_halts visited) fun _ => halting_pure _

theorem expiredAmong_halts (t : Nat) (visited : List (Int × Supervised)) : Halting S (expiredAmong t visited) := by
  induction visited with
  | nil => exact halting_pure _
  | cons entry rest ih =>
    unfold expiredAmong
    split
    · exact ih
    · exact halting_bind (halting_call _) fun _ => halting_bind ih fun _ => halting_pure _

theorem killExpired_halts : Halting S killExpired := by
  refine halting_bind ?_ fun pids => halting_each fun _ _ => halting_bind (halting_call _) fun _ => halting_call _
  refine halting_bind (halting_call _) fun t => halting_bind halting_read fun m => ?_
  exact halting_bind (halting_call _) fun visited => expiredAmong_halts t visited

theorem handleExit_halts (status : WaitStatus) : Halting S (handleExit status) := by
  cases status with
  | stillAlive => exact halting_pure _
  | other => exact halting_pure _
  | ended pid ending =>
    refine halting_bind (halting_exchange _) fun removed => ?_
    cases removed with
    | none => exact halting_pure _
    | some sup =>
      refine halting_bind (halting_call _) fun _ => halting_bind (halting_call _) fun _ => ?_
      refine halting_bind (halting_call _) fun _ => ?_
      split
      · exact halting_pure _
      split
      · refine halting_bind (halting_call _) fun t => ?_
        dsimp only
        split
        · exact halting_bind (halting_call _) fun _ => halting_pure _
        · exact halting_bind (spawnWithHistory_halts _ _) fun _ => halting_pure _
      · exact halting_pure _

theorem state_halts : Halting S Timers.state := by
  refine halting_bind halting_read fun m => ?_
  split
  · exact halting_pure _
  · exact halting_bind (halting_call _) fun _ => halting_exchange _

theorem dueNames_halts (s : Timers.State) (timers : List TimerDef) : Halting S (Timers.dueNames s timers) := by
  induction timers with
  | nil => exact halting_pure _
  | cons t rest ih =>
    unfold Timers.dueNames
    split
    · exact ih
    · refine halting_bind ?_ fun due => halting_bind ih fun _ => halting_pure _
      refine halting_bind (halting_call _) fun _ => ?_
      exact halting_bind (halting_each fun _ _ => halting_provided (halting_call _)) fun _ => halting_pure _

theorem fire_halts (services : List ServiceDef) (name : String) : Halting S (Timers.fire services name) := by
  unfold Timers.fire
  split
  · exact halting_call _
  · refine halting_bind ?_ fun child => ?_
    · refine halting_bind (resolveWith_halts (fun _ => halting_call _) _) fun _ => ?_
      exact halting_bind (resolveWith_halts (fun _ => halting_call _) _) fun _ => halting_call _
    · cases child with
      | ok pid => exact halting_bind (halting_call _) fun _ => halting_update _
      | error e => exact halting_call _

theorem tick_halts (timers : List TimerDef) (services : List ServiceDef) : Halting S (Timers.tick timers services) := by
  unfold Timers.tick
  split
  · exact halting_pure _
  · refine halting_bind state_halts fun s => halting_bind (dueNames_halts s timers) fun due => ?_
    exact halting_each fun name _ => fire_halts services name

theorem offer_halts (pid : Int) : Halting S (offer pid) := by
  refine halting_bind ?_ fun timer => ?_
  · refine halting_bind state_halts fun _ => halting_bind (halting_exchange _) fun removed => ?_
    cases removed with
    | none => exact halting_pure _
    | some name =>
      refine halting_bind (halting_call _) fun _ => halting_bind (halting_call _) fun _ => ?_
      exact halting_bind (halting_update _) fun _ => halting_pure _
  · split
    · exact halting_pure _
    · refine halting_bind (halting_call _) fun removed => ?_
      cases removed with
      | none => exact halting_pure _
      | some info =>
        exact halting_bind (halting_call _) fun _ => halting_bind (halting_call _) fun _ => halting_pure _

theorem loadConfig_halts : Halting S loadConfig :=
  halting_bind (halting_call _) fun _ => halting_bind (halting_call _) fun _ => halting_pure _

theorem applyHostname_halts (refused : String → String → Line) (hostname : Option String) :
    Halting S (applyHostname refused hostname) := by
  refine halting_each fun h _ => halting_bind (halting_call _) fun result => ?_
  cases result with
  | ok _ => exact halting_pure _
  | error e => exact halting_call _

theorem acknowledgeShutdown_halts : Halting S acknowledgeShutdown := by
  refine halting_bind (halting_call _) fun opened => ?_
  cases opened with
  | ok _ => exact halting_call _
  | error e => exact halting_call _

theorem orElseLog_halts (result : Except String Unit) (refused : String → Line) :
    Halting S (orElseLog result refused) := by
  cases result with
  | ok _ => exact halting_pure _
  | error e => exact halting_call _

theorem prepare_halts : Halting S prepare := by
  refine halting_bind (halting_call _) fun _ => halting_bind (halting_call _) fun _ => ?_
  refine halting_bind (orElseLog_halts _ _) fun _ => halting_bind (halting_call _) fun _ => ?_
  refine halting_bind (halting_provided (halting_call _)) fun _ => halting_bind loadConfig_halts fun cfg => ?_
  exact halting_bind (halting_call _) fun _ => halting_bind (applyHostname_halts _ _) fun _ => halting_pure _

variable (ticks : Ticks S clock)
include ticks

theorem handleReload_halts : Halting S handleReload := by
  refine halting_bind (halting_call _) fun requested => halting_provided ?_
  refine halting_bind (halting_call _) fun _ => halting_bind loadConfig_halts fun newCfg => ?_
  refine halting_bind (halting_call _) fun _ => halting_bind (applyHostname_halts _ _) fun _ => ?_
  refine halting_bind (halting_call _) fun _ => halting_bind (halting_update _) fun _ => ?_
  refine halting_bind halting_read fun m => halting_bind ?_ fun watch => ?_
  · refine halting_bind (reloadServices_halts ticks _) fun touched => ?_
    exact halting_bind (halting_call _) fun _ => halting_bind (halting_call _) fun _ => halting_pure _
  · exact halting_bind (halting_update _) fun _ => halting_call _

theorem handleIsolate_halts : Halting S handleIsolate := by
  refine halting_bind (halting_call _) fun pending => halting_each fun name _ => halting_bind halting_read fun m => ?_
  split
  · exact halting_call _
  · refine halting_bind (halting_call _) fun _ => halting_bind (reloadServices_halts ticks _) fun _ => ?_
    exact halting_bind (halting_update _) fun _ => halting_call _

theorem restore_halts (watch : Watch) (name : String) : Halting S (Rollback.restore watch name) := by
  refine halting_bind (halting_call _) fun _ => halting_bind (reloadServices_halts ticks _) fun _ => ?_
  refine halting_bind (halting_call _) fun _ => ?_
  refine halting_bind (halting_each fun _ _ => halting_bind (halting_call _) fun _ => halting_pure _) fun _ => ?_
  exact halting_bind (halting_call _) fun _ => halting_update _

theorem resolveWatch_halts (failedName : Option String) : Halting S (resolveWatch failedName) := by
  refine halting_bind (halting_exchange _) fun taken => halting_each fun w _ => halting_bind ?_ fun _ => halting_update _
  unfold Rollback.check
  split
  · exact halting_bind (restore_halts ticks w _) fun _ => halting_pure _
  · refine halting_bind (halting_call _) fun t => ?_
    split
    · exact halting_pure _
    · exact halting_bind (halting_call _) fun _ => halting_pure _

theorem stopServing_halts (line : Line) (grace : Nat) :
    Halting S (log line >>= fun _ => shutdownAll grace >>= fun _ => acknowledgeShutdown >>= fun _ =>
      pure (.inr () : Unit ⊕ Unit)) :=
  halting_bind (halting_call _) fun _ => halting_bind (shutdownAll_halts ticks grace) fun _ =>
    halting_bind acknowledgeShutdown_halts fun _ => halting_pure _

theorem judge_halts (grace : Nat) (outcome : Outcome) : Halting S (judge grace outcome) := by
  cases outcome with
  | «continue» => exact halting_bind (resolveWatch_halts ticks _) fun _ => halting_pure _
  | gaveUp name => exact halting_bind (resolveWatch_halts ticks _) fun _ => halting_pure _
  | halt name =>
    refine halting_bind halting_read fun m => ?_
    split
    · exact halting_bind (resolveWatch_halts ticks _) fun _ => halting_pure _
    · exact stopServing_halts ticks _ grace

theorem dispatch_halts (grace : Nat) (polling : Bool) (waited : Except Errno WaitStatus) :
    Halting S (dispatch grace polling waited) := by
  match waited with
  | .ok (.ended pid ending) =>
    refine halting_bind (offer_halts pid) fun claimed => halting_bind ?_ fun outcome => judge_halts ticks grace outcome
    cases claimed with
    | true => exact halting_pure _
    | false => exact handleExit_halts (.ended pid ending)
  | .ok .stillAlive =>
    refine halting_bind (halting_provided (halting_call _)) fun _ => ?_
    exact halting_bind (resolveWatch_halts ticks _) fun _ => halting_pure _
  | .ok .other => exact halting_bind (handleExit_halts _) fun outcome => judge_halts ticks grace outcome
  | .error .eintr => exact halting_pure _
  | .error .echild =>
    exact halting_bind (halting_call _) fun _ => halting_bind (halting_call _) fun _ => halting_pure _
  | .error .other => exact halting_bind (halting_call _) fun _ => halting_pure _

theorem serve_halts (grace : Nat) : Halting S (serve grace) := by
  refine halting_bind (handleReload_halts ticks) fun _ => halting_bind (handleIsolate_halts ticks) fun _ => ?_
  refine halting_bind dumpStatus_halts fun _ => halting_bind halting_read fun m => ?_
  refine halting_bind (tick_halts _ _) fun _ => ?_
  refine halting_bind (halting_bind halting_read fun _ => halting_bind (halting_call _) fun _ => halting_pure _)
    fun waited => ?_
  exact halting_bind killExpired_halts fun _ => dispatch_halts ticks grace _ _

theorem turn_halts (grace : Nat) : Halting S (turn grace) := by
  refine halting_bind (halting_call _) fun _ => halting_bind (halting_call _) fun _ => ?_
  refine halting_bind (halting_call _) fun _ => ?_
  split
  · exact stopServing_halts ticks _ grace
  · exact serve_halts ticks grace

theorem boot_halts (cfg : Config) : Halting S (boot cfg) := by
  refine halting_bind (halting_call _) fun _ => halting_bind (halting_call _) fun _ => ?_
  refine halting_bind (halting_call _) fun _ => halting_bind (halting_call _) fun _ => ?_
  exact halting_bind (halting_update _) fun _ => spawnAll_halts ticks _

end Turn

def opening : Code Nat := do
  let cfg ← prepare
  guardSignals
  boot cfg
  let unblocked ← call .unblockHandled
  orElseLog unblocked .unblockRefused
  update fun m => { m with watch := none }
  pure (fromSecs cfg.shutdownTimeoutSecs)

theorem main_eq : main = (opening >>= fun grace => loop grace) := by
  change main = opening.bind _
  have sequence : opening = prepare.bind fun cfg => guardSignals.bind fun _ => (boot cfg).bind fun _ =>
      (call .unblockHandled).bind fun unblocked => (orElseLog unblocked .unblockRefused).bind fun _ =>
      (update fun m => { m with watch := none }).bind fun _ => .ret (fromSecs cfg.shutdownTimeoutSecs) := rfl
  rw [sequence]
  simp only [Program.bind_assoc]
  rfl

section Runs
variable {Env : Type} {S : Surroundings Memory Op Op.Ans Env} {clock : Env → Nat}

theorem opening_halts (ticks : Ticks S clock) : Halting S opening := by
  refine halting_bind prepare_halts fun cfg => halting_bind ?_ fun _ => halting_bind (boot_halts ticks cfg) fun _ => ?_
  · refine halting_bind (halting_call _) fun _ => halting_bind (orElseLog_halts _ _) fun _ => ?_
    exact halting_bind (halting_call _) fun _ => orElseLog_halts _ _
  · refine halting_bind (halting_call _) fun _ => halting_bind (orElseLog_halts _ _) fun _ => ?_
    exact halting_bind (halting_update _) fun _ => halting_pure _

/-- Among any surroundings in which time passes, and whatever they do: a run of the program that does not end
turns its loop again and again. No boot, reload, isolate, rollback, wait for readiness or stop of a service
lasts for ever, unless a call is never answered. -/
theorem keeps_turning (ticks : Ticks S clock) (m : Memory) (e : Env) {f : ℕ → State Memory Op Op.Ans Env Unit}
    (start : f 0 = ⟨main,m,e⟩) (run : Endless S f) (n : ℕ) :
    ∃ k, n ≤ k ∧ (f k).program.next? = some (.swap .rebootRequested) := by
  rw [main_eq] at start
  exact turns_without_end (opening_halts ticks) (fun grace _ => turn_halts ticks grace) (fun _ _ => rfl) run start n

def willing : Surroundings Memory Op Op.Ans Nat where
  moves _ _ _ _ := False
  replies op _ e r e' := match op, r with
    | .now, t => t = e + 1 ∧ e' = e + 1
    | _, _ => e' = e

theorem willing_ticks : Ticks willing id where
  moves _ _ _ _ := False.elim
  replies op m e r e' replied := by
    cases op with
    | now => exact (Nat.le_succ e).trans_eq replied.2.symm
    | _ => exact replied.ge
  reads m e t e' replied := by
    obtain ⟨rfl,rfl⟩ := replied
    exact ⟨Nat.lt_succ_self e,rfl⟩

theorem willing_answers (op : Op) (m : Memory) (e : Nat) : ∃ r e', willing.replies op m e r e' := by
  cases op with
  | now => exact ⟨e+1,e+1,rfl,rfl⟩
  | loadOrDefault => exact ⟨Config.default,e,rfl⟩
  | sethostname _ | openAck | becomeSubreaper | installHandlers | blockHandled | unblockHandled =>
    exact ⟨.ok (),e,rfl⟩
  | swap _ | isReady _ | cgroupsAvailable => exact ⟨false,e,rfl⟩
  | spawn _ _ => exact ⟨.error "",e,rfl⟩
  | waitpid _ _ => exact ⟨.error .eintr,e,rfl⟩
  | iterate _ | loadUnits | loadTimers => exact ⟨[],e,rfl⟩
  | takePendingIsolate | listenFor _ _ _ | resolveUid _ | resolveGid _ | lastPing _ | takeApp _ =>
    exact ⟨none,e,rfl⟩
  | _ => exact ⟨(),e,rfl⟩

/-- They may give the answer one would like. -/
theorem willing_picks {op : Op} (timeless : op ≠ .now) (r : op.Ans) : CanEnd willing (fun r' => r' = r) (call op) := by
  refine canEnd_perform fun m e => ⟨r,e,rfl,?_⟩
  cases op with
  | now => exact absurd rfl timeless
  | _ => exact rfl

/-- A turn may find nothing to do and be interrupted in its wait. -/
theorem willing_turns (grace : Nat) : CanEnd willing (fun turn => turn.isLeft = true) (turn grace) := by
  have ends : ∀ {α : Type} {p : Code α}, Halting willing p → Ends willing p := ends_of_halting willing_answers
  have lowered : ∀ flag, CanEnd willing (fun requested => requested = false) (swap flag) :=
    fun flag => @willing_picks (.swap flag) (by simp) false
  have interrupted : CanEnd willing (fun waited => waited.2 = .error .eintr) wait := by
    refine canEnd_then ends_read fun m => canEnd_bind (R := fun waited => waited = .error .eintr) ?_ fun waited h => ?_
    · exact @willing_picks (.waitpid .any (polls m)) (by simp) (.error .eintr)
    · exact canEnd_pure h
  refine canEnd_bind (lowered _) fun reboot unset => canEnd_bind (lowered _) fun poweroff unset' => ?_
  refine canEnd_bind (lowered _) fun halt unset'' => ?_
  subst unset unset' unset''
  refine canEnd_then (ends (handleReload_halts willing_ticks)) fun _ => ?_
  refine canEnd_then (ends (handleIsolate_halts willing_ticks)) fun _ => ?_
  refine canEnd_then (ends dumpStatus_halts) fun _ => canEnd_then ends_read fun m => ?_
  refine canEnd_then (ends (tick_halts _ _)) fun _ => canEnd_bind interrupted fun waited unwaited => ?_
  refine canEnd_then (ends killExpired_halts) fun _ => ?_
  rw [unwaited]
  exact canEnd_pure rfl

theorem keeps_turning_willing : ∃ f : ℕ → State Memory Op Op.Ans Nat Unit, f 0 = ⟨main,{},0⟩ ∧ Endless willing f ∧
    ∀ n, ∃ k, n ≤ k ∧ (f k).program.next? = some (.swap .rebootRequested) := by
  have ends : Ends willing opening := ends_of_halting willing_answers (opening_halts willing_ticks)
  obtain ⟨f,start,run⟩ : ∃ f : ℕ → State Memory Op Op.Ans Nat Unit,
      f 0 = ⟨opening >>= fun grace => loop grace,{},0⟩ ∧ Endless willing f :=
    endless_loop ends (fun grace _ => willing_turns grace) {} 0
  have begins : f 0 = ⟨main,{},0⟩ := by
    rw [start,main_eq]
  exact ⟨f,begins,run,keeps_turning willing_ticks {} 0 begins run⟩

end Runs
end MitosServices.Liveness
