import MitosServices.Footprint
import MitosServices.Interaction.Parts

/-! Every start of a service is one `spawnWithHistory` from beginning to end: between the starts the
program makes none of their calls, and tracks no other service. -/
namespace MitosServices
open Interaction Interaction.Program

def startedAs : Origin → Option String
  | .service name _ => some name
  | .rescue => some fallbackShell.name
  | _ => none

theorem startedAs_of_unstarted {origin : Origin} {command : Command}
    (unstarted : (Op.spawn origin command).starts = false) : startedAs origin = none := by
  cases origin <;> first | rfl | contradiction

def IsStart (p : Code Unit) : Prop := ∃ d times, p = spawnWithHistory d times

abbrev StartsWhole {α : Type} (p : Code α) : Prop :=
  p.Made IsStart (fun _ _ => True) fun op => op.starts = false

def Shrinks (m m' : Memory) : Prop :=
  ∀ pid sup, m'.services.lookup pid = some sup → m.services.lookup pid = some sup

abbrev StartsOnly {α : Type} (p : Code α) : Prop := p.Made IsStart Shrinks fun op => op.starts = false

section Rules

theorem shrinks_of_same {m m' : Memory} (same : m'.services = m.services) : Shrinks m m' := by
  intro pid sup found
  rwa [same] at found

theorem shrinks_of_eq (m m' : Memory) (same : m = m') : Shrinks m m' := shrinks_of_same (by rw [same])

theorem shrinks_of_onlyTimers (m m' : Memory) (written : OnlyTimers m m') : Shrinks m m' := by
  apply shrinks_of_same
  rw [written]

theorem shrinks_erase (m : Memory) (pid : Int) : Shrinks m { m with services := m.services.erase pid } :=
  fun _ _ found => (lookup_erase_iff.mp found).2

theorem startsOnly_start (d : ServiceDef) (times : List Nat) : StartsOnly (spawnWithHistory d times) :=
  made_part ⟨d,times,rfl⟩

theorem startsOnly_of_calm {α : Type} {p : Code α} (calm : p.Uses Eq Op.Calm) : StartsOnly p :=
  made_of_uses (uses_mono calm shrinks_of_eq fun _ allowed => allowed.unstarted)

theorem startsOnly_of_timers {α : Type} {p : Code α} {ok : Op → Prop} (uses : p.Uses OnlyTimers ok)
    (unstarted : ∀ op, ok op → op.starts = false) : StartsOnly p :=
  made_of_uses (uses_mono uses shrinks_of_onlyTimers unstarted)

theorem startsOnly_call {op : Op} (unstarted : op.starts = false) : StartsOnly (call op) :=
  made_perform unstarted

theorem startsOnly_read : StartsOnly (read : Code Memory) :=
  made_of_uses (uses_read fun _ => shrinks_of_same rfl)

theorem startsOnly_update {f : Memory → Memory} (shrinks : ∀ m, Shrinks m (f m)) :
    StartsOnly (update f : Code Unit) :=
  made_of_uses (uses_update shrinks)

theorem startsOnly_removeService (pid : Int) : StartsOnly (removeService pid) :=
  made_of_uses (uses_exchange fun m => shrinks_erase m pid)

end Rules

section Supervisor

theorem startOne_startsOnly (configured spawned : List String) (d : ServiceDef) :
    StartsOnly (startOne configured spawned d) := by
  unfold startOne
  dsimp only
  split
  · exact made_bind (startsOnly_call rfl) fun _ => made_pure _
  · exact made_bind (made_each fun _ _ => startsOnly_of_calm (waitForReady_calm _ _)) fun _ =>
      made_bind (startsOnly_start d []) fun _ =>
      made_bind startsOnly_read fun _ => made_pure _

theorem startEach_startsOnly (configured spawned : List String) (defs : List ServiceDef) :
    StartsOnly (startEach configured spawned defs) := by
  induction defs generalizing spawned with
  | nil => exact made_pure ()
  | cons d rest ih => exact made_bind (startOne_startsOnly configured spawned d) fun _ => ih _

theorem spawnAll_startsOnly (defs : List ServiceDef) : StartsOnly (spawnAll defs) := by
  refine made_bind ?_ fun ordered => startEach_startsOnly _ _ ordered
  exact made_bind (made_provided (startsOnly_call rfl)) fun _ => made_pure _

theorem restart_startsOnly (sup : Supervised) : StartsOnly (restart sup) := by
  refine made_bind (startsOnly_call rfl) fun t => ?_
  dsimp only
  split
  · exact made_bind (startsOnly_call rfl) fun _ => made_pure _
  · exact made_bind (startsOnly_start _ _) fun _ => made_pure _

theorem handleExit_startsOnly (status : WaitStatus) : StartsOnly (handleExit status) := by
  cases status with
  | stillAlive => exact made_pure _
  | other => exact made_pure _
  | ended pid ending =>
    refine made_bind (startsOnly_removeService pid) fun removed => ?_
    cases removed with
    | none => exact made_pure _
    | some sup =>
      refine made_bind (startsOnly_call rfl) fun _ => made_bind (startsOnly_call rfl) fun _ =>
        made_bind (startsOnly_call rfl) fun _ => ?_
      split
      · exact made_pure _
      · split
        · exact restart_startsOnly sup
        · exact made_pure _

theorem stopOne_startsOnly (pid : Int) (name : String) : StartsOnly (stopOne pid name) := by
  refine made_bind (startsOnly_call rfl) fun _ => made_bind (startsOnly_call rfl) fun start => ?_
  refine made_bind (made_repeatFrom fun _ => ?_) fun _ => startsOnly_call rfl
  refine made_bind (startsOnly_call rfl) fun t => ?_
  split
  · exact made_bind (startsOnly_call rfl) fun _ => made_pure _
  · refine made_bind (startsOnly_call rfl) fun status => ?_
    split
    · exact made_pure _
    · exact made_bind (startsOnly_call rfl) fun _ => made_pure _
    · exact made_pure _

theorem stopRemoved_startsOnly (pid : Int) : StartsOnly (stopRemoved pid) := by
  refine made_bind (startsOnly_removeService pid) fun removed => ?_
  cases removed with
  | none => exact made_pure ()
  | some sup =>
    exact made_bind (startsOnly_call rfl) fun _ =>
      made_bind (stopOne_startsOnly _ _) fun _ => startsOnly_call rfl

theorem replace_startsOnly (pid : Int) (d : ServiceDef) : StartsOnly (replace pid d) :=
  made_bind (startsOnly_call rfl) fun _ =>
  made_bind (startsOnly_removeService pid) fun _ =>
  made_bind (stopOne_startsOnly _ _) fun _ => startsOnly_start d []

theorem reconcileOne_startsOnly (d : ServiceDef) : StartsOnly (reconcileOne d) := by
  refine made_bind startsOnly_read fun m => made_bind (startsOnly_call rfl) fun visited => ?_
  split
  · split
    · exact made_pure _
    · exact made_bind (replace_startsOnly _ _) fun _ => made_pure _
  · exact made_bind (startsOnly_call rfl) fun _ =>
      made_bind (startsOnly_start d []) fun _ => made_pure _

theorem reconcile_startsOnly (touched : List String) (defs : List ServiceDef) :
    StartsOnly (reconcile touched defs) := by
  induction defs generalizing touched with
  | nil => exact made_pure _
  | cons d rest ih => exact made_bind (reconcileOne_startsOnly d) fun _ => ih _

theorem reloadServices_startsOnly (defs : List ServiceDef) : StartsOnly (reloadServices defs) :=
  made_bind startsOnly_read fun _ =>
  made_bind (startsOnly_call rfl) fun _ =>
  made_bind (made_each fun _ _ => stopRemoved_startsOnly _) fun _ => reconcile_startsOnly _ _

theorem awaitExits_startsOnly (deadline : Nat) : StartsOnly (awaitExits deadline) := by
  refine made_repeatFrom fun _ => made_bind (startsOnly_call rfl) fun t =>
    made_bind startsOnly_read fun m => ?_
  split
  · refine made_bind (startsOnly_call rfl) fun status => ?_
    split
    · exact made_bind (startsOnly_removeService _) fun _ => made_pure _
    · exact made_bind (startsOnly_call rfl) fun _ => made_pure _
    · exact made_pure _
    · exact made_pure _
    · exact made_bind (startsOnly_call rfl) fun _ => made_pure _
  · exact made_pure _

theorem shutdownAll_startsOnly (grace : Nat) : StartsOnly (shutdownAll grace) :=
  made_bind startsOnly_read fun _ =>
  made_bind (startsOnly_call rfl) fun _ =>
  made_bind (startsOnly_call rfl) fun _ =>
  made_bind (made_each fun _ _ => startsOnly_call rfl) fun _ =>
  made_bind (startsOnly_call rfl) fun _ =>
  made_bind (made_provided (startsOnly_call rfl)) fun _ =>
  made_bind (awaitExits_startsOnly _) fun _ =>
  made_bind startsOnly_read fun _ =>
  made_bind (startsOnly_call rfl) fun _ =>
  made_bind (made_each fun _ _ => made_bind (startsOnly_call rfl) fun _ => startsOnly_call rfl) fun _ =>
  made_each fun _ _ => made_bind (startsOnly_call rfl) fun _ => startsOnly_call rfl

end Supervisor

/-- What the requests and the verdict on a watch are made of, if reloads of the services are: they
make no call of a start themselves, and leave the table to the reloads. -/
structure Reloading {δ : Type} (parts : Code δ → Prop) (upd : Memory → Memory → Prop)
    (ok : Op → Prop) : Prop where
  reloads : ∀ defs, (reloadServices defs).Made parts upd ok
  calls : ∀ op, op.starts = false → op ≠ .swap .rebootRequested → ok op
  updates : ∀ m m' : Memory, m'.services = m.services → upd m m'

section Requests
variable {δ : Type} {parts : Code δ → Prop} {upd : Memory → Memory → Prop} {ok : Op → Prop}

theorem made_call (reloading : Reloading parts upd ok) {op : Op} (unstarted : op.starts = false)
    (turnless : op ≠ .swap .rebootRequested) : (call op).Made parts upd ok :=
  made_perform (reloading.calls op unstarted turnless)

theorem made_read (reloading : Reloading parts upd ok) : (read : Code Memory).Made parts upd ok :=
  made_of_uses (uses_read fun m => reloading.updates m m rfl)

theorem made_update (reloading : Reloading parts upd ok) {f : Memory → Memory}
    (same : ∀ m, (f m).services = m.services) : (update f : Code Unit).Made parts upd ok :=
  made_of_uses (uses_update fun m => reloading.updates m (f m) (same m))

theorem begin_made (reloading : Reloading parts upd ok) (newCfg previous : Config) (target : String) :
    (Rollback.begin newCfg previous target).Made parts upd ok :=
  made_bind (reloading.reloads _) fun _ =>
  made_bind (made_call reloading rfl (by simp)) fun _ =>
  made_bind (made_call reloading rfl (by simp)) fun _ => made_pure _

theorem loadConfig_made (reloading : Reloading parts upd ok) : loadConfig.Made parts upd ok :=
  made_bind (made_call reloading rfl (by simp)) fun _ =>
  made_bind (made_call reloading rfl (by simp)) fun _ => made_pure _

theorem applyHostname_made (reloading : Reloading parts upd ok) (refused : String → String → Line)
    (hostname : Option String) : (applyHostname refused hostname).Made parts upd ok := by
  refine made_each fun h _ => made_bind (made_call reloading rfl (by simp)) fun result => ?_
  cases result with
  | ok _ => exact made_pure _
  | error _ => exact made_call reloading rfl (by simp)

theorem applyReload_made (reloading : Reloading parts upd ok) : applyReload.Made parts upd ok :=
  made_bind (made_call reloading rfl (by simp)) fun _ =>
  made_bind (loadConfig_made reloading) fun _ =>
  made_bind (made_call reloading rfl (by simp)) fun _ =>
  made_bind (applyHostname_made reloading _ _) fun _ =>
  made_bind (made_call reloading rfl (by simp)) fun _ =>
  made_bind (made_update reloading fun _ => rfl) fun _ =>
  made_bind (made_read reloading) fun _ =>
  made_bind (begin_made reloading _ _ _) fun _ =>
  made_bind (made_update reloading fun _ => rfl) fun _ => made_call reloading rfl (by simp)

theorem handleReload_made (reloading : Reloading parts upd ok) : handleReload.Made parts upd ok :=
  made_bind (made_call reloading rfl (by simp)) fun _ => made_provided (applyReload_made reloading)

theorem isolate_made (reloading : Reloading parts upd ok) (name : String) :
    (isolate name).Made parts upd ok := by
  refine made_bind (made_read reloading) fun m => ?_
  split
  · exact made_call reloading rfl (by simp)
  · exact made_bind (made_call reloading rfl (by simp)) fun _ =>
      made_bind (reloading.reloads _) fun _ =>
      made_bind (made_update reloading fun _ => rfl) fun _ => made_call reloading rfl (by simp)

theorem handleIsolate_made (reloading : Reloading parts upd ok) : handleIsolate.Made parts upd ok :=
  made_bind (made_call reloading rfl (by simp)) fun _ => made_each fun _ _ => isolate_made reloading _

theorem restore_made (reloading : Reloading parts upd ok) (watch : Watch) (name : String) :
    (Rollback.restore watch name).Made parts upd ok :=
  made_bind (made_call reloading rfl (by simp)) fun _ =>
  made_bind (reloading.reloads _) fun _ =>
  made_bind (made_call reloading rfl (by simp)) fun _ =>
  made_bind (made_each fun _ _ =>
    made_bind (made_call reloading rfl (by simp)) fun _ => made_pure _) fun _ =>
  made_bind (made_call reloading rfl (by simp)) fun _ => made_update reloading fun _ => rfl

theorem check_made (reloading : Reloading parts upd ok) (watch : Watch) (failedName : Option String) :
    (Rollback.check watch failedName).Made parts upd ok := by
  unfold Rollback.check
  split
  · exact made_bind (restore_made reloading _ _) fun _ => made_pure _
  · refine made_bind (made_call reloading rfl (by simp)) fun t => ?_
    split
    · exact made_pure _
    · exact made_bind (made_call reloading rfl (by simp)) fun _ => made_pure _

theorem resolveWatch_made (reloading : Reloading parts upd ok) (failedName : Option String) :
    (resolveWatch failedName).Made parts upd ok := by
  have takes : (exchange fun m : Memory => (m.watch,{ m with watch := none })).Made parts upd ok :=
    made_of_uses (uses_exchange fun m => reloading.updates m _ rfl)
  exact made_bind takes fun _ => made_each fun _ _ =>
    made_bind (check_made reloading _ _) fun _ => made_update reloading fun _ => rfl

end Requests

/-- The starts within the reloads are whole. -/
theorem reloading_startsOnly : Reloading IsStart Shrinks fun op => op.starts = false where
  reloads := reloadServices_startsOnly
  calls _ unstarted _ := unstarted
  updates _ _ same := shrinks_of_same same

theorem dumpStatus_startsOnly : StartsOnly dumpStatus :=
  made_bind (startsOnly_call rfl) fun _ => made_provided (
    made_bind startsOnly_read fun _ =>
    made_bind (startsOnly_of_calm statusSummary_calm) fun _ =>
    made_bind (startsOnly_call rfl) fun _ => startsOnly_call rfl)

section Loop

theorem acknowledgeShutdown_startsOnly : StartsOnly acknowledgeShutdown := by
  refine made_bind (startsOnly_call rfl) fun opened => ?_
  cases opened with
  | ok _ => exact startsOnly_call rfl
  | error _ => exact startsOnly_call rfl

theorem resolveWatch_startsOnly (failedName : Option String) : StartsOnly (resolveWatch failedName) :=
  resolveWatch_made reloading_startsOnly failedName

theorem judge_startsOnly (grace : Nat) (outcome : Outcome) : StartsOnly (judge grace outcome) := by
  cases outcome with
  | «continue» => exact made_bind (resolveWatch_startsOnly _) fun _ => made_pure _
  | gaveUp name => exact made_bind (resolveWatch_startsOnly _) fun _ => made_pure _
  | halt name =>
    refine made_bind startsOnly_read fun m => ?_
    split
    · exact made_bind (resolveWatch_startsOnly _) fun _ => made_pure _
    · exact made_bind (startsOnly_call rfl) fun _ => made_bind (shutdownAll_startsOnly grace) fun _ =>
        made_bind acknowledgeShutdown_startsOnly fun _ => made_pure _

theorem dispatchExit_startsOnly (grace : Nat) (pid : Int) (ending : Ending) :
    StartsOnly (dispatchExit grace pid ending) := by
  refine made_bind (startsOnly_of_timers (offer_offers pid) fun _ allowed => allowed.unstarted)
    fun claimed => ?_
  refine made_bind ?_ fun outcome => judge_startsOnly grace outcome
  cases claimed with
  | true => exact made_pure _
  | false => exact handleExit_startsOnly (.ended pid ending)

theorem dispatch_startsOnly (grace : Nat) (polling : Bool) (waited : Except Errno WaitStatus) :
    StartsOnly (dispatch grace polling waited) := by
  match waited with
  | .ok (.ended pid ending) => exact dispatchExit_startsOnly grace pid ending
  | .ok .stillAlive =>
    exact made_bind (made_provided (startsOnly_call rfl)) fun _ =>
      made_bind (resolveWatch_startsOnly _) fun _ => made_pure _
  | .ok .other =>
    exact made_bind (handleExit_startsOnly _) fun outcome => judge_startsOnly grace outcome
  | .error .eintr => exact made_pure _
  | .error .echild =>
    exact made_bind (startsOnly_call rfl) fun _ => made_bind (startsOnly_call rfl) fun _ => made_pure _
  | .error .other => exact made_bind (startsOnly_call rfl) fun _ => made_pure _

theorem serve_startsOnly (grace : Nat) : StartsOnly (serve grace) :=
  made_bind (handleReload_made reloading_startsOnly) fun _ =>
  made_bind (handleIsolate_made reloading_startsOnly) fun _ =>
  made_bind dumpStatus_startsOnly fun _ =>
  made_bind startsOnly_read fun _ =>
  made_bind (startsOnly_of_timers (tick_ticks _ _) fun _ allowed => allowed.unstarted) fun _ =>
  made_bind (made_bind startsOnly_read fun _ => made_bind (startsOnly_call rfl) fun _ => made_pure _)
    fun waited =>
  made_bind (made_bind (startsOnly_of_calm expiredWatchdogs_calm) fun _ =>
    made_each fun _ _ => made_bind (startsOnly_call rfl) fun _ => startsOnly_call rfl) fun _ =>
  dispatch_startsOnly grace waited.1 waited.2

theorem turn_startsOnly (grace : Nat) : StartsOnly (turn grace) := by
  refine made_bind (startsOnly_call rfl) fun reboot => made_bind (startsOnly_call rfl) fun poweroff =>
    made_bind (startsOnly_call rfl) fun halt => ?_
  split
  · exact made_bind (startsOnly_call rfl) fun _ => made_bind (shutdownAll_startsOnly grace) fun _ =>
      made_bind acknowledgeShutdown_startsOnly fun _ => made_pure _
  · exact serve_startsOnly grace

theorem runEventLoop_startsOnly (grace : Nat) : StartsOnly (runEventLoop grace) :=
  made_bind (startsOnly_update fun _ => shrinks_of_same rfl) fun _ => made_repeatFrom fun _ => turn_startsOnly grace

end Loop

section Main

theorem orElseLog_startsOnly (result : Except String Unit) (refused : String → Line) :
    StartsOnly (orElseLog result refused) := by
  cases result with
  | ok _ => exact made_pure _
  | error _ => exact startsOnly_call rfl

theorem prepare_startsOnly : StartsOnly prepare :=
  made_bind (startsOnly_call rfl) fun _ =>
  made_bind (startsOnly_call rfl) fun _ =>
  made_bind (orElseLog_startsOnly _ _) fun _ =>
  made_bind (startsOnly_call rfl) fun _ =>
  made_bind (made_provided (startsOnly_call rfl)) fun _ =>
  made_bind (loadConfig_made reloading_startsOnly) fun _ =>
  made_bind (startsOnly_call rfl) fun _ =>
  made_bind (applyHostname_made reloading_startsOnly _ _) fun _ => made_pure _

theorem guardSignals_startsOnly : StartsOnly guardSignals :=
  made_bind (startsOnly_call rfl) fun _ =>
  made_bind (orElseLog_startsOnly _ _) fun _ =>
  made_bind (startsOnly_call rfl) fun _ => orElseLog_startsOnly _ _

theorem boot_startsOnly (cfg : Config) : StartsOnly (boot cfg) :=
  made_bind (startsOnly_call rfl) fun _ =>
  made_bind (startsOnly_call rfl) fun _ =>
  made_bind (startsOnly_call rfl) fun _ =>
  made_bind (startsOnly_call rfl) fun _ =>
  made_bind (startsOnly_update fun _ _ _ found => by simp at found) fun _ => spawnAll_startsOnly _

theorem main_startsOnly : StartsOnly main :=
  made_bind prepare_startsOnly fun cfg =>
  made_bind guardSignals_startsOnly fun _ =>
  made_bind (boot_startsOnly cfg) fun _ =>
  made_bind (startsOnly_call rfl) fun _ =>
  made_bind (orElseLog_startsOnly _ _) fun _ => runEventLoop_startsOnly _

theorem main_startsWhole : StartsWhole main :=
  made_mono main_startsOnly (fun _ _ _ => trivial) fun _ unstarted => unstarted

end Main
end MitosServices
