import MitosServices.Timers

/-! Transactional reload, the event loop and `main` around it. -/
namespace MitosServices
open Interaction.Program

namespace Rollback

def watchWindow : Nat := fromSecs 10

def begin (newCfg previous : Config) (target : String) : Code Watch := do
  let touched ← reloadServices (Targets.servicesIn newCfg.services target)
  log (if touched.isEmpty then .nothingToApply else .watching touched.length)
  let t ← now
  pure ⟨t + watchWindow,touched,previous,target⟩

def restore (watch : Watch) (name : String) : Code Unit := do
  log (.rollingBack name)
  let _ ← reloadServices (Targets.servicesIn watch.previous.services watch.target)
  call (.setLevel watch.previous.loglevel)
  each watch.previous.hostname.toList fun h => do
    let _ ← call (.sethostname h)
    pure ()
  log .rolledBack
  update fun m => { m with cfg := watch.previous }

/-- Judges the watch; `none` once it is resolved. -/
def check (watch : Watch) (failedName : Option String) : Code (Option Watch) := do
  match failedName.filter watch.touches with
  | some name => do
    restore watch name
    pure none
  | none => do
    let t ← now
    if t < watch.deadline then pure (some watch)
    else do
      log .keeping
      pure none

end Rollback

/-- `apps::reap`. -/
def reapApp (pid : Int) : Code Bool := do
  let removed ← call (.takeApp pid)
  match removed with
  | none => pure false
  | some info => do
    log (.appExited info.id info.path)
    call (.killAndRemoveApp info.id)
    pure true

section Requests

def loadConfig : Code Config := do
  let cfg ← call .loadOrDefault
  let units ← call .loadUnits
  pure { cfg with services := Config.mergeServices cfg.services units }

def applyHostname (refused : String → String → Line) (hostname : Option String) : Code Unit :=
  each hostname.toList fun h => do
    let result ← call (.sethostname h)
    match result with
    | .ok _ => pure ()
    | .error e => log (refused h e)

def publishTargets (target : String) (services : List ServiceDef) : Code Unit :=
  call (.publishTargets target (Targets.list services))

def applyReload : Code Unit := do
  log .reloadingConfig
  let newCfg ← loadConfig
  call (.setLevel newCfg.loglevel)
  applyHostname (fun _ e => .reloadedHostnameRefused e) newCfg.hostname
  let timerDefs ← call .loadTimers
  update fun m => { m with timerDefs }
  let m ← read
  let watch ← Rollback.begin newCfg m.cfg m.currentTarget
  update fun m => { m with watch := some watch, cfg := newCfg }
  publishTargets m.currentTarget newCfg.services

def handleReload : Code Unit := do
  let requested ← swap .reloadRequested
  provided requested applyReload

def isolate (name : String) : Code Unit := do
  let m ← read
  if !(Targets.list m.cfg.services).any fun t => t == name then log (.isolateUnknown name)
  else do
    log (.isolating name)
    let _ ← reloadServices (Targets.servicesIn m.cfg.services name)
    update fun m => { m with currentTarget := name }
    publishTargets name m.cfg.services

def handleIsolate : Code Unit := do
  let pending ← call .takePendingIsolate
  each pending.toList isolate

def dumpStatus : Code Unit := do
  let requested ← swap .statusDumpRequested
  provided requested do
    let m ← read
    let services ← statusSummary
    let summary := s!"active target: {m.currentTarget}\n{services}"
    log (.status summary)
    call (.publishStatus summary)

end Requests

section Dispatch

def acknowledgeShutdown : Code Unit := do
  let opened ← call .openAck
  match opened with
  | .ok _ => call .writeAck
  | .error e => log (.ackRefused e)

def offer (pid : Int) : Code Bool := do
  let timer ← Timers.reap pid
  if timer then pure true else reapApp pid

def resolveWatch (failedName : Option String) : Code Unit := do
  let taken ← exchange fun m => (m.watch,{ m with watch := none })
  each taken.toList fun w => do
    let watch ← Rollback.check w failedName
    update fun m => { m with watch }

/-- What the loop does next with the outcome of an exit: `inr` ends it. -/
def judge (grace : Nat) : Outcome → Code (Unit ⊕ Unit)
  | .halt name => do
    let m ← read
    if m.watch.any fun w => w.touches name then do
      resolveWatch (some name)
      pure (.inl ())
    else do
      log .criticalExited
      shutdownAll grace
      acknowledgeShutdown
      pure (.inr ())
  | .gaveUp name => do
    resolveWatch (some name)
    pure (.inl ())
  | .continue => do
    resolveWatch none
    pure (.inl ())

def handleUnclaimed (claimed : Bool) (status : WaitStatus) : Code Outcome :=
  if claimed then pure .continue else handleExit status

def dispatchExit (grace : Nat) (pid : Int) (ending : Ending) : Code (Unit ⊕ Unit) := do
  let claimed ← offer pid
  let outcome ← handleUnclaimed claimed (.ended pid ending)
  judge grace outcome

def dispatch (grace : Nat) (polling : Bool) : Except Errno WaitStatus → Code (Unit ⊕ Unit)
  | .ok (.ended pid ending) => dispatchExit grace pid ending
  | .ok .stillAlive => do
    provided polling (sleep (fromMillis 100))
    resolveWatch none
    pure (.inl ())
  | .ok .other => do
    let outcome ← handleExit .other
    judge grace outcome
  | .error .eintr => pure (.inl ())
  | .error .echild => do
    log .noChildrenLeft
    sleep (fromSecs 1)
    pure (.inl ())
  | .error e => do
    log (.waitFailed e)
    pure (.inl ())

end Dispatch

section Loop

def killExpired : Code Unit := do
  let pids ← expiredWatchdogs
  each pids fun pid => do
    log (.missedWatchdog pid)
    kill pid .sigkill

def polls (m : Memory) : Bool :=
  m.watch.isSome || hasWatchdogServices m.services || Timers.hasAny m.timerDefs

def wait : Code (Bool × Except Errno WaitStatus) := do
  let m ← read
  let waited ← waitpid .any (polls m)
  pure (polls m,waited)

def serve (grace : Nat) : Code (Unit ⊕ Unit) := do
  handleReload
  handleIsolate
  dumpStatus
  let m ← read
  Timers.tick m.timerDefs m.cfg.services
  let waited ← wait
  killExpired
  dispatch grace waited.1 waited.2

def stopServing (grace : Nat) : Code (Unit ⊕ Unit) := do
  log .shutdownRelayed
  shutdownAll grace
  acknowledgeShutdown
  pure (.inr ())

def turn (grace : Nat) : Code (Unit ⊕ Unit) := do
  let reboot ← swap .rebootRequested
  let poweroff ← swap .poweroffRequested
  let halt ← swap .haltRequested
  if reboot || poweroff || halt then stopServing grace else serve grace

def loop (grace : Nat) : Code Unit := repeatFrom () fun _ => turn grace

def runEventLoop (grace : Nat) : Code Unit := do
  update fun m => { m with watch := none }
  loop grace

end Loop

section Main

def orElseLog (result : Except String Unit) (refused : String → Line) : Code Unit :=
  match result with
  | .ok _ => pure ()
  | .error e => log (refused e)

/-- `main` up to the worker threads. -/
def prepare : Code Config := do
  log .starting
  let subreaper ← call .becomeSubreaper
  orElseLog subreaper .subreaperRefused
  let available ← call .cgroupsAvailable
  provided (!available) (log .cgroupsUnavailable)
  let cfg ← loadConfig
  call (.setLevel cfg.loglevel)
  applyHostname .hostnameRefused cfg.hostname
  pure cfg

def guardSignals : Code Unit := do
  let installed ← call .installHandlers
  orElseLog installed .handlersRefused
  let blocked ← call .blockHandled
  orElseLog blocked .blockRefused

/-- `main` from the worker threads to the services of the default target. -/
def boot (cfg : Config) : Code Unit := do
  call .spawnListener
  call .spawnMonitor
  publishTargets cfg.defaultTarget cfg.services
  let timerDefs ← call .loadTimers
  update fun m => { m with services := ∅, cfg, currentTarget := cfg.defaultTarget, timerDefs }
  spawnAll (Targets.servicesIn cfg.services cfg.defaultTarget)

def main : Code Unit := do
  let cfg ← prepare
  guardSignals
  boot cfg
  let unblocked ← call .unblockHandled
  orElseLog unblocked .unblockRefused
  runEventLoop (fromSecs cfg.shutdownTimeoutSecs)

end Main
end MitosServices
