import MitosServices.Ordering

/-! Process supervision: starting services, answering their exits, reconciling the running set
with a new list of definitions and stopping everything. -/
namespace MitosServices
open Interaction.Program

def maxRestartsInWindow : Nat := 5

def backoffWindow : Nat := fromSecs 10

def readyWaitTimeout : Nat := fromSecs 15

inductive Outcome
  | continue
  | halt (name : String)
  | gaveUp (name : String)
deriving DecidableEq, Repr

def defsEqual (a b : ServiceDef) : Bool :=
  a.path == b.path
    && a.args == b.args
    && a.critical == b.critical
    && a.restart == b.restart
    && a.memoryLimit == b.memoryLimit
    && a.after == b.after
    && a.afterReady == b.afterReady
    && a.before == b.before
    && a.requires == b.requires
    && a.wants == b.wants
    && a.user == b.user
    && a.group == b.group
    && a.watchdogTimeout == b.watchdogTimeout
    && a.environment == b.environment
    && a.workingDir == b.workingDir
    && a.target == b.target
    && a.privateTmp == b.privateTmp
    && a.protectSystem == b.protectSystem
    && a.noNewPrivileges == b.noNewPrivileges
    && a.oomScoreAdjust == b.oomScoreAdjust

/-- Every field but the name is compared. -/
theorem defsEqual_iff {a b : ServiceDef} (named : a.name = b.name) :
    defsEqual a b = true ↔ a = b := by
  obtain ⟨⟩ := a
  obtain ⟨⟩ := b
  simp_all [defsEqual,and_assoc]

def fallbackShell : ServiceDef where
  name := "shell"
  path := "/bin/sh"
  critical := true

section Table

/-- `self.services.remove(&pid)`. -/
def removeService (pid : Int) : Code (Option Supervised) :=
  exchange fun m => (m.services.lookup pid,{ m with services := m.services.erase pid })

def insertService (pid : Int) (sup : Supervised) : Code Unit :=
  update fun m => { m with services := m.services.insert pid sup }

end Table

def hasWatchdogServices (services : Services) : Bool :=
  services.toList.any fun entry => entry.2.definition.watchdogTimeout.isSome

def expiredAmong (t : Nat) : List (Int × Supervised) → Code (List Int)
  | [] => pure []
  | (pid,sup) :: rest =>
    match sup.definition.watchdogTimeout with
    | none => expiredAmong t rest
    | some timeout => do
      let ping ← call (.lastPing sup.definition.name)
      let pids ← expiredAmong t rest
      pure (if t - ping.getD sup.startedAt > timeout then pid :: pids else pids)

def expiredWatchdogs : Code (List Int) := do
  let t ← now
  let m ← read
  let visited ← entries m.services
  expiredAmong t visited

def waitForReady (name : String) (timeout : Nat) : Code Unit := do
  let start ← now
  let ready ← repeatFrom () fun _ => do
    let t ← now
    if t < start + timeout then do
      let ready ← call (.isReady name)
      if ready then pure (.inr true)
      else do
        sleep (fromMillis 50)
        pure (.inl ())
    else pure (.inr false)
  provided (!ready) (log (.readyTimedOut name))

section Spawning

def resolveWith (resolve : String → Code (Option Nat)) : Option String → Code (Option Nat)
  | none => pure none
  | some spec => resolve spec

def serviceCommand (d : ServiceDef) (uid gid : Option Nat) (sock : Option String) : Command :=
  let env := (sock.toList.map fun path => ("NOTIFY_SOCKET",path)) ++ d.environment
  let sandbox : ServiceSandbox := ⟨d.privateTmp,d.protectSystem,d.noNewPrivileges⟩
  if sandbox.isEmpty then
    { program := d.path, args := d.args, env, currentDir := d.workingDir, uid, gid }
  else
    { program := d.path, args := d.args, env, currentDir := d.workingDir,
      preExec := some ⟨sandbox,gid,uid⟩ }

/-- Everything up to `cmd.spawn()`. -/
def prepareCommand (d : ServiceDef) : Code Command := do
  let uid ← resolveWith (fun spec => call (.resolveUid spec)) d.user
  provided (d.user.isSome && uid.isNone) (log (.unresolvedUser d.name (d.user.getD "")))
  let gid ← resolveWith (fun spec => call (.resolveGid spec)) d.group
  provided (d.group.isSome && gid.isNone) (log (.unresolvedGroup d.name (d.group.getD "")))
  forget d.name
  let sock ← call (.listenFor d.name uid gid)
  pure (serviceCommand d uid gid sock)

def track (pid : Int) (d : ServiceDef) (restartTimes : List Nat) : Code Unit := do
  let t ← now
  insertService pid ⟨d,restartTimes,t⟩

def started (d : ServiceDef) (restartTimes : List Nat) (pid : Int) : Code Unit := do
  log (.started d.name d.path pid)
  call (.createFor d.name d.memoryLimit)
  call (.attach d.name pid)
  each d.oomScoreAdjust.toList fun score => call (.setScoreAdjust pid score)
  track pid d restartTimes

def rescued (pid : Int) : Code Unit := do
  log .fellBack
  call (.createFor fallbackShell.name none)
  call (.attach fallbackShell.name pid)
  track pid fallbackShell []

def fallBack : Code Unit := do
  let shell ← spawn .rescue { program := "/bin/sh" }
  match shell with
  | .ok pid => rescued pid
  | .error _ => pure ()

def spawnWithHistory (d : ServiceDef) (restartTimes : List Nat) : Code Unit := do
  let command ← prepareCommand d
  let child ← spawn (.service d.name d.critical) command
  match child with
  | .ok pid => started d restartTimes pid
  | .error e => do
    log (.failedToStart d.name d.path e)
    provided d.critical fallBack

end Spawning

section Boot

def startOne (configured spawned : List String) (d : ServiceDef) : Code (List String) :=
  let hardMissing := d.requires.filter fun r => configured.contains r && !spawned.contains r
  if !hardMissing.isEmpty then do
    log (.requiresMissing d.name hardMissing)
    pure spawned
  else do
    each d.afterReady fun dep => waitForReady dep readyWaitTimeout
    spawnWithHistory d []
    let m ← read
    pure (if m.services.tracks d.name then spawned ++ [d.name] else spawned)

def startEach (configured : List String) : List String → List ServiceDef → Code Unit
  | _, [] => pure ()
  | spawned, d :: rest => do
    let spawned ← startOne configured spawned d
    startEach configured spawned rest

def spawnAll (defs : List ServiceDef) : Code Unit := do
  let ordered ← topologicalOrder (effectiveAfter defs)
  startEach (defs.map ServiceDef.name) [] ordered

end Boot

section Exits

def RestartPolicy.restarts : RestartPolicy → Ending → Bool
  | .never, _ => false
  | .always, _ => true
  | .onFailure, ending => ending != .exited 0

def restart (sup : Supervised) : Code Outcome := do
  let t ← now
  let restartTimes := (sup.restartTimes.filter fun s => t - s < backoffWindow) ++ [t]
  if restartTimes.length > maxRestartsInWindow then do
    log (.givingUp sup.definition.name restartTimes.length)
    pure (.gaveUp sup.definition.name)
  else do
    spawnWithHistory sup.definition restartTimes
    pure .continue

def handleExit : WaitStatus → Code Outcome
  | .ended pid ending => do
    let removed ← removeService pid
    match removed with
    | none => pure .continue
    | some sup => do
      log (.serviceEnded sup.definition.name ending)
      killAndRemove sup.definition.name
      forget sup.definition.name
      if sup.definition.critical then pure (.halt sup.definition.name)
      else if sup.definition.restart.restarts ending then restart sup
      else pure .continue
  | _ => pure .continue

end Exits

section Reload

def stopOne (pid : Int) (name : String) : Code Unit := do
  kill pid .sigterm
  let start ← now
  repeatFrom () fun _ => do
    let t ← now
    if t ≥ start + fromSecs 3 then do
      kill pid .sigkill
      pure (.inr ())
    else do
      let status ← waitpid (.only pid) true
      match status with
      | .ok (.ended _ _) => pure (.inr ())
      | .ok _ => do
        sleep (fromMillis 50)
        pure (.inl ())
      | .error _ => pure (.inr ())
  killAndRemove name

def stopRemoved (pid : Int) : Code Unit := do
  let removed ← removeService pid
  match removed with
  | none => pure ()
  | some sup => do
    log (.stoppingRemoved sup.definition.name)
    stopOne pid sup.definition.name
    forget sup.definition.name

def replace (pid : Int) (d : ServiceDef) : Code Unit := do
  log (.restartingChanged d.name)
  let _ ← removeService pid
  stopOne pid d.name
  spawnWithHistory d []

/-- One new definition against the table; true if the service was started or restarted. -/
def reconcileOne (d : ServiceDef) : Code Bool := do
  let m ← read
  let visited ← entries m.services
  match visited.find? fun entry => entry.2.definition.name == d.name with
  | some (pid,sup) =>
    if defsEqual sup.definition d then pure false
    else do
      replace pid d
      pure true
  | none => do
    log (.startingNew d.name)
    spawnWithHistory d []
    pure true

def reconcile (touched : List String) : List ServiceDef → Code (List String)
  | [] => pure touched
  | d :: rest => do
    let changed ← reconcileOne d
    reconcile (if changed then touched ++ [d.name] else touched) rest

def removedPids (newDefs : List ServiceDef) (visited : List (Int × Supervised)) : List Int :=
  (visited.filter fun entry => !newDefs.any fun d => d.name == entry.2.definition.name).map Prod.fst

def reloadServices (newDefs : List ServiceDef) : Code (List String) := do
  let m ← read
  let visited ← entries m.services
  each (removedPids newDefs visited) stopRemoved
  reconcile [] newDefs

end Reload

section Shutdown

def awaitExits (deadline : Nat) : Code Unit :=
  repeatFrom () fun _ => do
    let t ← now
    let m ← read
    if t < deadline && !m.services.entries.isEmpty then do
      let status ← waitpid .any true
      match status with
      | .ok (.ended pid _) => do
        let _ ← removeService pid
        pure (.inl ())
      | .ok .stillAlive => do
        sleep (fromMillis 50)
        pure (.inl ())
      | .ok .other => pure (.inl ())
      | .error .echild => pure (.inr ())
      | .error _ => do
        sleep (fromMillis 50)
        pure (.inl ())
    else pure (.inr ())

def shutdownAll (grace : Nat) : Code Unit := do
  let m ← read
  let named ← entries m.services
  let keyed ← entries m.services
  each keyed fun entry => kill entry.1 .sigterm
  let start ← now
  checkInstant (start + grace)
  awaitExits (start + grace)
  let m ← read
  let late ← entries m.services
  each late fun entry => do
    log (.killingLate entry.1)
    kill entry.1 .sigkill
  each named fun entry => do
    killAndRemove entry.2.definition.name
    forget entry.2.definition.name

end Shutdown

section Status

def statusLines : List (Int × Supervised) → Code (List String)
  | [] => pure []
  | (pid,sup) :: rest => do
    let ready ← call (.isReady sup.definition.name)
    let lines ← statusLines rest
    let crit := if sup.definition.critical then " [critical]" else ""
    let state := if ready then " ready" else " starting"
    pure (s!"  pid {pid}: {sup.definition.name} ({sup.definition.path}){crit}{state}" :: lines)

def statusSummary : Code String := do
  let m ← read
  if m.services.entries.isEmpty then pure "no supervised services running"
  else do
    let visited ← entries m.services
    let lines ← statusLines visited
    pure ("\n".intercalate
      (s!"{m.services.entries.length} supervised service(s):" :: lines))

end Status
end MitosServices
