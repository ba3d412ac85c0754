import MitosServices.Supervisor

/-! Scheduled one-shot runs of a service, apart from the supervised set. -/
namespace MitosServices.Timers
open Interaction.Program

/-- `state()`: the schedule, made at its first use. -/
def state : Code State := do
  let m ← read
  match m.timers with
  | some s => pure s
  | none => do
    let boot ← now
    exchange fun m => (⟨boot,∅,[],∅⟩,{ m with timers := some ⟨boot,∅,[],∅⟩ })

def dueAt (t : TimerDef) (s : State) (now : Nat) : Bool :=
  match s.lastFinished.lookup t.name with
  | none => match t.onBoot, t.onActive with
    | some d, _ => now ≥ s.boot + d
    | none, some d => now ≥ s.boot + d
    | none, none => false
  | some last => match t.onActive with
    | some d => now ≥ last + d
    | none => false

def dueInstant (t : TimerDef) (s : State) : Option Nat :=
  match s.lastFinished.lookup t.name with
  | none => (t.onBoot <|> t.onActive).map fun d => s.boot + d
  | some last => t.onActive.map fun d => last + d

/-- With no two timers of one name a search by name finds the timer itself. -/
theorem find_distinct {timers : List TimerDef} {t : TimerDef}
    (distinct : (timers.map TimerDef.name).Nodup) (member : t ∈ timers) :
    (timers.find? fun u => u.name == t.name) = some t := by
  obtain ⟨u,found⟩ : ∃ u, (timers.find? fun u => u.name == t.name) = some u := by
    apply Option.isSome_iff_exists.mp
    exact List.find?_isSome.mpr ⟨t,member,beq_self_eq_true _⟩
  have same : u.name = t.name := by simpa using List.find?_some found
  rw [found,List.inj_on_of_nodup_map distinct (List.mem_of_find?_eq_some found) member same]

def isDue (t : TimerDef) (s : State) : Code Bool := do
  let now ← now
  each (dueInstant t s).toList checkInstant
  pure (dueAt t s now)

def dueNames (s : State) : List TimerDef → Code (List String)
  | [] => pure []
  | t :: rest =>
    if s.running.contains t.name then dueNames s rest
    else do
      let due ← isDue t s
      let names ← dueNames s rest
      pure (if due then t.name :: names else names)

def oneshotCommand (d : ServiceDef) (uid gid : Option Nat) : Command :=
  { program := d.path, args := d.args, env := d.environment, currentDir := d.workingDir, uid, gid }

def spawnOneshot (d : ServiceDef) : Code (Except String Int) := do
  let uid ← resolveWith (fun spec => call (.resolveUid spec)) d.user
  let gid ← resolveWith (fun spec => call (.resolveGid spec)) d.group
  spawn (.timer d.name) (oneshotCommand d uid gid)

def noteStarted (name : String) (pid : Int) (s : State) : State :=
  { s with
    running := if s.running.contains name then s.running else s.running ++ [name]
    pending := s.pending.insert pid name }

def noteFinished (name : String) (at_ : Nat) (s : State) : State :=
  { s with
    running := s.running.erase name
    lastFinished := s.lastFinished.insert name at_ }

def changeState (change : State → State) : Code Unit :=
  update fun m => { m with timers := m.timers.map change }

def fire (services : List ServiceDef) (name : String) : Code Unit :=
  match services.find? fun d => d.name == name with
  | none => log (.timerUnmatched name)
  | some d => do
    let child ← spawnOneshot d
    match child with
    | .ok pid => do
      log (.timerStarted name pid)
      changeState (noteStarted name pid)
    | .error e => log (.timerFailed name e)

def tick (timers : List TimerDef) (services : List ServiceDef) : Code Unit :=
  if timers.isEmpty then pure ()
  else do
    let s ← state
    let due ← dueNames s timers
    each due (fire services)

def hasAny (timers : List TimerDef) : Bool := !timers.isEmpty

def removePending (pid : Int) : Code (Option String) :=
  exchange fun m => (m.timers.bind fun s => s.pending.lookup pid,
    { m with timers := m.timers.map fun s => { s with pending := s.pending.erase pid } })

def reap (pid : Int) : Code Bool := do
  let _ ← state
  let removed ← removePending pid
  match removed with
  | none => pure false
  | some name => do
    log (.timerFinished name pid)
    let finished ← now
    changeState (noteFinished name finished)
    pure true

end MitosServices.Timers
