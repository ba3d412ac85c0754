import MitosServices.EventLoop
import MitosServices.Interaction.Machine

/-! The surroundings of the main thread: its children and their exits, the signals delivered to
it, the IPC thread and the flags, the isolate slot and the app registry the two threads share. -/
namespace MitosServices

def onSignal : Signal → Option Flag
  | .sigint => some .rebootRequested
  | .sigterm => some .poweroffRequested
  | .sigquit => some .haltRequested
  | .sigusr1 => some .reloadRequested
  | .sigusr2 => some .statusDumpRequested
  | _ => none

def handledSet : List Signal := [.sigterm,.sigint,.sigquit,.sigusr1,.sigusr2]

abbrev Mask := Signal → Bool

def Mask.block (mask : Mask) : Mask := fun sig => mask sig || handledSet.contains sig

def Mask.unblock (mask : Mask) : Mask := fun sig => mask sig && !handledSet.contains sig

/-- How and when a child has ended: by a signal that has no name if there is no ending. -/
structure Exit where
  ending : Option Ending
  time : Nat

structure Child where
  origin : Origin
  ended : Option Exit
  mask : Mask

inductive Waiting
  | idle
  | blocked
  | interrupted
deriving DecidableEq, Repr

/-- The IPC thread: not yet there, between commands, or in `launch` after the spawn and before
the registry has the app. -/
inductive Ipc
  | absent
  | idle
  | launched (info : AppInfo)
deriving DecidableEq, Repr

/-- `chosen` is the child a wait takes that cannot say which it has taken. -/
structure Kernel where
  clock : Nat := 0
  children : AList (fun _ : Int => Child) := ∅
  chosen : Int := 0
  requested : Flag → Bool := fun _ => false
  isolate : Option String := none
  waiting : Waiting := .idle
  apps : AList (fun _ : Int => AppInfo) := ∅
  ipc : Ipc := .absent
  mainMask : Mask := fun _ => false
  ipcMask : Mask := fun _ => false

inductive Event
  | tick (elapsed : Nat)
  | exit (pid : Int) (ending : Option Ending)
  | choose (pid : Int)
  | adopt (pid : Int)
  | deliver (sig : Signal)
  | requestReload
  | requestStatus
  | requestIsolate (name : String)
  | launch (info : AppInfo)
  | register
  | block

namespace Kernel

def raise (k : Kernel) (flag : Flag) : Kernel :=
  { k with requested := fun f => k.requested f || f == flag }

def lower (k : Kernel) (flag : Flag) : Kernel :=
  { k with requested := fun f => k.requested f && f != flag }

def addChild (k : Kernel) (pid : Int) (origin : Origin) (mask : Mask) : Kernel :=
  { k with children := k.children.insert pid ⟨origin,none,mask⟩ }

def endChild (k : Kernel) (pid : Int) (child : Child) (ending : Option Ending) : Kernel :=
  { k with
    children := k.children.insert pid { child with ended := some ⟨ending,k.clock⟩ }
    waiting := if k.waiting = .blocked then .idle else k.waiting }

def someEnded (k : Kernel) : Bool := k.children.entries.any fun entry => entry.2.ended.isSome

def stir : Event → Op → Memory → Kernel → Option Kernel
  | .tick elapsed, _, _, k => some { k with clock := k.clock + elapsed }
  | .exit pid ending, _, _, k => (k.children.lookup pid).bind fun child =>
    if child.ended.isSome then none else some (k.endChild pid child ending)
  | .choose pid, _, _, k => some { k with chosen := pid }
  | .adopt pid, _, _, k =>
    if (k.children.lookup pid).isSome then none else some (k.addChild pid .orphan fun _ => false)
  | .deliver sig, _, _, k => (onSignal sig).bind fun flag =>
    if k.mainMask sig then none
    else some { k.raise flag with
      waiting := if k.waiting = .blocked then .interrupted else k.waiting }
  | .requestReload, _, _, k =>
    if k.ipc = .idle then some (k.raise .reloadRequested) else none
  | .requestStatus, _, _, k =>
    if k.ipc = .idle then some (k.raise .statusDumpRequested) else none
  | .requestIsolate name, _, _, k =>
    if k.ipc = .idle then some { k with isolate := some name } else none
  | .launch info, _, _, k =>
    if k.ipc = .idle ∧ (k.children.lookup info.pid).isNone then
      some { k.addChild info.pid (.app info.id) k.ipcMask with ipc := .launched info }
    else none
  | .register, _, _, k => match k.ipc with
    | .launched info => some { k with ipc := .idle, apps := k.apps.insert info.pid info }
    | _ => none
  | .block, op, _, k =>
    if op = .waitpid .any false ∧ k.waiting = .idle ∧ k.children.entries ≠ [] ∧ !k.someEnded then
      some { k with waiting := .blocked }
    else none

def covered (k : Kernel) : WaitFor → List Child
  | .any => k.children.entries.map fun entry => entry.2
  | .only pid => (k.children.lookup pid).toList

def covers : WaitFor → Int → Bool
  | .any, _ => true
  | .only pid, p => pid == p

def reap (k : Kernel) (pid : Int) : Kernel :=
  { k with children := k.children.erase pid, waiting := .idle }

/-- The results `waitpid` may have. A child that was killed by a real-time signal is reaped, but its
status cannot be told: that is `EINVAL`. -/
def waited (target : WaitFor) (nohang : Bool) (k : Kernel) : Except Errno WaitStatus → Option Kernel
  | .ok (.ended pid ending) => (k.children.lookup pid).bind fun child =>
    if covers target pid ∧ child.ended.map Exit.ending = some (some ending) then some (k.reap pid) else none
  | .error .other => (k.children.lookup k.chosen).bind fun child =>
    if covers target k.chosen ∧ child.ended.map Exit.ending = some none then some (k.reap k.chosen) else none
  | .ok .stillAlive =>
    if nohang ∧ k.covered target ≠ [] ∧ (k.covered target).all fun child => child.ended.isNone then
      some k
    else none
  | .error .echild => if k.covered target = [] then some { k with waiting := .idle } else none
  | .error .eintr =>
    if !nohang ∧ k.waiting = .interrupted then some { k with waiting := .idle } else none
  | _ => none

def answer : (op : Op) → Memory → Kernel → op.Ans → Option Kernel
  | .now, _, k, t => if t = k.clock then some k else none
  | .swap flag, _, k, requested =>
    if requested = k.requested flag then some (k.lower flag) else none
  | .takePendingIsolate, _, k, name =>
    if name = k.isolate then some { k with isolate := none } else none
  | .iterate entries, _, k, visited => if visited.Perm entries then some k else none
  | .spawn origin _, _, k, .ok pid =>
    if (k.children.lookup pid).isSome then none else some (k.addChild pid origin k.mainMask)
  | .waitpid target nohang, _, k, status => k.waited target nohang status
  | .takeApp pid, _, k, info =>
    if info = k.apps.lookup pid then some { k with apps := k.apps.erase pid } else none
  | .blockHandled, _, k, .ok _ => some { k with mainMask := k.mainMask.block }
  | .unblockHandled, _, k, .ok _ => some { k with mainMask := k.mainMask.unblock }
  | .spawnListener, _, k, _ => some { k with ipc := .idle, ipcMask := k.mainMask }
  | .panic, _, _, _ => none
  | _, _, k, _ => some k

section Effects
variable {ev : Event} {op : Op} {m : Memory} {k k' : Kernel}

inductive Stirs (op : Op) (k : Kernel) : Event → Kernel → Prop
  | tick (elapsed : Nat) : Stirs op k (.tick elapsed) { k with clock := k.clock + elapsed }
  | exit {pid : Int} {child : Child} (ending : Option Ending) (found : k.children.lookup pid = some child)
      (running : child.ended = none) : Stirs op k (.exit pid ending) (k.endChild pid child ending)
  | choose (pid : Int) : Stirs op k (.choose pid) { k with chosen := pid }
  | adopt {pid : Int} (fresh : k.children.lookup pid = none) :
      Stirs op k (.adopt pid) (k.addChild pid .orphan fun _ => false)
  | deliver {sig : Signal} {flag : Flag} (handled : onSignal sig = some flag) :
      Stirs op k (.deliver sig) { k.raise flag with
        waiting := if k.waiting = .blocked then .interrupted else k.waiting }
  | requestReload : Stirs op k .requestReload (k.raise .reloadRequested)
  | requestStatus : Stirs op k .requestStatus (k.raise .statusDumpRequested)
  | requestIsolate (name : String) : Stirs op k (.requestIsolate name) { k with isolate := some name }
  | launch {info : AppInfo} (idle : k.ipc = .idle) (fresh : k.children.lookup info.pid = none) :
      Stirs op k (.launch info) { k.addChild info.pid (.app info.id) k.ipcMask with ipc := .launched info }
  | register {info : AppInfo} (launched : k.ipc = .launched info) :
      Stirs op k .register { k with ipc := .idle, apps := k.apps.insert info.pid info }
  | block (waits : op = .waitpid .any false) (idle : k.waiting = .idle) (none : k.someEnded = false) :
      Stirs op k .block { k with waiting := .blocked }

/-- The inversion of an event; nothing below looks at `stir` again. -/
theorem stir_cases (moved : stir ev op m k = some k') : Stirs op k ev k' := by
  cases ev with
  | tick elapsed =>
    cases Option.some.inj moved
    exact .tick elapsed
  | exit pid ending =>
    obtain ⟨child,found,ends⟩ := Option.bind_eq_some_iff.mp moved
    simp only [Option.ite_none_left_eq_some,Option.some.injEq,Bool.not_eq_true,
      Option.isSome_eq_false_iff,Option.isNone_iff_eq_none] at ends
    obtain ⟨running,rfl⟩ := ends
    exact .exit ending found running
  | choose pid =>
    cases Option.some.inj moved
    exact .choose pid
  | adopt pid =>
    simp only [stir,Option.ite_none_left_eq_some,Option.some.injEq,Bool.not_eq_true,
      Option.isSome_eq_false_iff,Option.isNone_iff_eq_none] at moved
    obtain ⟨fresh,rfl⟩ := moved
    exact .adopt fresh
  | deliver sig =>
    obtain ⟨flag,handled,delivered⟩ := Option.bind_eq_some_iff.mp moved
    simp only [Option.ite_none_left_eq_some,Option.some.injEq] at delivered
    obtain ⟨-,rfl⟩ := delivered
    exact .deliver handled
  | requestReload =>
    simp only [stir,Option.ite_none_right_eq_some,Option.some.injEq] at moved
    obtain ⟨-,rfl⟩ := moved
    exact .requestReload
  | requestStatus =>
    simp only [stir,Option.ite_none_right_eq_some,Option.some.injEq] at moved
    obtain ⟨-,rfl⟩ := moved
    exact .requestStatus
  | requestIsolate name =>
    simp only [stir,Option.ite_none_right_eq_some,Option.some.injEq] at moved
    obtain ⟨-,rfl⟩ := moved
    exact .requestIsolate name
  | launch info =>
    simp only [stir,Option.ite_none_right_eq_some,Option.some.injEq,
      Option.isNone_iff_eq_none] at moved
    obtain ⟨⟨idle,fresh⟩,rfl⟩ := moved
    exact .launch idle fresh
  | register =>
    simp only [stir] at moved
    split at moved
    · rename_i info launched
      cases Option.some.inj moved
      exact .register launched
    · contradiction
  | block =>
    simp only [stir,Option.ite_none_right_eq_some,Option.some.injEq,Bool.not_eq_true'] at moved
    obtain ⟨⟨waits,idle,-,none⟩,rfl⟩ := moved
    exact .block waits idle none

/-- The events after which the children are others: an exit, an adoption and a launch. -/
theorem stir_children (moved : stir ev op m k = some k') :
    (k'.children = k.children ∧ ∀ info, ev ≠ .launch info) ∨
    (∃ pid child ending, ev = .exit pid ending ∧ k.children.lookup pid = some child ∧
      child.ended = none ∧
      k'.children = k.children.insert pid { child with ended := some ⟨ending,k.clock⟩ }) ∨
    (∃ pid, ev = .adopt pid ∧ k.children.lookup pid = none ∧
      k'.children = k.children.insert pid ⟨.orphan,none,fun _ => false⟩) ∨
    ∃ info, ev = .launch info ∧ k.ipc = .idle ∧ k.children.lookup info.pid = none ∧
      k'.children = k.children.insert info.pid ⟨.app info.id,none,k.ipcMask⟩ := by
  cases stir_cases moved with
  | @exit pid child ending found running => exact .inr (.inl ⟨pid,child,ending,rfl,found,running,rfl⟩)
  | @adopt pid fresh => exact .inr (.inr (.inl ⟨pid,rfl,fresh,rfl⟩))
  | @launch info idle fresh => exact .inr (.inr (.inr ⟨info,rfl,idle,fresh,rfl⟩))
  | _ => exact .inl ⟨rfl,by simp⟩

/-- A child that has ended stays as it is until it is reaped. -/
theorem stir_ended (moved : stir ev op m k = some k') {pid : Int} {child : Child}
    (found : k.children.lookup pid = some child) (ended : child.ended ≠ none) :
    k'.children.lookup pid = some child := by
  rcases stir_children moved with ⟨same,-⟩ | ⟨p,before,ending,-,known,running,changed⟩ |
    ⟨p,-,fresh,changed⟩ | ⟨info,-,-,fresh,changed⟩
  · rw [same]
    exact found
  · rw [changed]
    refine lookup_insert_iff.mpr (.inr ⟨?_,found⟩)
    rintro rfl
    rw [found] at known
    cases known
    exact ended running
  · rw [changed]
    refine lookup_insert_iff.mpr (.inr ⟨?_,found⟩)
    rintro rfl
    rw [found] at fresh
    contradiction
  · rw [changed]
    refine lookup_insert_iff.mpr (.inr ⟨?_,found⟩)
    rintro rfl
    rw [found] at fresh
    contradiction

theorem stir_clock (moved : stir ev op m k = some k') : k.clock ≤ k'.clock := by
  cases stir_cases moved with
  | tick elapsed => exact Nat.le_add_right _ _
  | _ => exact le_rfl

/-- What no event changes: the signal masks, and whether there is an IPC thread. -/
theorem stir_masks (moved : stir ev op m k = some k') : k'.mainMask = k.mainMask ∧
    k'.ipcMask = k.ipcMask ∧ (k'.ipc = .absent ↔ k.ipc = .absent) := by
  cases stir_cases moved with
  | launch idle fresh => exact ⟨rfl,rfl,by simp [idle]⟩
  | register launched => exact ⟨rfl,rfl,by simp [launched]⟩
  | _ => exact ⟨rfl,rfl,Iff.rfl⟩

inductive Waits (target : WaitFor) (nohang : Bool) (k : Kernel) : Except Errno WaitStatus → Kernel → Prop
  | ended {pid : Int} {ending : Ending} (covered : covers target pid = true) :
      Waits target nohang k (.ok (.ended pid ending)) (k.reap pid)
  | untold {child : Child} (covered : covers target k.chosen = true)
      (found : k.children.lookup k.chosen = some child) (nameless : child.ended.map Exit.ending = some none) :
      Waits target nohang k (.error .other) (k.reap k.chosen)
  | stillAlive (polled : nohang = true) : Waits target nohang k (.ok .stillAlive) k
  | echild : Waits target nohang k (.error .echild) { k with waiting := .idle }
  | eintr : Waits target nohang k (.error .eintr) { k with waiting := .idle }

theorem waited_cases {target : WaitFor} {nohang : Bool} {status : Except Errno WaitStatus}
    (replied : k.waited target nohang status = some k') : Waits target nohang k status k' := by
  match status with
  | .ok (.ended pid ending) =>
    obtain ⟨child,found,reaps⟩ := Option.bind_eq_some_iff.mp replied
    simp only [Option.ite_none_right_eq_some,Option.some.injEq] at reaps
    obtain ⟨⟨covered,-⟩,rfl⟩ := reaps
    exact .ended covered
  | .ok .stillAlive =>
    simp only [waited,Option.ite_none_right_eq_some,Option.some.injEq] at replied
    obtain ⟨⟨polled,-⟩,rfl⟩ := replied
    exact .stillAlive polled
  | .ok .other => contradiction
  | .error .echild =>
    simp only [waited,Option.ite_none_right_eq_some,Option.some.injEq] at replied
    obtain ⟨-,rfl⟩ := replied
    exact .echild
  | .error .eintr =>
    simp only [waited,Option.ite_none_right_eq_some,Option.some.injEq] at replied
    obtain ⟨-,rfl⟩ := replied
    exact .eintr
  | .error .other =>
    obtain ⟨child,found,reaps⟩ := Option.bind_eq_some_iff.mp replied
    simp only [Option.ite_none_right_eq_some,Option.some.injEq] at reaps
    obtain ⟨⟨covered,nameless⟩,rfl⟩ := reaps
    exact .untold covered found nameless

theorem waited_within {target : WaitFor} {nohang : Bool} {status : Except Errno WaitStatus}
    (replied : k.waited target nohang status = some k') :
    (∀ pid child, k'.children.lookup pid = some child → k.children.lookup pid = some child) ∧
      k'.mainMask = k.mainMask ∧ k'.ipcMask = k.ipcMask ∧ k'.ipc = k.ipc := by
  cases waited_cases replied with
  | ended covered => exact ⟨fun p c there => (lookup_erase_iff.mp there).2,rfl,rfl,rfl⟩
  | untold covered => exact ⟨fun p c there => (lookup_erase_iff.mp there).2,rfl,rfl,rfl⟩
  | _ => exact ⟨fun _ _ there => there,rfl,rfl,rfl⟩

/-- No answer moves the clock. -/
theorem answer_clock {r : op.Ans} (replied : answer op m k r = some k') : k'.clock = k.clock := by
  cases op with
  | waitpid target nohang => cases waited_cases replied <;> rfl
  | spawn origin command =>
    cases r with
    | ok pid =>
      simp only [answer,Option.ite_none_left_eq_some,Option.some.injEq] at replied
      rw [← replied.2]
      rfl
    | error err => cases replied; rfl
  | blockHandled => cases r <;> (cases replied; rfl)
  | unblockHandled => cases r <;> (cases replied; rfl)
  | panic => contradiction
  | swap flag =>
    simp only [answer,Option.ite_none_right_eq_some,Option.some.injEq] at replied
    rw [← replied.2]
    rfl
  | takePendingIsolate | takeApp pid | now | iterate entries =>
    simp only [answer,Option.ite_none_right_eq_some,Option.some.injEq] at replied
    rw [← replied.2]
  | _ => cases replied; rfl

end Effects

section Obliging

def freePid (k : Kernel) : Int :=
  let taken := k.children.keys
  ((List.range (taken.length+1)).map fun n => (100 + n : Int)).find? (fun pid => !taken.contains pid)
    |>.getD 0

def firstEnded (target : WaitFor) (k : Kernel) : Option (Int × Option Ending) :=
  k.children.entries.findSome? fun entry =>
    if covers target entry.1 then entry.2.ended.map fun exit => (entry.1,exit.ending) else none

def settle (target : WaitFor) (k : Kernel) : Except Errno WaitStatus :=
  match k.firstEnded target with
  | some (pid,some ending) => .ok (.ended pid ending)
  | some (_,none) => .error .other
  | none =>
    if k.waiting = .interrupted then .error .eintr
    else if (k.covered target).isEmpty then .error .echild
    else .ok .stillAlive

def obliging (starts : Origin → Bool) (cfg : Config) : (op : Op) → Memory → Kernel → op.Ans
  | .now, _, k => k.clock
  | .swap flag, _, k => k.requested flag
  | .takePendingIsolate, _, k => k.isolate
  | .iterate listed, _, _ => listed
  | .spawn origin _, _, k =>
    if starts origin then .ok k.freePid else .error "No such file or directory (os error 2)"
  | .waitpid target _, _, k => k.settle target
  | .takeApp pid, _, k => k.apps.lookup pid
  | .loadOrDefault, _, _ => cfg
  | .loadUnits, _, _ => []
  | .loadTimers, _, _ => []
  | .isReady _, _, _ => true
  | .cgroupsAvailable, _, _ => true
  | .sethostname _, _, _ => .ok ()
  | .openAck, _, _ => .ok ()
  | .becomeSubreaper, _, _ => .ok ()
  | .installHandlers, _, _ => .ok ()
  | .blockHandled, _, _ => .ok ()
  | .unblockHandled, _, _ => .ok ()
  | .resolveUid _, _, _ => none
  | .resolveGid _, _, _ => none
  | .lastPing _, _, _ => none
  | .listenFor _ _ _, _, _ => none
  | .sleep _, _, _ => ()
  | .log _, _, _ => ()
  | .setLevel _, _, _ => ()
  | .publishStatus _, _, _ => ()
  | .publishTargets _ _, _, _ => ()
  | .forget _, _, _ => ()
  | .createFor _ _, _, _ => ()
  | .attach _ _, _, _ => ()
  | .killAndRemove _, _, _ => ()
  | .killAndRemoveApp _, _, _ => ()
  | .setScoreAdjust _ _, _, _ => ()
  | .kill _ _, _, _ => ()
  | .writeAck, _, _ => ()
  | .spawnListener, _, _ => ()
  | .spawnMonitor, _, _ => ()
  | .panic, _, _ => ()

end Obliging

def machine : Interaction.Machine Memory Op Op.Ans Kernel Event := ⟨stir,answer⟩

end Kernel
end MitosServices
