import MitosServices.Execution
import MitosServices.Seccomp
import MitosServices.Apps
import MitosServices.Interaction.Fallible
import MitosServices.Interaction.Machine
import Mathlib.Data.Finset.Basic
import Mathlib.Data.Finset.Range

/-! What a child does between `fork()` and `exec()`, call by call: the sandbox of an app, the one a
service can opt into, and what the kernel makes of their calls while the host goes on mounting. -/
namespace MitosServices.Isolation
open Interaction Interaction.Program

inductive CloneFlag
  | newns
  | newuts
  | newipc
deriving DecidableEq, Repr

inductive MountFlag
  | msRec
  | msPrivate
  | msBind
  | msRemount
  | msRdonly
  | msNosuid
  | msNodev
  | msNoexec
deriving DecidableEq, Repr

structure Mount where
  source : Option String
  target : String
  fstype : Option String
  flags : List MountFlag
  data : Option String
deriving DecidableEq, Repr

/-- The calls of a child; all the `prctl(2)` calls have a constructor of their own. -/
inductive Syscall
  | unshare (flags : List CloneFlag)
  | mount (m : Mount)
  | setNoNewPrivs
  | capbsetDrop (cap : Nat)
  | setSeccomp (program : List Bpf.Instruction)
  | setgroups
  | setgid (gid : Nat)
  | setuid (uid : Nat)
  | exec
deriving DecidableEq, Repr

abbrev Result := Except Nat Unit

abbrev Code := Program Unit Syscall fun _ => Result

def call (op : Syscall) : Code Result := perform op

section Mounts

def privateTree : Mount := ⟨none,"/",none,[.msRec,.msPrivate],none⟩

def tmpfs : Mount :=
  ⟨some "tmpfs","/tmp",some "tmpfs",[.msNosuid,.msNodev,.msNoexec],some "size=64M,mode=1777"⟩

def bindOver (path : String) : Mount := ⟨some path,path,none,[.msBind,.msRec],none⟩

def readOnly (path : String) : Mount := ⟨none,path,none,[.msRemount,.msBind,.msRdonly,.msRec],none⟩

def protectedPaths : List String := ["/usr","/boot","/etc"]

end Mounts

section Steps

def namespaces : Code Result := (call (.unshare [.newns,.newuts,.newipc])).andThen (call (.mount privateTree))

def privateTmp : Code Result := call (.mount tmpfs)

/-- A path that cannot be bound is passed over, and so is a remount that fails. -/
def protectPath (path : String) : Code Unit := do
  let bound ← call (.mount (bindOver path))
  match bound with
  | .ok _ => do
    let _ ← call (.mount (readOnly path))
    pure ()
  | .error _ => pure ()

def protectSystem : Code Result := do
  each protectedPaths protectPath
  pure (.ok ())

def dropBounding (cap : Nat) : Code Unit := do
  let _ ← call (.capbsetDrop cap)
  pure ()

def dropPrivileges (capLastCap : Nat) : Code Result :=
  (call .setNoNewPrivs).andThen do
    each (List.range (capLastCap + 1)) dropBounding
    pure (.ok ())

def applySeccomp : Code Result :=
  (call .setNoNewPrivs).andThen (call (.setSeccomp (Seccomp.buildProgram Seccomp.blockedSyscalls)))

end Steps

section Sandboxes

def fallbackLastCap : Nat := 40

/-- `sandbox::prepare`, from what the file of the last capability holds, if it can be read. -/
def prepare (capLastCap : Option (List Char)) : Apps.Sandbox :=
  ⟨(capLastCap.bind fun text => Text.parseUnsigned 32 (Text.trim text)).getD fallbackLastCap⟩

/-- `Sandbox::apply`. -/
def applySandbox (sandbox : Apps.Sandbox) : Code Result :=
  namespaces.andThen <| privateTmp.andThen <| (dropPrivileges sandbox.capLastCap).andThen applySeccomp

/-- `ServiceSandbox::apply`. -/
def applyServiceSandbox (sandbox : ServiceSandbox) : Code Result :=
  (whenTrue (sandbox.privateTmp || sandbox.protectSystem)
    ((call (.unshare [.newns])).andThen (call (.mount privateTree)))).andThen <|
  (whenTrue sandbox.privateTmp privateTmp).andThen <|
  (whenTrue sandbox.protectSystem protectSystem).andThen <|
  whenTrue sandbox.noNewPrivileges (call .setNoNewPrivs)

/-- The groups are cleared on the way to a group, and nobody asks whether that succeeded. -/
def takeGroup (gid : Nat) : Code Result := do
  let _ ← call .setgroups
  call (.setgid gid)

/-- The closure of `spawn_with_history`. -/
def preExec (p : PreExec) : Code Result :=
  (applyServiceSandbox p.sandbox).andThen <|
  (whenSome p.gid takeGroup).andThen <|
  whenSome p.uid fun uid => call (.setuid uid)

/-- What `Command` does about the groups on the way to a user: it minds any error but `EPERM`. -/
def clearGroups : Code Result := do
  let r ← call .setgroups
  pure (if r = .error 1 then .ok () else r)

def runService (c : Command) : Code Result :=
  (whenSome c.gid fun gid => call (.setgid gid)).andThen <|
  (whenSome c.uid fun uid => clearGroups.andThen (call (.setuid uid))).andThen <|
  (whenSome c.preExec preExec).andThen (call .exec)

def runApp (sandbox : Apps.Sandbox) : Code Result := (applySandbox sandbox).andThen (call .exec)

end Sandboxes

section Kernel

def capSetgid : Nat := 6
def capSetuid : Nat := 7
def capSetpcap : Nat := 8
def capSysAdmin : Nat := 21

/-- The capabilities of a process. The kernel knows none above `lastCap`. -/
structure Caps where
  lastCap : Nat
  effective : Finset Nat
  bounding : Finset Nat
  known : ∀ c ∈ bounding, c ≤ lastCap
deriving DecidableEq

/-- What is mounted in a namespace of its own, the latest first, and whether mounts still pass
between it and the one it was copied from. -/
structure Namespace where
  mounts : List Mount
  cutOff : Bool
deriving DecidableEq, Repr

structure Child where
  own : Option Namespace
  ownUts : Bool
  ownIpc : Bool
  caps : Caps
  noNewPrivs : Bool
  filters : List (List Bpf.Instruction)
  identity : Identity
  /-- What this process has mounted that the host has come to see. -/
  leaked : List Mount
  /-- The calls it was refused. -/
  refused : List Syscall
deriving DecidableEq

def Caps.drop (caps : Caps) (cap : Nat) : Caps where
  lastCap := caps.lastCap
  effective := caps.effective
  bounding := caps.bounding.erase cap
  known c member := caps.known c (Finset.mem_of_mem_erase member)

def Caps.dropEffective (caps : Caps) : Caps := { caps with effective := ∅ }

def forked (caps : Caps) (noNewPrivs : Bool) (filters : List (List Bpf.Instruction)) (identity : Identity) :
    Child where
  own := none
  ownUts := false
  ownIpc := false
  caps := caps
  noNewPrivs := noNewPrivs
  filters := filters
  identity := identity
  leaked := []
  refused := []

namespace Child

def unshare (k : Child) (flags : List CloneFlag) : Child :=
  { k with
    own := if flags.contains .newns then some ⟨k.own.elim [] Namespace.mounts,false⟩ else k.own
    ownUts := k.ownUts || flags.contains .newuts
    ownIpc := k.ownIpc || flags.contains .newipc }

def cuts (m : Mount) : Bool := m.target == "/" && m.flags.contains .msRec && m.flags.contains .msPrivate

/-- A mount that others share is theirs too; a remount never is. -/
def mount (k : Child) (m : Mount) : Child :=
  match k.own with
  | none => { k with leaked := m :: k.leaked }
  | some ns =>
    if cuts m then { k with own := some { ns with cutOff := true } }
    else { k with
      own := some { ns with mounts := m :: ns.mounts }
      leaked := if ns.cutOff || m.flags.contains .msRemount then k.leaked else m :: k.leaked }

def hostMounts (k : Child) (mounts : List Mount) : Child :=
  { k with own := k.own.map fun ns => if ns.cutOff then ns else { ns with mounts } }

def lies (k : Child) (path : String) : Option Mount :=
  k.own.bind fun ns => ns.mounts.find? fun m => m.target == path

/-- Of a child that root has forked: any id but root's takes its effective capabilities away. -/
def setuid (k : Child) (uid : Nat) : Child :=
  { k with
    identity := { k.identity with uid }
    caps := if uid = 0 then k.caps else k.caps.dropEffective }

def granted (k : Child) : Syscall → Option Child
  | .unshare flags => if capSysAdmin ∈ k.caps.effective then some (k.unshare flags) else none
  | .mount m => if capSysAdmin ∈ k.caps.effective then some (k.mount m) else none
  | .setNoNewPrivs => some { k with noNewPrivs := true }
  | .capbsetDrop cap =>
    if capSetpcap ∈ k.caps.effective ∧ cap ≤ k.caps.lastCap then some { k with caps := k.caps.drop cap } else none
  | .setSeccomp program =>
    if k.noNewPrivs = true ∨ capSysAdmin ∈ k.caps.effective then some { k with filters := program :: k.filters }
    else none
  | .setgroups => if capSetgid ∈ k.caps.effective then some { k with identity := k.identity.setgroups } else none
  | .setgid gid =>
    if capSetgid ∈ k.caps.effective then (k.identity.setgid gid).map fun identity => { k with identity } else none
  | .setuid uid => if capSetuid ∈ k.caps.effective ∧ uid ≠ Identity.reserved then some (k.setuid uid) else none
  | .exec => some k

/-- Two of the calls fail for no other reason than that they may not be made. -/
def sure : Syscall → Bool
  | .setNoNewPrivs | .capbsetDrop _ => true
  | _ => false

end Child

def stir (mounts : List Mount) (_ : Syscall) (_ : Unit) (k : Child) : Option Child := some (k.hostMounts mounts)

def answer (op : Syscall) (_ : Unit) (k : Child) : Result → Option Child
  | .ok _ => k.granted op
  | .error _ =>
    if Child.sure op && (k.granted op).isSome then none else some { k with refused := op :: k.refused }

def machine : Machine Unit Syscall (fun _ => Result) Child (List Mount) := ⟨stir,answer⟩

end Kernel

section Steps
variable {A : Option Syscall → Unit → Child → Prop} {P : Child → Prop} {Q : Result → Unit → Child → Prop}
  {op : Syscall} {k : Child}

def Settled (P : Child → Prop) : Prop := ∀ k mounts, P k → P (k.hostMounts mounts)

theorem wp_call (settled : Settled P) (start : P k) (holds : ∀ k, P k → A (some op) () k)
    (granted : ∀ k k', P k → k.granted op = some k' → Q (.ok ()) () k')
    (refused : ∀ failure k, P k → (Child.sure op = true → k.granted op = none) →
      Q (.error failure) () { k with refused := op :: k.refused }) :
    (call op).wp machine.surroundings A Q () k := by
  apply wp_perform start
  · rintro k _ ⟨mounts,stirred⟩ before
    obtain rfl := Option.some.inj stirred
    exact settled k mounts before
  · exact holds
  · intro k r k' before replied
    cases r with
    | ok _ => exact granted k k' before replied
    | error failure =>
      change (if _ then none else some _) = some k' at replied
      split at replied
      · contradiction
      · next possible =>
        obtain rfl := Option.some.inj replied
        refine refused failure k before fun sure => ?_
        simpa [sure] using possible

end Steps

end MitosServices.Isolation
