import MitosServices.Timers
import MitosServices.Footprint
import MitosServices.Interaction.Run

/-! What a child runs as. `Command` drops the identity on its own where there is no sandbox; behind
one it is dropped by hand, and a timer's run knows no sandbox at all. -/
namespace MitosServices

structure Identity where
  uid : Nat
  gid : Nat
  groups : List Nat
deriving DecidableEq, Repr

namespace Identity

/-- The one id that `setuid(2)` and `setgid(2)` refuse to a privileged process. -/
def reserved : Nat := 2^32 - 1

def setuid (i : Identity) (u : Nat) : Option Identity :=
  if u = reserved then none else some { i with uid := u }

def setgid (i : Identity) (g : Nat) : Option Identity :=
  if g = reserved then none else some { i with gid := g }

def setgroups (i : Identity) : Identity := { i with groups := [] }

end Identity

inductive SandboxStep
  | unshareMounts
  | makePrivate
  | mountTmp
  | noNewPrivileges
deriving DecidableEq, Repr

namespace ServiceSandbox

def steps (sandbox : ServiceSandbox) : List SandboxStep :=
  (if sandbox.privateTmp || sandbox.protectSystem then [.unshareMounts,.makePrivate] else []) ++
  (if sandbox.privateTmp then [.mountTmp] else []) ++
  (if sandbox.noNewPrivileges then [.noNewPrivileges] else [])

/-- None of the steps touches the identity. -/
def apply (allowed : SandboxStep → Bool) (sandbox : ServiceSandbox) (i : Identity) : Option Identity :=
  if sandbox.steps.all allowed then some i else none

end ServiceSandbox

/-- What the child does before any closure: the group, then, for a user, the other groups and the user. -/
def Command.drop (c : Command) (i : Identity) : Option Identity := do
  let i ← c.gid.elim (some i) i.setgid
  c.uid.elim (some i) i.setgroups.setuid

/-- The drop by hand: the other groups go with the group. -/
def PreExec.drop (p : PreExec) (i : Identity) : Option Identity := do
  let i ← p.gid.elim (some i) i.setgroups.setgid
  p.uid.elim (some i) i.setuid

def Command.identity (c : Command) (allowed : SandboxStep → Bool) (i : Identity) : Option Identity := do
  let i ← c.drop i
  match c.preExec with
  | none => some i
  | some p => (p.sandbox.apply allowed i).bind p.drop

def ServiceDef.sandbox (d : ServiceDef) : ServiceSandbox := ⟨d.privateTmp,d.protectSystem,d.noNewPrivileges⟩

def ServiceDef.unsandboxed (d : ServiceDef) : ServiceDef :=
  { d with privateTmp := false, protectSystem := false, noNewPrivileges := false }

section Identities
open Identity
variable {d : ServiceDef} {uid gid : Option Nat} {sock : Option String} {allowed : SandboxStep → Bool}
  {i : Identity}

theorem serviceCommand_bare (bare : d.sandbox.isEmpty = true) : serviceCommand d uid gid sock =
    { program := d.path, args := d.args,
      env := (sock.toList.map fun path => ("NOTIFY_SOCKET",path)) ++ d.environment,
      currentDir := d.workingDir, uid, gid } :=
  if_pos bare

theorem serviceCommand_sandboxed (sandboxed : d.sandbox.isEmpty = false) : serviceCommand d uid gid sock =
    { program := d.path, args := d.args,
      env := (sock.toList.map fun path => ("NOTIFY_SOCKET",path)) ++ d.environment,
      currentDir := d.workingDir, preExec := some ⟨d.sandbox,gid,uid⟩ } :=
  if_neg (by rw [← ServiceDef.sandbox,sandboxed]; decide)

theorem identity_bare (bare : d.sandbox.isEmpty = true) : (serviceCommand d uid gid sock).identity allowed i =
    (gid.elim (some i) i.setgid).bind fun i => uid.elim (some i) i.setgroups.setuid := by
  rw [serviceCommand_bare bare]
  exact Option.bind_fun_some _

theorem identity_sandboxed (sandboxed : d.sandbox.isEmpty = false) (isolated : d.sandbox.steps.all allowed = true) :
    (serviceCommand d uid gid sock).identity allowed i =
      (gid.elim (some i) i.setgroups.setgid).bind fun i => uid.elim (some i) i.setuid := by
  have entered : d.sandbox.apply allowed i = some i := if_pos isolated
  rw [serviceCommand_sandboxed sandboxed]
  change (d.sandbox.apply allowed i).bind (PreExec.drop ⟨d.sandbox,gid,uid⟩) = _
  rw [entered]
  rfl

/-- A sandbox changes nothing about the identity exactly if user and group are set both or not at
all, unless there are no other groups to be left with or the start fails on either way. -/
theorem identity_kept_iff (d : ServiceDef) (uid gid : Option Nat) (sock : Option String)
    (allowed : SandboxStep → Bool) (gid₀ : Nat) (groups : List Nat) (sandboxed : d.sandbox.isEmpty = false)
    (isolated : d.sandbox.steps.all allowed = true) :
    (serviceCommand d uid gid sock).identity allowed ⟨0,gid₀,groups⟩ =
        (serviceCommand d.unsandboxed uid gid sock).identity allowed ⟨0,gid₀,groups⟩ ↔
      (uid.isSome ↔ gid.isSome) ∨ groups = [] ∨ uid = some reserved ∨ gid = some reserved := by
  rw [identity_sandboxed sandboxed isolated,identity_bare rfl]
  cases uid with
  | none =>
    cases gid with
    | none => simp
    | some g =>
      by_cases refused : g = reserved
      · simp [setgid,setgroups,refused]
      · simp [setgid,setgroups,refused,eq_comm]
  | some u =>
    cases gid with
    | none =>
      by_cases refused : u = reserved
      · simp [setuid,setgroups,refused]
      · simp [setuid,setgroups,refused]
    | some g =>
      by_cases refused : g = reserved
      · simp [setgid,setgroups,refused]
      · simp [setgid,setuid,setgroups,refused]

def jailed : ServiceDef := { name := "web", path := "/bin/web", user := some "1000", privateTmp := true }

theorem identity_kept_iff_jailed :
    (serviceCommand jailed (some 1000) (some 1000) none).identity (fun _ => true) ⟨0,0,[0,27]⟩ =
        (serviceCommand jailed.unsandboxed (some 1000) (some 1000) none).identity (fun _ => true) ⟨0,0,[0,27]⟩ ↔
      ((some 1000).isSome ↔ (some 1000).isSome) ∨ [0,27] = [] ∨ some 1000 = some reserved ∨ some 1000 = some reserved :=
  identity_kept_iff jailed (some 1000) (some 1000) none (fun _ => true) 0 [0,27] (by decide) (by decide)

/-- The user alone: behind a sandbox it keeps the groups of root. -/
theorem keeps_groups_of_root :
    (serviceCommand jailed (some 1000) none none).identity (fun _ => true) ⟨0,0,[0,27]⟩ = some ⟨1000,0,[0,27]⟩ ∧
    (serviceCommand jailed.unsandboxed (some 1000) none none).identity (fun _ => true) ⟨0,0,[0,27]⟩ =
      some ⟨1000,0,[]⟩ := by
  decide

end Identities

section Alike

def Command.value (c : Command) (key : String) : Option String :=
  ((c.env.filter fun pair => pair.1 == key).getLast?).map Prod.snd

def Command.isolation (c : Command) : ServiceSandbox :=
  (c.preExec.map PreExec.sandbox).getD ⟨false,false,false⟩

/-- Two commands run a definition alike, as far as it says how it is to run. -/
structure RunsAlike (d : ServiceDef) (c c' : Command) : Prop where
  program : c.program = c'.program
  args : c.args = c'.args
  env : ∀ key ∈ d.environment.map Prod.fst, c.value key = c'.value key
  currentDir : c.currentDir = c'.currentDir
  uid : ∀ allowed i, (c.identity allowed i).map Identity.uid = (c'.identity allowed i).map Identity.uid
  gid : ∀ allowed i, (c.identity allowed i).map Identity.gid = (c'.identity allowed i).map Identity.gid
  isolation : c.isolation = c'.isolation

variable {d : ServiceDef} {uid gid : Option Nat} {sock : Option String}

theorem isEmpty_iff (sandbox : ServiceSandbox) : sandbox.isEmpty = true ↔ sandbox = ⟨false,false,false⟩ := by
  obtain ⟨tmp,system,privileges⟩ := sandbox
  simp [ServiceSandbox.isEmpty,and_assoc]

theorem isolation_service : (serviceCommand d uid gid sock).isolation = d.sandbox := by
  cases empty : d.sandbox.isEmpty with
  | true =>
    rw [serviceCommand_bare empty]
    exact ((isEmpty_iff _).mp empty).symm
  | false =>
    rw [serviceCommand_sandboxed empty]
    rfl

theorem env_service : (serviceCommand d uid gid sock).env =
    (sock.toList.map fun path => ("NOTIFY_SOCKET",path)) ++ d.environment := by
  cases empty : d.sandbox.isEmpty with
  | true => rw [serviceCommand_bare empty]
  | false => rw [serviceCommand_sandboxed empty]

/-- What the notify socket adds is overruled by the definition's own variables. -/
theorem value_configured {key : String} (configured : key ∈ d.environment.map Prod.fst) :
    (Timers.oneshotCommand d uid gid).value key = (serviceCommand d uid gid sock).value key := by
  have own : d.environment.filter (fun pair => pair.1 == key) ≠ [] := by
    obtain ⟨pair,member,same⟩ := List.mem_map.mp configured
    exact List.ne_nil_of_mem (List.mem_filter.mpr ⟨member,by simpa using same⟩)
  rw [Command.value,Command.value,env_service,List.filter_append,List.getLast?_append_of_ne_nil _ own]
  rfl

/-- A timer's run is like a supervised start exactly if no sandbox is asked for. -/
theorem runsAlike_iff : RunsAlike d (Timers.oneshotCommand d uid gid) (serviceCommand d uid gid sock) ↔
    d.sandbox.isEmpty = true := by
  constructor
  · intro alike
    have isolation := alike.isolation
    rw [isolation_service] at isolation
    exact (isEmpty_iff _).mpr isolation.symm
  · intro bare
    have isolation : (Timers.oneshotCommand d uid gid).isolation = (serviceCommand d uid gid sock).isolation := by
      rw [isolation_service]
      exact ((isEmpty_iff _).mp bare).symm
    refine ⟨?_,?_,fun _ => value_configured,?_,?_,?_,isolation⟩ <;> rw [serviceCommand_bare bare] <;> intros <;> rfl

end Alike

section Runs
open Interaction Interaction.Program

def resolving (uidOf gidOf : String → Option Nat) : Surroundings Memory Op Op.Ans Unit where
  moves _ _ _ _ := False
  replies op _ _ r _ := match op, r with
    | .resolveUid spec, r => r = uidOf spec
    | .resolveGid spec, r => r = gidOf spec
    | _, _ => True

def Spawns (uidOf gidOf : String → Option Nat) {α : Type} (p : Code α) (origin : Origin) (c : Command) : Prop :=
  ∃ m t, Reaches (resolving uidOf gidOf) ⟨p,m,()⟩ t ∧ t.program.next? = some (.spawn origin c)

def Only (origin : Origin) (allowed : Command → Prop) (op : Option Op) (_ : Memory) (_ : Unit) : Prop :=
  ∀ c, op = some (.spawn origin c) → allowed c

variable {uidOf gidOf : String → Option Nat} {origin : Origin} {allowed : Command → Prop} {m : Memory} {α : Type}

theorem wp_resolveUid {Q : Option Nat → Memory → Unit → Prop} {user : Option String}
    (rest : Q (user.bind uidOf) m ()) : (resolveWith (fun spec => call (.resolveUid spec)) user).wp
      (resolving uidOf gidOf) (Only origin allowed) Q m () := by
  cases user with
  | none => exact rest
  | some spec =>
    intro _ _
    refine ⟨fun _ => nofun,?_⟩
    intro r _ replied
    obtain rfl : r = uidOf spec := replied
    exact rest

theorem wp_resolveGid {Q : Option Nat → Memory → Unit → Prop} {group : Option String}
    (rest : Q (group.bind gidOf) m ()) : (resolveWith (fun spec => call (.resolveGid spec)) group).wp
      (resolving uidOf gidOf) (Only origin allowed) Q m () := by
  cases group with
  | none => exact rest
  | some spec =>
    intro _ _
    refine ⟨fun _ => nofun,?_⟩
    intro r _ replied
    obtain rfl : r = gidOf spec := replied
    exact rest

theorem frame_besides : (resolving uidOf gidOf).Frame (Only origin allowed) (fun _ _ => True)
    (fun op => op.besides = true) fun _ _ => True where
  updates _ _ _ _ _ := trivial
  moves _ _ _ _ _ _ _ := trivial
  replies _ _ _ _ _ _ _ _ := trivial
  holds op _ _ beside _ := by
    rintro c rfl
    have spawns := beside (.spawn origin c) rfl
    contradiction

theorem spawnOneshot_only (d : ServiceDef) : (Timers.spawnOneshot d).wp (resolving uidOf gidOf)
    (Only (.timer d.name) fun c => c = Timers.oneshotCommand d (d.user.bind uidOf) (d.group.bind gidOf))
    (fun _ _ _ => True) m () := by
  apply (wp_bind _ _ _ _ _).mpr
  apply wp_resolveUid
  apply (wp_bind _ _ _ _ _).mpr
  apply wp_resolveGid
  intro _ _
  constructor
  · rintro c spawned
    cases spawned
    rfl
  · exact fun _ _ _ => trivial

theorem besides_call {op : Op} (beside : op.besides = true) :
    (call op).Uses (fun _ _ => True) fun op => op.besides = true :=
  uses_perform beside

theorem started_besides (d : ServiceDef) (times : List Nat) (pid : Int) :
    (started d times pid).Uses (fun _ _ => True) fun op => op.besides = true :=
  uses_mono (started_follows d times pid) (fun _ _ _ => trivial) fun _ beside => beside

theorem rescued_besides (pid : Int) : (rescued pid).Uses (fun _ _ => True) fun op => op.besides = true :=
  uses_mono (rescued_follows pid) (fun _ _ _ => trivial) fun _ beside => beside

theorem prepareCommand_prepared (d : ServiceDef) :
    (prepareCommand d).wp (resolving uidOf gidOf) (Only origin allowed)
      (fun c _ _ => ∃ sock, c = serviceCommand d (d.user.bind uidOf) (d.group.bind gidOf) sock) m () := by
  apply (wp_bind _ _ _ _ _).mpr
  apply wp_resolveUid
  apply wp_bind_frame frame_besides (uses_provided (besides_call rfl)) trivial
  intro _ m _ _
  apply (wp_bind _ _ _ _ _).mpr
  apply wp_resolveGid
  apply wp_bind_frame frame_besides (uses_provided (besides_call rfl)) trivial
  intro _ m _ _
  apply wp_bind_frame frame_besides (besides_call rfl) trivial
  intro _ m _ _
  apply wp_bind_frame frame_besides (besides_call rfl) trivial
  intro sock m _ _
  exact ⟨sock,rfl⟩

theorem spawnWithHistory_only (d : ServiceDef) (times : List Nat) :
    (spawnWithHistory d times).wp (resolving uidOf gidOf) (Only (.service d.name d.critical) fun c =>
      ∃ sock, c = serviceCommand d (d.user.bind uidOf) (d.group.bind gidOf) sock) (fun _ _ _ => True) m () := by
  apply wp_then (prepareCommand_prepared d)
  intro command m _ prepared
  apply wp_then (R := fun _ _ _ => True)
  · intro _ _
    constructor
    · rintro c spawned
      cases spawned
      exact prepared
    · exact fun _ _ _ => trivial
  · intro child m _ _
    cases child with
    | ok pid => exact wp_frame frame_besides (started_besides d times pid) trivial
    | error e =>
      apply wp_bind_frame frame_besides (besides_call rfl) trivial
      intro _ m _ _
      apply (wp_provided _ _ _ _ _).mpr
      split
      · -- the shell that stands in is another origin
        apply wp_then (R := fun _ _ _ => True)
        · exact fun _ _ => ⟨fun _ => nofun,fun _ _ _ => trivial⟩
        · intro shell m _ _
          cases shell with
          | ok pid => exact wp_frame frame_besides (rescued_besides pid) trivial
          | error _ => exact trivial
      · exact trivial

theorem reaches_resolveUid {user : Option String} {f : Option Nat → Code α} :
    Reaches (resolving uidOf gidOf) ⟨resolveWith (fun spec => call (.resolveUid spec)) user >>= f,m,()⟩
      ⟨f (user.bind uidOf),m,()⟩ := by
  cases user with
  | none => exact .refl
  | some spec => exact reaches_call (Op.resolveUid spec) () rfl

theorem reaches_resolveGid {group : Option String} {f : Option Nat → Code α} :
    Reaches (resolving uidOf gidOf) ⟨resolveWith (fun spec => call (.resolveGid spec)) group >>= f,m,()⟩
      ⟨f (group.bind gidOf),m,()⟩ := by
  cases group with
  | none => exact .refl
  | some spec => exact reaches_call (Op.resolveGid spec) () rfl

theorem reaches_provided_log {c : Bool} {line : Line} {f : Unit → Code α} :
    Reaches (resolving uidOf gidOf) ⟨provided c (log line) >>= f,m,()⟩ ⟨f (),m,()⟩ := by
  cases c with
  | false => exact .refl
  | true => exact reaches_call (Op.log line) () trivial

theorem spawns_oneshot (d : ServiceDef) : Spawns uidOf gidOf (Timers.spawnOneshot d) (.timer d.name)
    (Timers.oneshotCommand d (d.user.bind uidOf) (d.group.bind gidOf)) :=
  ⟨{},_,reaches_resolveUid.trans reaches_resolveGid,rfl⟩

theorem spawns_service (d : ServiceDef) (times : List Nat) : Spawns uidOf gidOf (spawnWithHistory d times)
    (.service d.name d.critical) (serviceCommand d (d.user.bind uidOf) (d.group.bind gidOf) none) := by
  let start : Memory := {}
  let command := serviceCommand d (d.user.bind uidOf) (d.group.bind gidOf)
  have listened : Step (resolving uidOf gidOf)
      ⟨Program.call (Op.listenFor d.name (d.user.bind uidOf) (d.group.bind gidOf)) fun sock => .ret (command sock),start,()⟩
      ⟨.ret (command none),start,()⟩ :=
    .reply (S := resolving uidOf gidOf) (Op.listenFor d.name _ _) (fun sock => .ret (command sock)) start () _ () trivial
  have prepared : Reaches (resolving uidOf gidOf) ⟨prepareCommand d,start,()⟩ ⟨.ret (command none),start,()⟩ :=
    reaches_resolveUid.trans <| reaches_provided_log.trans <| reaches_resolveGid.trans <|
    reaches_provided_log.trans <| (reaches_call (Op.forget d.name) () (r := ()) trivial).trans <| .single listened
  exact ⟨start,_,reaches_bind _ prepared,rfl⟩

theorem runs_alike_iff (uidOf gidOf : String → Option Nat) (d : ServiceDef) (times : List Nat) :
    (∀ c c', Spawns uidOf gidOf (Timers.spawnOneshot d) (.timer d.name) c →
      Spawns uidOf gidOf (spawnWithHistory d times) (.service d.name d.critical) c' → RunsAlike d c c') ↔
    d.sandbox.isEmpty = true := by
  constructor
  · intro alike
    exact runsAlike_iff.mp (alike _ _ (spawns_oneshot d) (spawns_service d times))
  · rintro bare c c' ⟨m,t,reached,spawned⟩ ⟨m',t',reached',spawned'⟩
    obtain rfl := wp_everywhere reached (spawnOneshot_only d) (fun _ _ _ _ _ => nofun) c spawned
    obtain ⟨sock,rfl⟩ := wp_everywhere reached' (spawnWithHistory_only d times) (fun _ _ _ _ _ => nofun) c' spawned'
    exact runsAlike_iff.mpr bare

/-- The definition asks for a private `/tmp`, and the timer's run has none. -/
theorem timer_loses_sandbox :
    ¬ RunsAlike jailed (Timers.oneshotCommand jailed (some 1000) none) (serviceCommand jailed (some 1000) none none) := by
  intro alike
  exact absurd alike.isolation (by decide)

end Runs
end MitosServices
