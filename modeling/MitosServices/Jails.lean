import MitosServices.Isolation

/-! What the children of apps and of services have behind them when their programs are run, whatever
the kernel refuses them and whatever the host mounts meanwhile. -/
namespace MitosServices.Isolation
open Interaction Interaction.Program

section App
variable {start k : Child}

/-- Where a child has come to, compared with how it was forked. -/
structure Reached (start : Child) (own : Option Namespace → Prop) (apart noNewPrivs : Bool) (kept : Nat → Prop)
    (filters : List (List Bpf.Instruction)) (k : Child) : Prop where
  own : own k.own
  uts : k.ownUts = apart
  ipc : k.ownIpc = apart
  noNewPrivs : k.noNewPrivs = (start.noNewPrivs || noNewPrivs)
  bounding : ∀ c, c ∈ k.caps.bounding ↔ c ∈ start.caps.bounding ∧ kept c
  lastCap : k.caps.lastCap = start.caps.lastCap
  effective : k.caps.effective = start.caps.effective
  filters : k.filters = filters
  identity : k.identity = start.identity
  leaked : k.leaked = []

/-- The namespace is its own, and mounts pass between it and the host as long as it is not cut off. -/
def Open : Option Namespace → Prop := fun own => ∃ mounts, own = some ⟨mounts,false⟩

def CutOff (made : List Mount) : Option Namespace → Prop := fun own => ∃ mounts, own = some ⟨made ++ mounts,true⟩

variable {own : Option Namespace → Prop} {apart noNewPrivs : Bool} {kept : Nat → Prop}
  {filters : List (List Bpf.Instruction)} {made : List Mount}

theorem settled_reached (still : ∀ ns mounts, own (some ns) → ns.cutOff = false → own (some { ns with mounts })) :
    Settled (Reached start own apart noNewPrivs kept filters) := by
  intro k mounts reached
  refine { reached with own := ?_ }
  have before := reached.own
  change own (k.own.map _)
  cases holds : k.own with
  | none =>
    rw [holds] at before
    exact before
  | some ns =>
    rw [holds] at before
    change own (some (if ns.cutOff then ns else _))
    split
    · exact before
    · next shared => exact still ns mounts before (by simpa using shared)

theorem still_none : ∀ (ns : Namespace) (mounts : List Mount), some ns = none → ns.cutOff = false →
    some { ns with mounts } = none := by
  intro _ _ absent
  contradiction

theorem still_open : ∀ (ns : Namespace) (mounts : List Mount), Open (some ns) → ns.cutOff = false →
    Open (some { ns with mounts }) := by
  rintro ns mounts _ shared
  exact ⟨mounts,by rw [← shared]⟩

theorem still_cutOff : ∀ (ns : Namespace) (mounts : List Mount), CutOff made (some ns) → ns.cutOff = false →
    CutOff made (some { ns with mounts }) := by
  rintro ns mounts ⟨before,same⟩ shared
  obtain rfl := Option.some.inj same
  contradiction

/-- What a step comes to: `P`, or a failure. Either way the host has seen nothing. -/
def Came (P : Child → Prop) (r : Result) (_ : Unit) (k : Child) : Prop := (r = .ok () → P k) ∧ k.leaked = []

def Unleaked (_ : Result) (_ : Unit) (k : Child) : Prop := k.leaked = []

theorem failed_came {P : Child → Prop} {failure : Nat} (unseen : k.leaked = []) : Came P (.error failure) () k := by
  refine ⟨?_,unseen⟩
  intro fine
  contradiction

def Early (A : Option Syscall → Unit → Child → Prop) (start : Child) : Prop :=
  ∀ op own apart noNewPrivs kept filters k, op ≠ some .exec →
    Reached start own apart noNewPrivs kept filters k → A op () k

variable {A : Option Syscall → Unit → Child → Prop} {P R : Child → Prop}

theorem came_then {first next : Code Result} {Q : Result → Unit → Child → Prop}
    (here : first.wp machine.surroundings A (Came P) () k) (rest : ∀ k, P k → next.wp machine.surroundings A Q () k)
    (failed : ∀ failure k, k.leaked = [] → Q (.error failure) () k) :
    (first.andThen next).wp machine.surroundings A Q () k := by
  apply wp_andThen_of here
  · exact fun _ k came => rest k (came.1 rfl)
  · exact fun failure _ k came => failed failure k came.2

theorem came_andThen {first next : Code Result} (here : first.wp machine.surroundings A (Came P) () k)
    (rest : ∀ k, P k → next.wp machine.surroundings A (Came R) () k) :
    (first.andThen next).wp machine.surroundings A (Came R) () k :=
  came_then here rest fun _ _ unseen => failed_came unseen

theorem granted_privileged {needed : Nat} {k k' next : Child}
    (granted : (if needed ∈ k.caps.effective then some next else none) = some k') : next = k' := by
  split at granted
  · exact Option.some.inj granted
  · contradiction

theorem unshare_came {flags : List CloneFlag} (early : Early A start) (fresh : flags.contains .newns = true)
    (uts : flags.contains .newuts = apart) (ipc : flags.contains .newipc = apart)
    (reached : Reached start (· = none) false false kept filters k) :
    (call (.unshare flags)).wp machine.surroundings A (Came (Reached start Open apart false kept filters)) () k := by
  apply wp_call (settled_reached still_none) reached
  · exact fun k before => early _ _ _ _ _ _ k (by simp) before
  · intro k k' before granted
    obtain rfl := granted_privileged granted
    refine ⟨fun _ => { before with own := ?_, uts := ?_, ipc := ?_ },before.leaked⟩
    · exact ⟨_,if_pos fresh⟩
    · change (k.ownUts || flags.contains .newuts) = apart
      rw [before.uts,uts,Bool.false_or]
    · change (k.ownIpc || flags.contains .newipc) = apart
      rw [before.ipc,ipc,Bool.false_or]
  · exact fun failure k before _ => failed_came before.leaked

theorem privateTree_came (early : Early A start) (reached : Reached start Open apart noNewPrivs kept filters k) :
    (call (.mount privateTree)).wp machine.surroundings A
      (Came (Reached start (CutOff []) apart noNewPrivs kept filters)) () k := by
  apply wp_call (settled_reached still_open) reached
  · exact fun k before => early _ _ _ _ _ _ k (by simp) before
  · intro k k' before granted
    obtain rfl := granted_privileged granted
    obtain ⟨mounts,own⟩ := before.own
    have cut : k.mount privateTree = { k with own := some ⟨mounts,true⟩ } := by
      rw [Child.mount,own]
      rfl
    rw [cut]
    exact ⟨fun _ => { before with own := ⟨mounts,rfl⟩ },before.leaked⟩
  · exact fun failure k before _ => failed_came before.leaked

/-- A mount behind the wall: it is the latest there, and the host does not see it. -/
theorem mount_cutOff {m : Mount} (own : CutOff made k.own) (inside : Child.cuts m = false) :
    ∃ mounts, k.mount m = { k with own := some ⟨m :: made ++ mounts,true⟩ } := by
  obtain ⟨mounts,own⟩ := own
  refine ⟨mounts,?_⟩
  rw [Child.mount,own]
  simp only [inside]
  rfl

theorem mount_came {m : Mount} (early : Early A start) (inside : Child.cuts m = false)
    (reached : Reached start (CutOff made) apart noNewPrivs kept filters k) :
    (call (.mount m)).wp machine.surroundings A
      (Came (Reached start (CutOff (m :: made)) apart noNewPrivs kept filters)) () k := by
  apply wp_call (settled_reached still_cutOff) reached
  · exact fun k before => early _ _ _ _ _ _ k (by simp) before
  · intro k k' before granted
    obtain rfl := granted_privileged granted
    obtain ⟨mounts,mounted⟩ := mount_cutOff before.own inside
    rw [mounted]
    exact ⟨fun _ => { before with own := ⟨mounts,rfl⟩ },before.leaked⟩
  · exact fun failure k before _ => failed_came before.leaked

theorem setNoNewPrivs_came (early : Early A start)
    (still : ∀ ns mounts, own (some ns) → ns.cutOff = false → own (some { ns with mounts }))
    (reached : Reached start own apart noNewPrivs kept filters k) :
    (call .setNoNewPrivs).wp machine.surroundings A (Came (Reached start own apart true kept filters)) () k := by
  apply wp_call (settled_reached still) reached
  · exact fun k before => early _ _ _ _ _ _ k (by simp) before
  · intro k k' before granted
    obtain rfl := Option.some.inj granted
    exact ⟨fun _ => { before with noNewPrivs := (Bool.or_true _).symm },before.leaked⟩
  · exact fun failure k before _ => failed_came before.leaked

/-- The capabilities that are still to be dropped, or that this process has no power to drop. -/
def Left (start : Child) (last : Nat) (rest : List Nat) (c : Nat) : Prop :=
  capSetpcap ∈ start.caps.effective → last < c ∨ c ∈ rest

theorem dropBounding_reached {last cap : Nat} {rest : List Nat} (early : Early A start) (once : cap ∉ rest)
    (low : cap ≤ last) (reached : Reached start (CutOff made) apart noNewPrivs (Left start last (cap :: rest)) filters k) :
    (dropBounding cap).wp machine.surroundings A
      (fun _ _ => Reached start (CutOff made) apart noNewPrivs (Left start last rest) filters) () k := by
  apply wp_then (R := fun _ _ => Reached start (CutOff made) apart noNewPrivs (Left start last rest) filters)
  · apply wp_call (settled_reached still_cutOff) reached
    · exact fun k before => early _ _ _ _ _ _ k (by simp) before
    · intro k k' before granted
      change (if _ then _ else none) = some k' at granted
      split at granted
      case isFalse => contradiction
      case isTrue able =>
        obtain rfl := Option.some.inj granted
        refine { before with bounding := fun c => ?_ }
        change c ∈ k.caps.bounding.erase cap ↔ _
        rw [Finset.mem_erase,before.bounding]
        constructor
        · rintro ⟨other,present,left⟩
          refine ⟨present,fun power => (left power).imp_right fun member => ?_⟩
          exact (List.mem_cons.mp member).resolve_left other
        · rintro ⟨present,left⟩
          refine ⟨?_,present,fun power => (left power).imp_right (List.mem_cons_of_mem cap)⟩
          rintro rfl
          obtain above | member := left (before.effective ▸ able.1)
          · omega
          · exact once member
    · intro _ k before refused
      refine { before with bounding := fun c => ?_ }
      have not_granted := refused rfl
      change (if _ then _ else none) = none at not_granted
      split at not_granted
      case isTrue => contradiction
      case isFalse unable =>
        rw [before.bounding]
        refine and_congr_right fun present => forall_congr' fun power => or_congr_right ?_
        -- what is in the bounding set is known to the kernel: it was not this one that was refused
        have known : c ≤ k.caps.lastCap := by
          rw [before.lastCap]
          exact start.caps.known c present
        have other : c ≠ cap := by
          rintro rfl
          exact unable ⟨before.effective ▸ power,known⟩
        simp [other]
  · exact fun _ _ k after => after

theorem dropPrivileges_came {last : Nat} (early : Early A start)
    (reached : Reached start (CutOff made) apart noNewPrivs (fun _ => True) filters k) :
    (dropPrivileges last).wp machine.surroundings A
      (Came (Reached start (CutOff made) apart true (Left start last []) filters)) () k := by
  apply came_andThen (setNoNewPrivs_came early still_cutOff reached)
  intro k reached
  let I : List Nat → Unit → Child → Prop := fun rest _ k =>
    rest.Nodup ∧ (∀ c ∈ rest, c ≤ last) ∧ Reached start (CutOff made) apart true (Left start last rest) filters k
  apply wp_then (R := fun _ => I [])
  · apply wp_each I
    · refine ⟨List.nodup_range,fun c member => Nat.le_of_lt_succ (List.mem_range.mp member),?_⟩
      refine { reached with bounding := fun c => ?_ }
      rw [reached.bounding]
      refine and_congr_right fun _ => iff_of_true trivial fun _ => ?_
      rw [List.mem_range]
      omega
    · rintro cap rest _ k ⟨distinct,low,before⟩
      obtain ⟨once,distinct⟩ := List.nodup_cons.mp distinct
      have there := dropBounding_reached early once (low cap List.mem_cons_self) before
      apply wp_mono there
      exact fun _ _ k after => ⟨distinct,fun c member => low c (List.mem_cons_of_mem cap member),after⟩
  · exact fun _ _ k after => ⟨fun _ => after.2.2,after.2.2.leaked⟩

theorem setSeccomp_came {program : List Bpf.Instruction} (early : Early A start)
    (reached : Reached start (CutOff made) apart true kept filters k) :
    (call (.setSeccomp program)).wp machine.surroundings A
      (Came (Reached start (CutOff made) apart true kept (program :: filters))) () k := by
  apply wp_call (settled_reached still_cutOff) reached
  · exact fun k before => early _ _ _ _ _ _ k (by simp) before
  · intro k k' before granted
    change (if _ then _ else none) = some k' at granted
    split at granted
    · obtain rfl := Option.some.inj granted
      exact ⟨fun _ => { before with filters := congrArg (program :: ·) before.filters },before.leaked⟩
    · contradiction
  · exact fun failure k before _ => failed_came before.leaked

structure Jailed (sandbox : Apps.Sandbox) (start k : Child) : Prop where
  alone : ∃ mounts, k.own = some ⟨tmpfs :: mounts,true⟩
  uts : k.ownUts = true
  ipc : k.ownIpc = true
  noNewPrivs : k.noNewPrivs = true
  bounding : ∀ c, c ∈ k.caps.bounding ↔
    c ∈ start.caps.bounding ∧ (capSetpcap ∈ start.caps.effective → sandbox.capLastCap < c)
  filters : k.filters = Seccomp.buildProgram Seccomp.blockedSyscalls :: start.filters
  identity : k.identity = start.identity

def confined (sandbox : Apps.Sandbox) (start : Child) (op : Option Syscall) (_ : Unit) (k : Child) : Prop :=
  k.leaked = [] ∧ (op = some .exec → Jailed sandbox start k)

theorem early_confined {sandbox : Apps.Sandbox} : Early (confined sandbox start) start :=
  fun _ _ _ _ _ _ _ early reached => ⟨reached.leaked,fun last => absurd last early⟩

theorem applySandbox_came {sandbox : Apps.Sandbox} (early : Early A start)
    (reached : Reached start (· = none) false false (fun _ => True) filters k) :
    (applySandbox sandbox).wp machine.surroundings A (Came (Reached start (CutOff [tmpfs]) true true
      (Left start sandbox.capLastCap []) (Seccomp.buildProgram Seccomp.blockedSyscalls :: filters))) () k := by
  apply came_andThen (P := Reached start (CutOff []) true false (fun _ => True) filters)
  · apply came_andThen (unshare_came early rfl rfl rfl reached)
    exact fun k reached => privateTree_came early reached
  · intro k reached
    apply came_andThen (mount_came early rfl reached)
    intro k reached
    apply came_andThen (dropPrivileges_came early reached)
    intro k reached
    apply came_andThen (setNoNewPrivs_came early still_cutOff reached)
    exact fun k reached => setSeccomp_came early reached

def lastCapFile (lastCap : Nat) : List Char := Nat.toDigits 10 lastCap ++ ['\n']

theorem prepare_lastCapFile {lastCap : Nat} (fits : lastCap < 2 ^ 32) :
    (prepare (some (lastCapFile lastCap))).capLastCap = lastCap := by
  have numeral : Text.Numeral (Nat.toDigits 10 lastCap) lastCap :=
    ⟨[],Nat.toDigits 10 lastCap,.inl rfl,Text.digits_toDigits lastCap,rfl⟩
  have trimmed : Text.trim (lastCapFile lastCap) = Nat.toDigits 10 lastCap :=
    Text.trim_padded (List.forall_mem_nil _) numeral.solid.word (by simp [Text.Blank,Text.isWhitespace])
  simp only [prepare,Option.bind_some,trimmed,Text.parseUnsigned_toDigits fits,Option.getD_some]

theorem jailed_of_reached {sandbox : Apps.Sandbox} (reached : Reached start (CutOff [tmpfs]) true true
      (Left start sandbox.capLastCap []) (Seccomp.buildProgram Seccomp.blockedSyscalls :: start.filters) k) :
    Jailed sandbox start k where
  alone := reached.own
  uts := reached.uts
  ipc := reached.ipc
  noNewPrivs := reached.noNewPrivs.trans (Bool.or_true _)
  bounding c := (reached.bounding c).trans <| and_congr_right fun _ => forall_congr' fun _ =>
    or_iff_left List.not_mem_nil
  filters := reached.filters
  identity := reached.identity

theorem runApp_confined {sandbox : Apps.Sandbox}
    (reached : Reached start (· = none) false false (fun _ => True) start.filters k) :
    (runApp sandbox).wp machine.surroundings (confined sandbox start) Unleaked () k := by
  apply came_then (applySandbox_came early_confined reached)
  · intro k reached
    apply wp_call (settled_reached still_cutOff) reached
    · exact fun k before => ⟨before.leaked,fun _ => jailed_of_reached before⟩
    · intro k k' before granted
      obtain rfl := Option.some.inj granted
      exact before.leaked
    · exact fun _ k before _ => before.leaked
  · exact fun _ _ unseen => unseen

theorem reached_forked (caps : Caps) (noNewPrivs : Bool) (filters : List (List Bpf.Instruction)) (identity : Identity) :
    Reached (forked caps noNewPrivs filters identity) (· = none) false false (fun _ => True) filters
      (forked caps noNewPrivs filters identity) where
  own := rfl
  uts := rfl
  ipc := rfl
  noNewPrivs := (Bool.or_false _).symm
  bounding _ := (and_iff_left trivial).symm
  lastCap := rfl
  effective := rfl
  filters := rfl
  identity := rfl
  leaked := rfl

/-- The child of an app mounts nothing the host would see, and its program is run behind the whole
sandbox or not at all; if the kernel's last capability could be read, not one is left to come back. -/
theorem app_jailed (capLastCap : Option (List Char)) (caps : Caps) (noNewPrivs : Bool)
    (filters : List (List Bpf.Instruction)) (identity : Identity) {t : State Unit Syscall (fun _ => Result) Child Result}
    (run : Reaches machine.surroundings ⟨runApp (prepare capLastCap),(),forked caps noNewPrivs filters identity⟩ t) :
    t.env.leaked = [] ∧ (t.program.next? = some .exec →
      Jailed (prepare capLastCap) (forked caps noNewPrivs filters identity) t.env ∧
      (capSetpcap ∈ caps.effective → capLastCap = some (lastCapFile caps.lastCap) → caps.lastCap < 2 ^ 32 →
        t.env.caps.bounding = ∅)) := by
  have here := wp_everywhere run (runApp_confined (reached_forked caps noNewPrivs filters identity))
    fun _ _ _ unseen => ⟨unseen,nofun⟩
  refine ⟨here.1,fun executed => ⟨here.2 executed,fun power read fits => ?_⟩⟩
  rw [Finset.eq_empty_iff_forall_notMem]
  intro c present
  obtain ⟨before,above⟩ := ((here.2 executed).bounding c).mp present
  have last : caps.lastCap < c := by
    have above := above power
    rwa [read,prepare_lastCapFile fits] at above
  exact absurd (caps.known c before) (Nat.not_le_of_lt last)

end App

section Service
variable {A : Option Syscall → Unit → Child → Prop} {P : Child → Prop} {start k : Child} {path : String} {m : Mount}

def Guarded (path : String) (k : Child) : Prop :=
  k.lies path = some (readOnly path) ∨ .mount (bindOver path) ∈ k.refused ∨ .mount (readOnly path) ∈ k.refused

def Closed (k : Child) : Prop := k.own = none ∨ CutOff [] k.own

theorem hostMounts_closed (closed : Closed k) (mounts : List Mount) : k.hostMounts mounts = k := by
  obtain ⟨own,_⟩ := k
  obtain rfl | ⟨_,rfl⟩ := closed
  · rfl
  · rfl

theorem settled_closed (closed : ∀ k, P k → Closed k) : Settled P := by
  intro k mounts before
  rwa [hostMounts_closed (closed k before)]

theorem cutOff_any {made : List Mount} {own : Option Namespace} (cut : CutOff made own) : CutOff [] own := by
  obtain ⟨mounts,rfl⟩ := cut
  exact ⟨made ++ mounts,rfl⟩

theorem lies_mount (cut : CutOff [] k.own) (inside : Child.cuts m = false) :
    (k.mount m).lies path = if m.target = path then some m else k.lies path := by
  obtain ⟨mounts,own⟩ := cut
  have after : (k.mount m).own = some ⟨m :: mounts,true⟩ := by
    rw [Child.mount,own]
    simp only [inside]
    rfl
  rw [Child.lies,after,Child.lies,own,Option.bind_some,Option.bind_some,List.find?_cons]
  by_cases here : m.target = path
  · simp [here]
  · have other : (m.target == path) = false := beq_false_of_ne here
    rw [other,if_neg here]
    rfl

/-- Behind the wall, with every path but those in `rest` seen to. -/
structure Walled (start : Child) (tmp : Bool) (rest : List String) (k : Child) : Prop where
  reached : Reached start (CutOff []) false false (fun _ => True) start.filters k
  tmp : tmp = true → k.lies "/tmp" = some tmpfs
  guarded : ∀ path ∈ protectedPaths, path ∉ rest → Guarded path k

variable {tmp : Bool} {rest : List String}

theorem Walled.closed (walled : Walled start tmp rest k) : Closed k := .inr walled.reached.own

theorem Walled.refuse (walled : Walled start tmp rest k) (op : Syscall) :
    Walled start tmp rest { k with refused := op :: k.refused } where
  reached := { walled.reached with }
  tmp := walled.tmp
  guarded path protected_path seen := by
    obtain lies | bind | remount := walled.guarded path protected_path seen
    · exact .inl lies
    · exact .inr (.inl (List.mem_cons_of_mem op bind))
    · exact .inr (.inr (List.mem_cons_of_mem op remount))

theorem Walled.mount (walled : Walled start tmp rest k) (inside : Child.cuts m = false)
    (unseen : m.target ∈ rest) (elsewhere : m.target ≠ "/tmp") : Walled start tmp rest (k.mount m) := by
  have own := walled.reached.own
  obtain ⟨mounts,mounted⟩ := mount_cutOff own inside
  have lies : ∀ path, path ≠ m.target → (k.mount m).lies path = k.lies path := by
    intro path other
    rw [lies_mount own inside,if_neg fun same => other same.symm]
  refine ⟨?_,fun wanted => (lies "/tmp" fun same => elsewhere same.symm).trans (walled.tmp wanted),?_⟩
  · rw [mounted]
    exact { walled.reached with own := ⟨_,rfl⟩ }
  · intro path protected_path seen
    have other : path ≠ m.target := fun same => seen (same ▸ unseen)
    have refused : (k.mount m).refused = k.refused := by rw [mounted]
    rw [Guarded,lies path other,refused]
    exact walled.guarded path protected_path seen

theorem Walled.seen (walled : Walled start tmp (path :: rest) k) (guarded : Guarded path k) :
    Walled start tmp rest k where
  reached := walled.reached
  tmp := walled.tmp
  guarded other protected_path unseen := by
    by_cases same : other = path
    · exact same ▸ guarded
    · exact walled.guarded other protected_path fun member => (List.mem_cons.mp member).elim same unseen

theorem protectPath_walled (early : Early A start) (elsewhere : path ≠ "/tmp") (walled : Walled start tmp (path :: rest) k) :
    (protectPath path).wp machine.surroundings A (fun _ _ => Walled start tmp rest) () k := by
  have inside : Child.cuts (bindOver path) = false ∧ Child.cuts (readOnly path) = false := by
    simp [Child.cuts,bindOver,readOnly]
  have on_way : ∀ m k, Walled start tmp (path :: rest) k → A (some (.mount m)) () k :=
    fun m k before => early _ _ _ _ _ _ k (by simp) before.reached
  let bound : Result → Unit → Child → Prop := fun r _ k =>
    Walled start tmp (path :: rest) k ∧ (r ≠ .ok () → Guarded path k)
  apply wp_then (R := bound)
  · apply wp_call (settled_closed fun k => Walled.closed) walled (on_way _)
    · intro k k' before granted
      obtain rfl := granted_privileged granted
      exact ⟨before.mount inside.1 List.mem_cons_self elsewhere,fun failed => absurd rfl failed⟩
    · exact fun _ k before _ => ⟨before.refuse _,fun _ => .inr (.inl List.mem_cons_self)⟩
  · rintro r _ k ⟨before,failed⟩
    cases r with
    | error _ => exact before.seen (failed (by simp))
    | ok _ =>
      apply wp_then (R := fun _ _ => Walled start tmp rest)
      · apply wp_call (settled_closed fun k => Walled.closed) before (on_way _)
        · intro k k' before granted
          obtain rfl := granted_privileged granted
          have after := before.mount inside.2 List.mem_cons_self elsewhere
          refine after.seen (.inl ?_)
          rw [lies_mount before.reached.own inside.2]
          exact if_pos rfl
        · exact fun _ k before _ => (before.refuse _).seen (.inr (.inr List.mem_cons_self))
      · exact fun _ _ _ after => after

theorem protectSystem_walled (early : Early A start) (walled : Walled start tmp protectedPaths k) :
    protectSystem.wp machine.surroundings A (Came (Walled start tmp [])) () k := by
  apply wp_then (R := fun _ _ => Walled start tmp [])
  · let I : List String → Unit → Child → Prop := fun rest _ k =>
      "/tmp" ∉ rest ∧ Walled start tmp rest k
    apply wp_mono (wp_each I ⟨by decide,walled⟩ ?_)
    · exact fun _ _ _ after => after.2
    · rintro path rest _ k ⟨elsewhere,before⟩
      obtain ⟨here,later⟩ := List.ne_and_not_mem_of_not_mem_cons elsewhere
      exact wp_mono (protectPath_walled early here.symm before) fun _ _ _ after => ⟨later,after⟩
  · exact fun _ _ k after => ⟨fun _ => after,after.reached.leaked⟩

structure Prepared (sandbox : ServiceSandbox) (uid gid : Option Nat) (identity : Option Identity) (start k : Child) :
    Prop where
  apart : (sandbox.privateTmp || sandbox.protectSystem) = true → ∃ mounts, k.own = some ⟨mounts,true⟩
  host : (sandbox.privateTmp || sandbox.protectSystem) = false → k.own = none
  tmp : sandbox.privateTmp = true → k.lies "/tmp" = some tmpfs
  system : sandbox.protectSystem = true → ∀ path ∈ protectedPaths, Guarded path k
  noNewPrivs : k.noNewPrivs = (start.noNewPrivs || sandbox.noNewPrivileges)
  bounding : k.caps.bounding = start.caps.bounding
  filters : k.filters = start.filters
  user : k.identity.uid = uid.getD start.identity.uid
  group : k.identity.gid = gid.getD start.identity.gid
  groups : .setgroups ∈ k.refused ∨ identity = some k.identity
  powers : ∀ u, uid = some u → u ≠ 0 → k.caps.effective = ∅
  leaked : k.leaked = []

def mounting : Option Syscall → Bool
  | some (.unshare _) | some (.mount _) => true
  | _ => false

/-- Namespaces and mounts are made with all the powers of mitos-services, the host sees none of them,
and the program is not run before all is done. -/
def asked (sandbox : ServiceSandbox) (uid gid : Option Nat) (identity : Option Identity) (start : Child)
    (op : Option Syscall) (_ : Unit) (k : Child) : Prop :=
  k.leaked = [] ∧
  (mounting op = true → k.caps.effective = start.caps.effective ∧ k.identity = start.identity) ∧
  (op = some .exec → Prepared sandbox uid gid identity start k)

variable {sandbox : ServiceSandbox} {uid gid : Option Nat} {identity : Option Identity}

theorem early_asked : Early (asked sandbox uid gid identity start) start :=
  fun _ _ _ _ _ _ _ early reached =>
    ⟨reached.leaked,fun _ => ⟨reached.effective,reached.identity⟩,fun last => absurd last early⟩

theorem Prepared.closed (prepared : Prepared sandbox uid gid identity start k) : Closed k := by
  cases needs : sandbox.privateTmp || sandbox.protectSystem with
  | false => exact .inl (prepared.host needs)
  | true => exact .inr (prepared.apart needs)

/-- The calls that only have to do with who the child is. -/
theorem asked_prepared {uid' gid' : Option Nat} {identity' : Option Identity} {op : Syscall}
    (other : mounting (some op) = false) (early : op ≠ .exec) (prepared : Prepared sandbox uid' gid' identity' start k) :
    asked sandbox uid gid identity start (some op) () k :=
  ⟨prepared.leaked,fun mounts => absurd mounts (by simp [other]),fun last => absurd (Option.some.inj last) early⟩

section Drop
variable {uid' gid' : Option Nat} {identity' : Option Identity} {g u : Nat}

theorem setgid_came (before : Prepared sandbox none none identity start k) :
    (call (.setgid g)).wp machine.surroundings (asked sandbox uid' gid' identity' start)
      (Came (Prepared sandbox none (some g) (identity.bind fun i => i.setgid g) start)) () k := by
  apply wp_call (settled_closed fun k => Prepared.closed) before
  · exact fun k before => asked_prepared rfl (by simp) before
  · intro k k' before granted
    change (if _ then _ else none) = some k' at granted
    split at granted
    · obtain ⟨i,taken,rfl⟩ := Option.map_eq_some_iff.mp granted
      refine ⟨fun _ => ?_,before.leaked⟩
      have became : i = { k.identity with gid := g } := by
        rw [Identity.setgid] at taken
        split at taken
        · contradiction
        · exact (Option.some.inj taken).symm
      refine { before with user := ?_, group := ?_, groups := ?_ }
      · rw [became]
        exact before.user
      · rw [became]
        rfl
      · exact before.groups.imp_right fun same => by rw [same]; exact taken
    · contradiction
  · exact fun failure k before _ => failed_came before.leaked

theorem Prepared.refuse_setgroups (before : Prepared sandbox none gid identity start k) (refused : Syscall) :
    Prepared sandbox none gid identity start { k with refused := refused :: k.refused } :=
  { before with
    system := fun wanted path protected_path => (before.system wanted path protected_path).imp_right
      (.imp (List.mem_cons_of_mem _) (List.mem_cons_of_mem _))
    groups := before.groups.imp_left (List.mem_cons_of_mem _) }

theorem setgroups_came (before : Prepared sandbox none gid identity start k) :
    (call .setgroups).wp machine.surroundings (asked sandbox uid' gid' identity' start)
      (fun _ _ => Prepared sandbox none gid (identity.map Identity.setgroups) start) () k := by
  apply wp_call (settled_closed fun k => Prepared.closed) before
  · exact fun k before => asked_prepared rfl (by simp) before
  · intro k k' before granted
    obtain rfl := granted_privileged granted
    exact { before with groups := before.groups.imp_right fun same => by rw [same]; rfl }
  · intro _ k before _
    exact { before.refuse_setgroups .setgroups with groups := .inl List.mem_cons_self }

theorem setuid_came (before : Prepared sandbox none gid identity start k) :
    (call (.setuid u)).wp machine.surroundings (asked sandbox uid' gid' identity' start)
      (Came (Prepared sandbox (some u) gid (identity.bind fun i => i.setuid u) start)) () k := by
  apply wp_call (settled_closed fun k => Prepared.closed) before
  · exact fun k before => asked_prepared rfl (by simp) before
  · intro k k' before granted
    change (if _ then _ else none) = some k' at granted
    split at granted
    case isFalse => contradiction
    case isTrue able =>
      obtain rfl := Option.some.inj granted
      have bounding : (k.setuid u).caps.bounding = k.caps.bounding := by
        change (if u = 0 then k.caps else k.caps.dropEffective).bounding = _
        split <;> rfl
      refine ⟨fun _ => { before with bounding := ?_, user := rfl, groups := ?_, powers := ?_ },before.leaked⟩
      · rw [bounding]
        exact before.bounding
      · refine before.groups.imp_right fun same => ?_
        rw [same]
        exact if_neg able.2
      · intro other named notRoot
        obtain rfl := Option.some.inj named
        change (if _ = 0 then k.caps else k.caps.dropEffective).effective = ∅
        rw [if_neg notRoot]
        rfl
  · exact fun failure k before _ => failed_came before.leaked

end Drop

section Sandbox
variable {apart tmp system : Bool}

def Own (apart : Bool) (own : Option Namespace) : Prop := if apart then CutOff [] own else own = none

structure Fenced (start : Child) (apart tmp system : Bool) (k : Child) : Prop where
  reached : Reached start (Own apart) false false (fun _ => True) start.filters k
  tmp : tmp = true → k.lies "/tmp" = some tmpfs
  system : system = true → ∀ path ∈ protectedPaths, Guarded path k

theorem Fenced.closed (fenced : Fenced start apart tmp system k) : Closed k := by
  have own := fenced.reached.own
  cases apart with
  | false => exact .inl own
  | true => exact .inr own

theorem Fenced.cutOff (fenced : Fenced start true tmp system k) :
    Reached start (CutOff []) false false (fun _ => True) start.filters k :=
  { fenced.reached with }

theorem fenced_namespace (early : Early A start)
    (reached : Reached start (· = none) false false (fun _ => True) start.filters k) :
    (whenTrue apart ((call (.unshare [.newns])).andThen (call (.mount privateTree)))).wp machine.surroundings A
      (Came (Fenced start apart false false)) () k := by
  apply wp_whenTrue
  · rintro rfl
    exact ⟨fun _ => ⟨{ reached with },nofun,nofun⟩,reached.leaked⟩
  · rintro rfl
    apply came_andThen (unshare_came early rfl rfl rfl reached)
    intro k reached
    apply wp_mono (privateTree_came early reached)
    exact fun r _ k came => ⟨fun done => ⟨{ came.1 done with },nofun,nofun⟩,came.2⟩

theorem fenced_tmp (early : Early A start) (needed : tmp = true → apart = true)
    (fenced : Fenced start apart false false k) :
    (whenTrue tmp privateTmp).wp machine.surroundings A (Came (Fenced start apart tmp false)) () k := by
  apply wp_whenTrue
  · rintro rfl
    exact ⟨fun _ => fenced,fenced.reached.leaked⟩
  · rintro rfl
    obtain rfl := needed rfl
    apply wp_mono (mount_came (m := tmpfs) early rfl fenced.cutOff)
    intro r _ k came
    refine ⟨fun done => ?_,came.2⟩
    have mounted := came.1 done
    refine ⟨{ mounted with own := cutOff_any mounted.own },fun _ => ?_,nofun⟩
    obtain ⟨mounts,own⟩ := mounted.own
    rw [Child.lies,own]
    rfl

theorem fenced_system (early : Early A start) (needed : system = true → apart = true)
    (fenced : Fenced start apart tmp false k) :
    (whenTrue system protectSystem).wp machine.surroundings A (Came (Fenced start apart tmp system)) () k := by
  apply wp_whenTrue
  · rintro rfl
    exact ⟨fun _ => fenced,fenced.reached.leaked⟩
  · rintro rfl
    obtain rfl := needed rfl
    have walled : Walled start tmp protectedPaths k :=
      ⟨fenced.cutOff,fenced.tmp,fun path protected_path unseen => absurd protected_path unseen⟩
    apply wp_mono (protectSystem_walled early walled)
    intro r _ k came
    refine ⟨fun done => ?_,came.2⟩
    have after := came.1 done
    exact ⟨{ after.reached with },after.tmp,fun _ path protected_path => after.guarded path protected_path List.not_mem_nil⟩

theorem prepared_of_fenced {sandbox : ServiceSandbox} {noNewPrivs : Bool}
    (fenced : Fenced start (sandbox.privateTmp || sandbox.protectSystem) sandbox.privateTmp sandbox.protectSystem k)
    (privileges : noNewPrivs = (start.noNewPrivs || sandbox.noNewPrivileges)) :
    Prepared sandbox none none (some start.identity) start { k with noNewPrivs := noNewPrivs } where
  apart needs := by
    have own := fenced.reached.own
    rw [needs] at own
    exact own
  host bare := by
    have own := fenced.reached.own
    rw [bare] at own
    exact own
  tmp := fenced.tmp
  system := fenced.system
  noNewPrivs := privileges
  bounding := Finset.ext fun c => (fenced.reached.bounding c).trans (and_iff_left trivial)
  filters := fenced.reached.filters
  user := congrArg Identity.uid fenced.reached.identity
  group := congrArg Identity.gid fenced.reached.identity
  groups := .inr (congrArg some fenced.reached.identity.symm)
  powers := nofun
  leaked := fenced.reached.leaked

theorem applyServiceSandbox_came (early : Early A start)
    (reached : Reached start (· = none) false false (fun _ => True) start.filters k) :
    (applyServiceSandbox sandbox).wp machine.surroundings A
      (Came (Prepared sandbox none none (some start.identity) start)) () k := by
  apply came_andThen (fenced_namespace early reached)
  intro k fenced
  apply came_andThen (fenced_tmp early (fun tmp => by rw [tmp,Bool.true_or]) fenced)
  intro k fenced
  apply came_andThen (fenced_system early (fun system => by rw [system,Bool.or_true]) fenced)
  intro k fenced
  have before := fenced.reached.noNewPrivs
  apply wp_whenTrue
  · intro unasked
    refine ⟨fun _ => ?_,fenced.reached.leaked⟩
    exact prepared_of_fenced fenced (before.trans (by rw [unasked]))
  · intro asked
    apply wp_call (settled_closed fun k => Fenced.closed) fenced
    · exact fun k before => early _ _ _ _ _ _ k (by simp) before.reached
    · intro k k' before granted
      obtain rfl := Option.some.inj granted
      exact ⟨fun _ => prepared_of_fenced before (by rw [asked,Bool.or_true]),before.reached.leaked⟩
    · exact fun failure k before _ => failed_came before.reached.leaked

end Sandbox

section Identity
variable {uid' gid' : Option Nat} {identity' : Option Identity}

/-- A step that is only taken for an id there is, as part of the drop it stands for. -/
theorem whenSome_came {id : Option Nat} {step : Nat → Code Result} {drop : Identity → Nat → Option Identity}
    {N : Option Nat → Option Identity → Child → Prop} (before : N none identity k) (unseen : k.leaked = [])
    (taken : ∀ n, (step n).wp machine.surroundings A (Came (N (some n) (identity.bind fun i => drop i n))) () k) :
    (whenSome id step).wp machine.surroundings A
      (Came (N id (identity.bind fun i => id.elim (some i) (drop i)))) () k := by
  cases id with
  | none =>
    have same : (identity.bind fun i => (none : Option Nat).elim (some i) (drop i)) = identity :=
      Option.bind_fun_some identity
    rw [same]
    exact ⟨fun _ => before,unseen⟩
  | some n => exact taken n

theorem takeGroup_came {g : Nat} (before : Prepared sandbox none none identity start k) :
    (takeGroup g).wp machine.surroundings (asked sandbox uid' gid' identity' start)
      (Came (Prepared sandbox none (some g) (identity.bind fun i => i.setgroups.setgid g) start)) () k := by
  apply wp_then (setgroups_came before)
  intro _ _ k cleared
  have whole : (identity.map Identity.setgroups).bind (fun i => i.setgid g) = identity.bind fun i => i.setgroups.setgid g :=
    Option.bind_map
  rw [← whole]
  exact setgid_came cleared

theorem clearGroups_came (before : Prepared sandbox none gid identity start k) :
    clearGroups.wp machine.surroundings (asked sandbox uid' gid' identity' start)
      (Came (Prepared sandbox none gid (identity.map Identity.setgroups) start)) () k := by
  apply wp_then (setgroups_came before)
  exact fun _ _ k cleared => ⟨fun _ => cleared,cleared.leaked⟩

theorem cleared_setuid_came {u : Nat} (before : Prepared sandbox none gid identity start k) :
    (clearGroups.andThen (call (.setuid u))).wp machine.surroundings (asked sandbox uid' gid' identity' start)
      (Came (Prepared sandbox (some u) gid (identity.bind fun i => i.setgroups.setuid u) start)) () k := by
  apply came_andThen (clearGroups_came before)
  intro k cleared
  have whole : (identity.map Identity.setgroups).bind (fun i => i.setuid u) = identity.bind fun i => i.setgroups.setuid u :=
    Option.bind_map
  rw [← whole]
  exact setuid_came cleared

theorem exec_asked (before : Prepared sandbox uid gid identity start k) :
    (call .exec).wp machine.surroundings (asked sandbox uid gid identity start) Unleaked () k := by
  apply wp_call (settled_closed fun k => Prepared.closed) before
  · exact fun k before => ⟨before.leaked,nofun,fun _ => before⟩
  · intro k k' before granted
    obtain rfl := Option.some.inj granted
    exact before.leaked
  · exact fun _ k before _ => before.leaked

variable {d : ServiceDef} {sock : Option String}

theorem runService_asked (reached : Reached start (· = none) false false (fun _ => True) start.filters start) :
    (runService (serviceCommand d uid gid sock)).wp machine.surroundings
      (asked d.sandbox uid gid ((serviceCommand d uid gid sock).identity (fun _ => true) start.identity) start)
      Unleaked () start := by
  have unseen : ∀ failure k, k.leaked = [] → Unleaked (.error failure) () k := fun _ _ unseen => unseen
  cases empty : d.sandbox.isEmpty with
  | true =>
    have bare : d.sandbox = ⟨false,false,false⟩ := (isEmpty_iff _).mp empty
    have before : Prepared d.sandbox none none (some start.identity) start start := by
      have fenced : Fenced start false false false start := ⟨{ reached with },nofun,nofun⟩
      rw [bare]
      exact prepared_of_fenced fenced (Bool.or_false _).symm
    rw [identity_bare empty,serviceCommand_bare empty]
    apply came_then (whenSome_came (N := fun gid i => Prepared d.sandbox none gid i start) before before.leaked
      fun g => setgid_came before) _ unseen
    intro k grouped
    apply came_then (whenSome_came (N := fun uid i => Prepared d.sandbox uid gid i start) grouped grouped.leaked
      fun u => cleared_setuid_came grouped) _ unseen
    exact fun k dropped => exec_asked dropped
  | false =>
    have through : d.sandbox.steps.all (fun _ => true) = true := List.all_eq_true.mpr fun _ _ => rfl
    rw [identity_sandboxed empty through,serviceCommand_sandboxed empty]
    apply came_then (P := Prepared d.sandbox uid gid _ start) _ (fun k dropped => exec_asked dropped) unseen
    apply came_andThen (applyServiceSandbox_came early_asked reached)
    intro k before
    apply came_andThen (whenSome_came (N := fun gid i => Prepared d.sandbox none gid i start) before before.leaked
      fun g => takeGroup_came before)
    intro k grouped
    exact whenSome_came (N := fun uid i => Prepared d.sandbox uid gid i start) grouped grouped.leaked
      fun u => setuid_came grouped

/-- The child of a service makes its namespace and its mounts with all the powers of mitos-services, shows
none of them to the host, and runs its program as who it is to be and with all that was asked for in
force, or not at all. -/
theorem service_prepared (d : ServiceDef) (uid gid : Option Nat) (sock : Option String) (caps : Caps)
    (noNewPrivs : Bool) (filters : List (List Bpf.Instruction)) (identity : Identity)
    {t : State Unit Syscall (fun _ => Result) Child Result}
    (run : Reaches machine.surroundings
      ⟨runService (serviceCommand d uid gid sock),(),forked caps noNewPrivs filters identity⟩ t) :
    t.env.leaked = [] ∧
    (mounting t.program.next? = true → t.env.caps.effective = caps.effective ∧ t.env.identity = identity) ∧
    (t.program.next? = some .exec →
      Prepared d.sandbox uid gid ((serviceCommand d uid gid sock).identity (fun _ => true) identity)
        (forked caps noNewPrivs filters identity) t.env) :=
  wp_everywhere run (runService_asked (reached_forked caps noNewPrivs filters identity))
    fun _ _ _ unseen => ⟨unseen,nofun,nofun⟩

end Identity
end Service

section Runs

def obliging (op : Syscall) (_ : Unit) (k : Child) : Result := if (k.granted op).isSome then .ok () else .error 1

def stick : Mount := ⟨some "/dev/sda1","/mnt",some "vfat",[],none⟩

def ofRoot : Caps where
  lastCap := 21
  effective := {6,7,8,21}
  bounding := {0,6,7,8,21}
  known := by decide

def busy : List (Cue Syscall (List Mount)) :=
  [.upTo (· == .mount privateTree) 100,.stir [stick],.upTo (· == .exec) 100]

def appRun : Option (State Unit Syscall (fun _ => Result) Child Result) :=
  drive machine obliging busy ⟨runApp (prepare (some (lastCapFile 21))),(),forked ofRoot false [] ⟨0,0,[0]⟩⟩

theorem app_jailed_busy : ∃ t, appRun = some t ∧ t.env.leaked = [] ∧
    Jailed (prepare (some (lastCapFile 21))) (forked ofRoot false [] ⟨0,0,[0]⟩) t.env ∧ t.env.caps.bounding = ∅ := by
  have there : appRun.any (fun t => t.program.next? == some .exec) = true := by decide +kernel
  obtain ⟨t,driven,executes⟩ := (Option.any_eq_true _ _).mp there
  obtain ⟨unseen,jailed⟩ := app_jailed (some (lastCapFile 21)) ofRoot false [] ⟨0,0,[0]⟩ (drive_reaches driven)
  obtain ⟨jailed,empty⟩ := jailed (beq_iff_eq.mp executes)
  exact ⟨t,driven,unseen,jailed,empty (by decide) rfl (by decide)⟩

def web : ServiceDef :=
  { name := "web", path := "/bin/web", user := some "web", group := some "web", privateTmp := true, protectSystem := true }

def serviceRun : Option (State Unit Syscall (fun _ => Result) Child Result) :=
  drive machine obliging busy
    ⟨runService (serviceCommand web (some 33) (some 33) none),(),forked ofRoot false [] ⟨0,0,[0]⟩⟩

theorem service_prepared_busy : ∃ t, serviceRun = some t ∧ t.env.leaked = [] ∧
    Prepared web.sandbox (some 33) (some 33) (some ⟨33,33,[]⟩) (forked ofRoot false [] ⟨0,0,[0]⟩) t.env := by
  have there : serviceRun.any (fun t => t.program.next? == some .exec) = true := by decide +kernel
  obtain ⟨t,driven,executes⟩ := (Option.any_eq_true _ _).mp there
  obtain ⟨unseen,_,prepared⟩ := service_prepared web (some 33) (some 33) none ofRoot false [] ⟨0,0,[0]⟩
    (drive_reaches driven)
  exact ⟨t,driven,unseen,prepared (beq_iff_eq.mp executes)⟩

end Runs
end MitosServices.Isolation
