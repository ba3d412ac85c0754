import MitosServices.Apps
import MitosServices.Interaction.Machine

/-! The identity of an app: what the policy daemon is asked about and what the registry records.
The file is hashed first and executed by its path later, so what runs is whatever was put there
last. -/
namespace MitosServices.Identity
open Interaction Interaction.Program
open Apps (hex launch hashFile authorize judge start startAuthorized spawnApp nextId appId
  appCommand appsCgroupRoot)

abbrev Files := String → Option ByteArray

/-- Another process replaces or rewrites a file. -/
inductive Event
  | replace (path : String) (contents : Option ByteArray)

namespace Files

def stir : Event → Apps.Op → Unit → Files → Option Files
  | .replace path contents, _, _, files => some (Function.update files path contents)

local instance comparesBytes : DecidableEq ByteArray := ByteArray.instDecidableEq

def answer : (op : Apps.Op) → Unit → Files → op.Ans → Option Files
  | .read path, _, files, .ok bytes => if files path = some bytes then some files else none
  | .spawn cmd, _, files, .ok _ => if (files cmd.program).isSome then some files else none
  | _, _, files, _ => some files

def machine : Machine Unit Apps.Op Apps.Op.Ans Files Event := ⟨stir,answer⟩

end Files

structure Record where
  read : Option ByteArray := none
  /-- What others put at the path last, after it was read and before it was executed. -/
  put : Option (Option ByteArray) := none
  asked : List String := []
  executed : Option ByteArray := none
  registered : List AppInfo := []

def observer (path : String) : Monitor Unit Apps.Op Apps.Op.Ans Files Event Record where
  event
    | .replace changed contents, _, _, _, r =>
      if changed = path ∧ r.read.isSome ∧ r.executed.isNone then { r with put := some contents } else r
  reply
    | .read _, _, _, .ok bytes, r => { r with read := some bytes }
    | .writeAll text, _, _, _, r => { r with asked := text :: r.asked }
    | .spawn cmd, _, files, .ok _, r => { r with executed := files cmd.program }
    | .register info, _, _, _, r => { r with registered := info :: r.registered }
    | _, _, _, _, r => r

def around (path : String) : Surroundings Unit Apps.Op Apps.Op.Ans (Files × Record) :=
  (Files.machine.watched (observer path)).surroundings

def check (sha256 : String) : String := s!"CHECK {sha256} app_launch\n"

variable (digest : ByteArray → ByteArray)

/-- Everything that was asked about and everything that was recorded is the hash of what was executed. -/
def Identified (r : Record) : Prop :=
  ∀ bytes, r.executed = some bytes → (∀ text ∈ r.asked, text = check (hex (digest bytes))) ∧
    ∀ info ∈ r.registered, info.sha256 = hex (digest bytes)

/-- If the app was executed, then what others put at its path last had the hash of what was read. -/
def Undisturbed (r : Record) : Prop :=
  ∀ bytes contents, r.executed.isSome → r.read = some bytes → r.put = some (some contents) →
    hex (digest contents) = hex (digest bytes)

section Phases
variable {path sha256 : String}

/-- The file has been hashed and not yet executed; `denoted` is what its path denotes by now. -/
structure Hashed (sha256 : String) (denoted : Option ByteArray) (r : Record) : Prop where
  read : ∃ bytes, r.read = some bytes ∧ sha256 = hex (digest bytes) ∧ denoted = r.put.getD (some bytes)
  unexecuted : r.executed = none
  asked : ∀ text ∈ r.asked, text = check sha256
  registered : r.registered = []

structure Executed (sha256 : String) (r : Record) : Prop where
  read : ∃ bytes, r.read = some bytes ∧ sha256 = hex (digest bytes) ∧ r.executed = r.put.getD (some bytes)
  executed : r.executed.isSome
  asked : ∀ text ∈ r.asked, text = check sha256
  registered : ∀ info ∈ r.registered, info.sha256 = sha256

variable {digest} {op : Apps.Op} {e e' : Files × Record}

theorem moves_cases (moved : (around path).moves op () e e') :
    (e'.1 path = e.1 path ∧ e'.2 = e.2) ∨ ∃ contents, e'.1 path = contents ∧
      e'.2 = if e.2.read.isSome ∧ e.2.executed.isNone then { e.2 with put := some contents } else e.2 := by
  obtain ⟨⟨changed,contents⟩,watched⟩ := moved
  obtain ⟨stirred,noted⟩ := Machine.watched_stir_iff.mp watched
  have files : e'.1 = Function.update e.1 changed contents := (Option.some.inj stirred).symm
  rw [files,noted]
  by_cases here : changed = path
  · right
    exact ⟨contents,by rw [here,Function.update_self],by simp [observer,here]⟩
  · left
    exact ⟨Function.update_of_ne (Ne.symm here) _ _,if_neg fun changes => here changes.1⟩

theorem blank_moves (moved : (around path).moves op () e e') (blank : e.2 = {}) : e'.2 = {} := by
  rcases moves_cases moved with ⟨-,same⟩ | ⟨contents,-,noted⟩
  · exact same.trans blank
  · rw [noted,blank]
    rfl

theorem hashed_moves (moved : (around path).moves op () e e') (held : Hashed digest sha256 (e.1 path) e.2) :
    Hashed digest sha256 (e'.1 path) e'.2 := by
  rcases moves_cases moved with ⟨files,same⟩ | ⟨contents,files,noted⟩
  · rw [files,same]
    exact held
  · obtain ⟨bytes,read,hash,-⟩ := held.read
    rw [files,noted,if_pos ⟨by rw [read]; rfl,by rw [held.unexecuted]; rfl⟩]
    constructor
    · exact ⟨bytes,read,hash,rfl⟩
    · exact held.unexecuted
    · exact held.asked
    · exact held.registered

theorem executed_moves (moved : (around path).moves op () e e') (held : Executed digest sha256 e.2) :
    Executed digest sha256 e'.2 := by
  rcases moves_cases moved with ⟨-,same⟩ | ⟨contents,-,noted⟩
  · exact same ▸ held
  · rw [noted,if_neg]
    · exact held
    · intro ⟨_,unexecuted⟩
      have executed := held.executed
      rw [Option.isNone_iff_eq_none.mp unexecuted] at executed
      contradiction

def asksOnly (sha256 : String) : Apps.Op → Prop
  | .read _ | .spawn _ | .register _ => False
  | .writeAll text => text = check sha256
  | _ => True

theorem hashed_replies {r : op.Ans} (allowed : asksOnly sha256 op)
    (replied : (around path).replies op () e r e') (held : Hashed digest sha256 (e.1 path) e.2) :
    Hashed digest sha256 (e'.1 path) e'.2 := by
  obtain ⟨answered,noted⟩ := Machine.watched_answer_iff.mp replied
  cases op with
  | read path => exact allowed.elim
  | spawn cmd => exact allowed.elim
  | register info => exact allowed.elim
  | writeAll text =>
    rw [noted,← Option.some.inj answered]
    refine ⟨held.read,held.unexecuted,?_,held.registered⟩
    intro asked member
    rcases List.mem_cons.mp member with rfl | before
    · exact allowed
    · exact held.asked asked before
  | _ =>
    rw [noted,← Option.some.inj answered]
    exact held

theorem hashed_frame {A : Option Apps.Op → Unit → Files × Record → Prop} (any : ∀ op m e, A op m e) :
    (around path).Frame A Eq (asksOnly sha256) fun _ e => Hashed digest sha256 (e.1 path) e.2 where
  updates _ _ _ _ held := held
  moves _ _ _ _ _ moved held := hashed_moves moved held
  replies _ _ _ _ _ allowed replied held := hashed_replies allowed replied held
  holds _ _ _ _ _ := any _ _ _

def records (sha256 : String) : Apps.Op → Prop
  | .read _ | .spawn _ | .writeAll _ => False
  | .register info => info.sha256 = sha256
  | _ => True

theorem executed_replies {r : op.Ans} (allowed : records sha256 op)
    (replied : (around path).replies op () e r e') (held : Executed digest sha256 e.2) :
    Executed digest sha256 e'.2 := by
  obtain ⟨-,noted⟩ := Machine.watched_answer_iff.mp replied
  cases op with
  | read path => exact allowed.elim
  | spawn cmd => exact allowed.elim
  | writeAll text => exact allowed.elim
  | register info =>
    rw [noted]
    refine ⟨held.read,held.executed,held.asked,?_⟩
    intro recorded member
    rcases List.mem_cons.mp member with rfl | before
    · exact allowed
    · exact held.registered recorded before
  | _ =>
    rw [noted]
    exact held

theorem executed_frame {A : Option Apps.Op → Unit → Files × Record → Prop} (any : ∀ op m e, A op m e) :
    (around path).Frame A Eq (records sha256) fun _ e => Executed digest sha256 e.2 where
  updates _ _ _ _ held := held
  moves _ _ _ _ _ moved held := executed_moves moved held
  replies _ _ _ _ _ allowed replied held := executed_replies allowed replied held
  holds _ _ _ _ _ := any _ _ _

end Phases

section Launch
variable {path sha256 : String} {args : List String} {e : Files × Record}

theorem judge_asksOnly (response : List Char) : (judge path response).Uses Eq (asksOnly sha256) := by
  unfold judge
  split
  · exact uses_pure _
  · split
    · exact uses_bind (uses_perform trivial) fun _ => uses_pure _
    · exact uses_bind (uses_perform trivial) fun _ => uses_pure _

theorem authorize_asksOnly : (authorize path sha256).Uses Eq (asksOnly sha256) := by
  apply uses_bind (uses_perform trivial)
  intro connected
  split
  · exact uses_pure _
  apply uses_bind (uses_perform (by rfl))
  intro written
  split
  · exact uses_pure _
  apply uses_bind (uses_perform trivial)
  intro response
  cases response with
  | none => exact uses_pure _
  | some text => exact judge_asksOnly _

theorem nextId_asksOnly : nextId.Uses Eq (asksOnly sha256) :=
  uses_bind (uses_perform trivial) fun _ => uses_bind (uses_perform trivial) fun _ => uses_pure _

def Finished (r : Record) : Prop :=
  r.executed = none ∨ ∃ sha256, Executed digest sha256 r ∧ r.registered ≠ []

variable {digest}

theorem executed_spawned {cmd : Apps.Command} {pid : Int} {e' : Files × Record} (here : cmd.program = path)
    (replied : (around path).replies (.spawn cmd) () e (.ok pid) e')
    (held : Hashed digest sha256 (e.1 path) e.2) : Executed digest sha256 e'.2 := by
  obtain ⟨answered,noted⟩ := Machine.watched_answer_iff.mp replied
  have found := (Option.ite_none_right_eq_some.mp answered).1
  have executed : e'.2 = { e.2 with executed := e.1 path } := by
    rw [noted,← here]
    rfl
  obtain ⟨bytes,read,hash,denotes⟩ := held.read
  rw [executed]
  constructor
  · exact ⟨bytes,read,hash,denotes⟩
  · exact here ▸ found
  · exact held.asked
  · intro info member
    rw [held.registered] at member
    contradiction

theorem wp_spawnApp {id : String} {cmd : Apps.Command} (here : cmd.program = path)
    (held : Hashed digest sha256 (e.1 path) e.2) :
    (spawnApp id path args sha256 cmd).wp (around path) (fun _ _ _ => True)
      (fun _ _ e => Finished digest e.2) () e := by
  refine (wp_bind _ _ _ _ _).mpr ?_
  apply wp_perform (P := fun e => Hashed digest sha256 (e.1 path) e.2) held
    (fun _ _ moved held => hashed_moves moved held) (fun _ _ => trivial)
  intro e child e' held replied
  cases child with
  | error err =>
    obtain ⟨-,noted⟩ := Machine.watched_answer_iff.mp replied
    have same : e'.2 = e.2 := noted
    exact .inl (same ▸ held.unexecuted)
  | ok pid =>
    have ran := executed_spawned here replied held
    have frame : (around path).Frame (fun _ _ _ => True) Eq (records sha256)
        fun _ e => Executed digest sha256 e.2 := executed_frame fun _ _ _ => trivial
    apply wp_bind_frame frame (uses_perform (by trivial)) ran
    intro _ _ e ran
    apply wp_bind_frame frame (uses_perform (by trivial)) ran
    intro _ _ e ran
    apply wp_bind_frame frame (uses_perform (by trivial)) ran
    intro _ _ e ran
    refine (wp_bind _ _ _ _ _).mpr ?_
    apply wp_perform (P := fun e => Executed digest sha256 e.2) ran
      (fun _ _ moved ran => executed_moves moved ran) (fun _ _ => trivial)
    intro e _ e' ran replied
    right
    refine ⟨sha256,executed_replies (by rfl) replied ran,?_⟩
    rw [(Machine.watched_answer_iff.mp replied).2]
    exact List.cons_ne_nil _ _

theorem wp_start (held : Hashed digest sha256 (e.1 path) e.2) :
    (start path args sha256).wp (around path) (fun _ _ _ => True)
      (fun _ _ e => Finished digest e.2) () e := by
  have frame : (around path).Frame (fun _ _ _ => True) Eq (asksOnly sha256)
      fun _ e => Hashed digest sha256 (e.1 path) e.2 := hashed_frame fun _ _ _ => trivial
  apply wp_bind_frame frame nextId_asksOnly held
  intro id _ e held
  apply wp_bind_frame frame (uses_perform (by trivial)) held
  intro _ _ e held
  apply wp_bind_frame frame (uses_perform (by trivial)) held
  intro sandbox _ e held
  apply wp_bind_frame frame (uses_perform (by trivial)) held
  intro term _ e held
  exact wp_spawnApp rfl held

theorem wp_startAuthorized (held : Hashed digest sha256 (e.1 path) e.2) :
    (startAuthorized path args sha256).wp (around path) (fun _ _ _ => True)
      (fun _ _ e => Finished digest e.2) () e := by
  have frame : (around path).Frame (fun _ _ _ => True) Eq (asksOnly sha256)
      fun _ e => Hashed digest sha256 (e.1 path) e.2 := hashed_frame fun _ _ _ => trivial
  apply wp_bind_frame frame authorize_asksOnly held
  intro authorized _ e held
  cases authorized with
  | error err => exact .inl held.unexecuted
  | ok _ => exact wp_start held

theorem wp_launch (blank : e.2 = {}) :
    (launch digest path args).wp (around path) (fun _ _ _ => True)
      (fun _ _ e => Finished digest e.2) () e := by
  refine (wp_bind _ _ _ _ _).mpr ((wp_bind _ _ _ _ _).mpr ?_)
  apply wp_perform (P := fun e => e.2 = {}) blank (fun _ _ moved blank => blank_moves moved blank)
    (fun _ _ => trivial)
  intro e bytes e' blank replied
  obtain ⟨answered,noted⟩ := Machine.watched_answer_iff.mp replied
  cases bytes with
  | error err =>
    have same : e'.2 = e.2 := noted
    left
    rw [same,blank]
  | ok bytes =>
    obtain ⟨denotes,files⟩ := Option.ite_none_right_eq_some.mp answered
    apply wp_startAuthorized
    rw [noted,← Option.some.inj files,blank]
    constructor
    · exact ⟨bytes,rfl,rfl,denotes⟩
    · exact rfl
    · exact fun _ member => absurd member List.not_mem_nil
    · exact rfl

end Launch

section Identities
variable {digest}

theorem identified_iff_of_finished {r : Record} (finished : Finished digest r) :
    Identified digest r ↔ Undisturbed digest r := by
  rcases finished with unexecuted | ⟨sha256,ran,registered⟩
  · simp [Identified,Undisturbed,unexecuted]
  · obtain ⟨info,more,recorded⟩ := List.exists_cons_of_ne_nil registered
    obtain ⟨bytes,read,hash,executed⟩ := ran.read
    have hashed : info.sha256 = sha256 := ran.registered info (by simp [recorded])
    constructor
    · intro identified bytes' contents _ read' put
      have same : bytes' = bytes := Option.some.inj (read'.symm.trans read)
      have run : r.executed = some contents := by rw [executed,put]; rfl
      have recorded' := (identified contents run).2 info (by simp [recorded])
      rw [same,← hash,← hashed,recorded']
    · intro undisturbed contents run
      have whole : sha256 = hex (digest contents) := by
        cases put : r.put with
        | none =>
          rw [put,run] at executed
          have same : contents = bytes := Option.some.inj executed
          rw [hash,same]
        | some put' =>
          rw [put,run] at executed
          have same : put' = some contents := executed.symm
          rw [hash]
          exact (undisturbed bytes contents ran.executed read (put.trans (congrArg some same))).symm
      exact ⟨fun text member => whole ▸ ran.asked text member,
        fun info member => whole ▸ ran.registered info member⟩

/-- The recorded identity is that of what ran just when nobody put another file in its place in
between. -/
theorem identified_iff {path : String} {args : List String} {files : Files} {e : Files × Record}
    {result : Except String String}
    (run : Reaches (around path) ⟨launch digest path args,(),(files,{})⟩ ⟨.ret result,(),e⟩) :
    Identified digest e.2 ↔ Undisturbed digest e.2 :=
  identified_iff_of_finished (wp_returns run (wp_launch rfl))

end Identities

section Runs

def welcoming : (op : Apps.Op) → Unit → Files × Record → op.Ans
  | .read path, _, e => match e.1 path with
    | some bytes => .ok bytes
    | none => .error "No such file or directory (os error 2)"
  | .connect, _, _ | .writeAll _, _, _ => false
  | .readToString, _, _ | .term, _, _ => none
  | .nextSeq, _, _ | .unixTime, _, _ => (0 : Nat)
  | .prepareSandbox, _, _ => ⟨40⟩
  | .spawn _, _, _ => .ok 7
  | .log _ _, _, _ | .prepareIntermediate _, _, _ | .createUnder _ _ _, _, _
  | .attachUnder _ _ _, _, _ | .register _, _, _ => ()

def editor : String := "/usr/bin/editor"

def installed : Files := fun path => if path = editor then some ⟨#[1]⟩ else none

def launchRun (changed : String) :
    Option (State Unit Apps.Op Apps.Op.Ans (Files × Record) (Except String String)) :=
  drive (Files.machine.watched (observer editor)) welcoming
    [.step,.stir (.replace changed (some ⟨#[2]⟩)),.upTo (fun _ => false) 20]
    ⟨launch id editor [],(),(installed,{})⟩

/-- Another file is changed while the editor is launched. -/
theorem identified_iff_elsewhere : ∃ e, Reaches (around editor) ⟨launch id editor [],(),(installed,{})⟩
    ⟨.ret (.ok "app-0-0"),(),e⟩ ∧ e.2.executed = some ⟨#[1]⟩ ∧ Identified id e.2 := by
  have went : (launchRun "/etc/motd").map (fun t => (t.result?,t.env.2.executed,t.env.2.put)) =
      some (some (.ok "app-0-0"),some ⟨#[1]⟩,none) := by decide +kernel
  obtain ⟨t,driven,seen⟩ := Option.map_eq_some_iff.mp went
  obtain ⟨result,rest⟩ := Prod.mk.inj seen
  obtain ⟨executed,put⟩ := Prod.mk.inj rest
  have run := drive_returned driven result
  have undisturbed : Undisturbed id t.env.2 := by
    intro bytes contents _ _ changed
    rw [put] at changed
    contradiction
  exact ⟨t.env,run,executed,(identified_iff run).mpr undisturbed⟩

/-- The editor is replaced while the policy daemon is asked: the new one runs under the hash of the old. -/
theorem drifts_when_replaced : ¬ ∀ (digest : ByteArray → ByteArray) (path : String) (args : List String)
    (files : Files) (e : Files × Record) (result : Except String String),
    Reaches (around path) ⟨launch digest path args,(),(files,{})⟩ ⟨.ret result,(),e⟩ →
      Identified digest e.2 := by
  intro claim
  have went : (launchRun editor).map (fun t => (t.result?,t.env.2.executed,t.env.2.registered)) =
      some (some (.ok "app-0-0"),some ⟨#[2]⟩,[⟨"app-0-0",editor,[],7,"01"⟩]) := by decide +kernel
  obtain ⟨t,driven,seen⟩ := Option.map_eq_some_iff.mp went
  obtain ⟨result,rest⟩ := Prod.mk.inj seen
  obtain ⟨executed,registered⟩ := Prod.mk.inj rest
  have run := drive_returned driven result
  have identified := claim id editor [] installed t.env (.ok "app-0-0") run
  have recorded := (identified ⟨#[2]⟩ executed).2 _ (by rw [registered]; exact List.mem_singleton_self _)
  have hashes : "01" ≠ hex ⟨#[2]⟩ := by decide +kernel
  exact hashes recorded

end Runs
end MitosServices.Identity
