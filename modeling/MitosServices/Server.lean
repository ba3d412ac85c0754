import MitosServices.Ipc
import MitosServices.Apps
import MitosServices.Masks
import MitosServices.Interaction.Interpret
import MitosServices.Interaction.Threads

/-! The thread behind the control socket, call by call, beside the main thread: all it does to what they
share are the requests and launches that the kernel has as single events. -/
namespace MitosServices.Server
open Interaction Interaction.Program

section Thread

def socketPath : String := "/run/mitos-services/control.sock"

def socketDir : String := "/run/mitos-services"

inductive Op
  | begun
  | createDirAll (path : String)
  | removeFile (path : String)
  | bind (path : String)
  | setPermissions (path : String) (mode : Nat)
  | accept
  | tryClone
  | log (level : Level) (text : String)
  | ipc (op : Ipc.Op)
  | app (op : Apps.Op)

@[reducible] def Op.Ans : Op → Type
  | createDirAll _ | bind _ | accept => Except String Unit
  | tryClone => Bool
  | ipc op => op.Ans
  | app op => op.Ans
  | _ => Unit

abbrev Code := Program Unit Op Op.Ans

def call (op : Op) : Code op.Ans := perform op

variable (digest : ByteArray → ByteArray)

def carry : (op : Ipc.Op) → Code op.Ans
  | .launch path args => (Apps.launch digest path args).interpret fun op => call (.app op)
  | op => call (.ipc op)

/-- `handle`, with the clone it reads from. -/
def connection : Code Unit := do
  let cloned ← call .tryClone
  if cloned then Ipc.handle.interpret (carry digest) else pure ()

def incoming : Code (Except String Unit) :=
  repeatFrom () fun _ => do
    let conn ← call .accept
    match conn with
    | .ok _ => connection digest
    | .error e => call (.log .debug s!"IPC accept error: {e}")
    pure (.inl ())

def listen : Code (Except String Unit) := do
  call (.removeFile socketPath)
  let bound ← call (.bind socketPath)
  match bound with
  | .error e => pure (.error e)
  | .ok _ => do
    call (.setPermissions socketPath 0o600)
    call (.log .debug "IPC listener up")
    incoming digest

def run : Code (Except String Unit) := do
  let made ← call (.createDirAll socketDir)
  match made with
  | .error e => pure (.error e)
  | .ok _ => listen digest

/-- What `spawn_listener` has the new thread do. -/
def listener : Code Unit := do
  call .begun
  let ended ← run digest
  match ended with
  | .ok _ => pure ()
  | .error e => call (.log .warn s!"IPC listener stopped: {e}")

end Thread

section Effects

def appIdOf (command : Apps.Command) : String := (command.env.lookup "MITOS_APP_ID").getD ""

def answer : (op : Op) → Unit → Kernel → op.Ans → Option Kernel
  | .begun, _, k, _ => if k.ipc = .absent then none else some k
  | .ipc (.store flag), _, k, _ => some (k.raise flag)
  | .ipc (.requestIsolate name), _, k, _ => some { k with isolate := some name }
  | .ipc .now, _, k, t => if t = k.clock then some k else none
  | .app (.spawn command), _, k, .ok pid =>
    if (k.children.lookup pid).isSome then none
    else some (k.addChild pid (.app (appIdOf command)) k.ipcMask)
  | .app (.register info), _, k, _ => some { k with apps := k.apps.insert info.pid info }
  | _, _, k, _ => some k

def machine : Machine Unit Op Op.Ans Kernel Empty := ⟨fun _ _ _ _ => none,answer⟩

def outside : Condition Memory MitosServices.Op MitosServices.Op.Ans Kernel Event where
  event
    | .requestReload, _, _, _ | .requestStatus, _, _, _ | .requestIsolate _, _, _, _ | .launch _, _, _, _ => false
    | .register, _, _, _ => false
    | _, _, _, _ => true
  reply _ _ _ _ := true

end Effects

/-- How far the thread is: before it begins, with nothing under way, with the file of a launch read, or with
an app that has been spawned and is not yet registered. -/
inductive Phase
  | waiting
  | free
  | hashed (path : String) (bytes : ByteArray)
  | launched (info : AppInfo)

def Phase.Free : Phase → Prop
  | free | hashed _ _ => True
  | waiting | launched _ => False

section Conduct
variable (digest : ByteArray → ByteArray)

def unmoved : Monitor Memory MitosServices.Op MitosServices.Op.Ans Kernel Event Phase where
  event _ _ _ _ phase := phase
  reply _ _ _ _ phase := phase

abbrev around : Surroundings Memory MitosServices.Op MitosServices.Op.Ans (Kernel × Phase) :=
  ((Kernel.machine.under outside).watched unmoved).surroundings

/-- How far a call takes the thread. An app is spawned under its id by its program and arguments, and the hash is
that of the file that was read. -/
def after : (op : Op) → op.Ans → Phase → Phase
  | .begun, _, _ => .free
  | .app (.read path), .ok bytes, _ => .hashed path bytes
  | .app (.spawn command), .ok pid, .hashed path bytes =>
    .launched ⟨appIdOf command,path,command.args,pid,Apps.hex (digest bytes)⟩
  | .app (.register _), _, _ => .free
  | _, _, phase => phase

def Allowed : Op → Phase → Prop
  | .begun, phase => phase = .waiting
  | .ipc (.store flag), phase => phase.Free ∧ (flag = .reloadRequested ∨ flag = .statusDumpRequested)
  | .ipc (.requestIsolate _), phase => phase.Free
  | .app (.read _), phase => phase.Free
  | .app (.spawn command), phase => ∃ bytes, phase = .hashed command.program bytes
  | .app (.register info), phase => phase = .launched info
  | _, _ => True

def phases : Monitor Unit Op Op.Ans Kernel Empty Phase where
  event _ _ _ _ phase := phase
  reply op _ _ r phase := after digest op r phase

abbrev thread : Surroundings Unit Op Op.Ans (Kernel × Phase) := (machine.watched (phases digest)).surroundings

def conduct : Surroundings Unit Op Op.Ans Phase where
  moves _ _ _ _ := False
  replies op _ phase r phase' := phase' = after digest op r phase

def allowed (op : Option Op) (_ : Unit) (phase : Phase) : Prop := ∀ o ∈ op, Allowed o phase

variable {digest} {phase : Phase}

theorem drifts_conduct {op : Op} {n : Unit} {phase' : Phase} (drifted : (conduct digest).Drifts op n phase phase') :
    phase' = phase := by
  induction drifted with
  | refl => rfl
  | tail _ moved _ => exact moved.elim

/-- A call, and the phase it leads to. -/
theorem wp_call {op : Op} {Q : op.Ans → Unit → Phase → Prop} (may : Allowed op phase)
    (rest : ∀ r, Q r () (after digest op r phase)) : (call op).wp (conduct digest) allowed Q () phase := by
  intro phase₁ drifted
  obtain rfl := drifts_conduct drifted
  refine ⟨?_,?_⟩
  · rintro _ ⟨⟩
    exact may
  · rintro r _ rfl
    exact rest r

theorem wp_bind_call {α : Type} {op : Op} {f : op.Ans → Code α} {Q : α → Unit → Phase → Prop} (may : Allowed op phase)
    (rest : ∀ r, (f r).wp (conduct digest) allowed Q () (after digest op r phase)) :
    (call op >>= f).wp (conduct digest) allowed Q () phase :=
  (wp_bind _ _ _ _ _).mpr (wp_call may rest)

section Launching

def launching (digest : ByteArray → ByteArray) : Surroundings Unit Apps.Op Apps.Op.Ans Phase where
  moves _ _ _ _ := False
  replies op _ phase r phase' := phase' = after digest (.app op) r phase

def allowedApp (op : Option Apps.Op) (n : Unit) (phase : Phase) : Prop := allowed (op.map .app) n phase

theorem wp_bind_app {α : Type} {op : Apps.Op} {f : op.Ans → Apps.Code α} {Q : α → Unit → Phase → Prop}
    (may : Allowed (.app op) phase)
    (rest : ∀ r, (f r).wp (launching digest) allowedApp Q () (after digest (.app op) r phase)) :
    (Apps.call op >>= f).wp (launching digest) allowedApp Q () phase := by
  refine (wp_bind _ _ _ _ _).mpr (wp_perform (P := (· = phase)) rfl ?_ ?_ ?_)
  · exact fun _ _ moved => moved.elim
  · rintro _ rfl _ ⟨⟩
    exact may
  · rintro _ r _ rfl rfl
    exact rest r

def Inner : Apps.Op → Prop
  | .read _ | .spawn _ | .register _ => False
  | _ => True

theorem inner_frame (phase : Phase) :
    (launching digest).Frame allowedApp (fun _ _ => True) Inner fun _ reached => reached = phase where
  updates _ _ _ _ same := same
  moves _ _ _ _ _ moved := moved.elim
  replies op _ _ r _ inner replied same := by
    rw [replied,same]
    cases op <;> first | rfl | exact inner.elim
  holds op _ _ inner _ := by
    rintro _ member
    cases op with
    | none => contradiction
    | some op =>
      cases member
      have inner := inner op rfl
      cases op <;> trivial

theorem inner_call {op : Apps.Op} (inner : Inner op) : (Apps.call op).Uses (fun _ _ => True) Inner := uses_perform inner

theorem judge_inner (path : String) (response : List Char) : (Apps.judge path response).Uses (fun _ _ => True) Inner := by
  unfold Apps.judge
  split
  · exact uses_pure _
  split
  · exact uses_bind (@inner_call (.log _ _) trivial) fun _ => uses_pure _
  · exact uses_bind (@inner_call (.log _ _) trivial) fun _ => uses_pure _

theorem authorize_inner (path sha256 : String) : (Apps.authorize path sha256).Uses (fun _ _ => True) Inner := by
  refine uses_bind (inner_call trivial) fun connected => ?_
  split
  · exact uses_pure _
  refine uses_bind (inner_call trivial) fun written => ?_
  split
  · exact uses_pure _
  refine uses_bind (inner_call trivial) fun response => ?_
  cases response with
  | none => exact uses_pure _
  | some text => exact judge_inner path _

theorem wp_spawnApp (id path : String) (args : List String) {bytes : ByteArray} {command : Apps.Command}
    (named : appIdOf command = id) (program : command.program = path) (given : command.args = args) :
    (Apps.spawnApp id path args (Apps.hex (digest bytes)) command).wp (launching digest) allowedApp
      (fun _ _ phase => phase.Free) () (.hashed path bytes) := by
  refine wp_bind_app ⟨bytes,by rw [program]⟩ fun child => ?_
  cases child with
  | error e => exact trivial
  | ok pid =>
    refine wp_bind_app trivial fun _ => wp_bind_app trivial fun _ => wp_bind_app trivial fun _ => ?_
    refine wp_bind_app ?_ fun _ => trivial
    subst named given
    rfl

theorem wp_start (path : String) (args : List String) (bytes : ByteArray) :
    (Apps.start path args (Apps.hex (digest bytes))).wp (launching digest) allowedApp
      (fun _ _ phase => phase.Free) () (.hashed path bytes) := by
  refine wp_bind_frame (inner_frame (.hashed path bytes)) ?_ rfl ?_
  · exact uses_bind (inner_call trivial) fun _ => uses_bind (inner_call trivial) fun _ => uses_pure _
  rintro id _ _ rfl
  refine wp_bind_app trivial fun _ => wp_bind_app trivial fun sandbox => wp_bind_app trivial fun term => ?_
  exact wp_spawnApp id path args rfl rfl rfl

/-- What is registered is what was spawned, with the hash of what was read. -/
theorem wp_launch (path : String) (args : List String) (free : phase.Free) :
    (Apps.launch digest path args).wp (launching digest) allowedApp (fun _ _ phase => phase.Free) () phase := by
  refine (wp_bind _ _ _ _ _).mpr (wp_bind_app free fun bytes => ?_)
  cases bytes with
  | error e => exact free
  | ok bytes =>
    refine wp_bind_frame (inner_frame (.hashed path bytes)) (authorize_inner path _) rfl ?_
    rintro authorized _ _ rfl
    cases authorized with
    | error e => exact trivial
    | ok _ => exact wp_start path args bytes

end Launching

section Connections

/-- The conduct of a connection, by its own calls: a launch may come to anything but to being amid one. -/
def connecting : Surroundings Unit Ipc.Op Ipc.Op.Ans Phase where
  moves _ _ _ _ := False
  replies
    | .launch _ _, _, _, _, phase' => phase'.Free
    | _, _, phase, _, phase' => phase' = phase

def Requests : Ipc.Op → Prop
  | .store flag => flag = .reloadRequested ∨ flag = .statusDumpRequested
  | _ => True

def allowedIpc (op : Option Ipc.Op) (_ : Unit) (phase : Phase) : Prop := ∀ o ∈ op, phase.Free ∧ Requests o

theorem requests_call {op : Ipc.Op} (requests : Requests op) : (Ipc.call op).Uses (fun _ _ => True) Requests :=
  uses_perform requests

theorem waitForFreshStatus_requests (timeout : Nat) :
    (Ipc.waitForFreshStatus timeout).Uses (fun _ _ => True) Requests := by
  refine uses_bind (requests_call trivial) fun baseline => uses_bind (requests_call trivial) fun start => ?_
  refine uses_repeatFrom fun _ => uses_bind (requests_call trivial) fun t => ?_
  split
  · refine uses_bind (requests_call trivial) fun seen => ?_
    split
    · exact uses_pure _
    · exact uses_bind (requests_call trivial) fun _ => uses_pure _
  · exact uses_pure _

theorem launch_requests (path : String) (args : List String) :
    (Ipc.launch path args).Uses (fun _ _ => True) Requests := by
  refine uses_bind (requests_call trivial) fun launched => ?_
  cases launched <;> exact uses_pure _

theorem answer_requests (cmd : String) (rest : List Char) : (Ipc.answer cmd rest).Uses (fun _ _ => True) Requests := by
  unfold Ipc.answer
  split
  · exact uses_bind (requests_call (.inr rfl)) fun _ => waitForFreshStatus_requests _
  · exact uses_bind (requests_call (.inl rfl)) fun _ => uses_pure _
  · exact uses_pure _
  · refine uses_bind (requests_call trivial) fun published => ?_
    split <;> exact uses_pure _
  · split
    · exact uses_pure _
    · exact uses_bind (requests_call trivial) fun _ => uses_pure _
  · split
    · exact uses_pure _
    · exact launch_requests _ _
  · exact uses_bind (requests_call trivial) fun _ => uses_pure _
  · refine uses_bind (requests_call trivial) fun lines => ?_
    split <;> exact uses_pure _
  · exact uses_pure _

theorem handle_requests : Ipc.handle.Uses (fun _ _ => True) Requests := by
  refine uses_bind (requests_call trivial) fun line => ?_
  cases line with
  | none => exact uses_pure _
  | some line => exact uses_bind (answer_requests _ _) fun response => requests_call trivial

theorem wp_handle (free : phase.Free) : Ipc.handle.wp connecting allowedIpc (fun _ _ phase => phase.Free) () phase := by
  refine wp_frame (P := fun _ (phase : Phase) => phase.Free) ⟨?_,?_,?_,?_⟩ handle_requests free
  · exact fun _ _ _ _ free => free
  · exact fun _ _ _ _ _ moved _ => moved.elim
  · intro op _ _ r phase' _ replied free
    cases op <;> first | exact replied | exact replied ▸ free
  · intro op _ phase requests free o member
    exact ⟨free,requests o member⟩

theorem wp_carry_app (op : Apps.Op) {Q : op.Ans → Unit → Phase → Prop}
    (direct : (perform op : Apps.Code op.Ans).wp (launching digest) allowedApp Q () phase) :
    (call (.app op)).wp (conduct digest) allowed Q () phase := by
  obtain ⟨may,rest⟩ := direct phase .refl
  exact wp_call (may _ rfl) fun r => rest r _ rfl

theorem wp_carry (op : Ipc.Op) {Q : op.Ans → Unit → Phase → Prop}
    (direct : (perform op : Ipc.Code op.Ans).wp connecting allowedIpc Q () phase) :
    (carry digest op).wp (conduct digest) allowed Q () phase := by
  obtain ⟨may,rest⟩ := direct phase .refl
  obtain ⟨free,requests⟩ := may op rfl
  cases op with
  | launch path args =>
    have launched := @wp_launch digest phase path args free
    refine wp_interpret (S := launching digest) (A := allowedApp) ?_ ?_
      (wp_mono launched fun r _ after free => rest r after free)
    · exact fun _ _ _ _ member => absurd member (by simp)
    · exact fun op Q _ phase direct => wp_carry_app op direct
  | _ => exact wp_call (by first | exact ⟨free,requests⟩ | exact free | trivial) fun r => rest r phase rfl

/-- A connection leaves no launch half done. -/
theorem wp_connection (free : phase.Free) :
    (connection digest).wp (conduct digest) allowed (fun _ _ phase => phase.Free) () phase := by
  refine wp_bind_call trivial fun cloned => ?_
  split
  · refine wp_interpret (S := connecting) (A := allowedIpc) ?_ ?_ (wp_handle free)
    · exact fun _ _ _ _ member => absurd member (by simp)
    · exact fun op Q _ phase direct => wp_carry op direct
  · exact free

theorem wp_incoming (free : phase.Free) :
    (incoming digest).wp (conduct digest) allowed (fun _ _ _ => True) () phase := by
  refine wp_repeatFrom (fun _ _ phase => phase.Free) free (fun _ _ _ _ _ member => absurd member (by simp)) ?_
  intro _ _ phase free
  refine wp_bind_call trivial fun conn => ?_
  cases conn with
  | ok _ => exact wp_then (wp_connection free) fun _ _ _ free => free
  | error e => exact wp_bind_call trivial fun _ => free

theorem wp_listener : (listener digest).wp (conduct digest) allowed (fun _ _ _ => True) () .waiting := by
  refine wp_bind_call rfl fun _ => ?_
  refine wp_then (R := fun _ _ _ => True) ?_ fun ended _ _ _ => ?_
  · refine wp_bind_call trivial fun made => ?_
    cases made with
    | error e => exact trivial
    | ok _ =>
      refine wp_bind_call trivial fun _ => wp_bind_call trivial fun bound => ?_
      cases bound with
      | error e => exact trivial
      | ok _ => exact wp_bind_call trivial fun _ => wp_bind_call trivial fun _ => wp_incoming trivial
  · cases ended with
    | ok _ => exact trivial
    | error e => exact wp_call trivial fun _ => trivial

end Connections

end Conduct

section Kernel
variable {k k' : Kernel} {m : Memory} {ipc : Ipc}

def Phase.shown : Phase → Ipc → Ipc
  | .launched info, _ => .launched info
  | _, ipc => ipc

/-- The same state, with the thread as the kernel shows it; amid anything it has begun. -/
structure Tied (phase : Phase) (k shown : Kernel) : Prop where
  same : shown = { k with ipc := phase.shown k.ipc }
  begun : k.ipc = .idle ∨ k.ipc = .absent ∧ phase = .waiting

/-- What happens around the threads is blind to what the kernel shows of the one. -/
theorem stir_blind {ev : Event} {op : MitosServices.Op} (apart : outside.event ev op m k = true) (ipc : Ipc) :
    Kernel.stir ev op m { k with ipc } = (Kernel.stir ev op m k).map fun k => { k with ipc } := by
  cases ev with
  | tick elapsed => rfl
  | exit pid ending =>
    simp only [Kernel.stir]
    cases k.children.lookup pid with
    | none => rfl
    | some child =>
      simp only [Option.bind_some]
      split <;> rfl
  | choose pid => rfl
  | adopt pid =>
    simp only [Kernel.stir]
    cases k.children.lookup pid <;> rfl
  | deliver sig =>
    simp only [Kernel.stir]
    cases onSignal sig with
    | none => rfl
    | some flag => cases k.mainMask sig <;> rfl
  | block =>
    simp only [Kernel.stir]
    split <;> split <;> first | rfl | contradiction
  | _ => exact absurd apart (by simp [outside])

theorem stir_still {ev : Event} {op : MitosServices.Op} (apart : outside.event ev op m k = true)
    (stirred : Kernel.stir ev op m k = some k') : k'.ipc = k.ipc := by
  have blind := stir_blind (k := k) apart k.ipc
  change Kernel.stir ev op m k = _ at blind
  rw [stirred] at blind
  have same : k' = { k' with ipc := k.ipc } := Option.some.inj blind
  have still := congrArg Kernel.ipc same
  exact still

theorem waited_blind (target : WaitFor) (nohang : Bool) (status : Except Errno WaitStatus) (ipc : Ipc) :
    Kernel.waited target nohang { k with ipc } status =
      (Kernel.waited target nohang k status).map fun k => { k with ipc } := by
  have covered : Kernel.covered { k with ipc } target = k.covered target := by cases target <;> rfl
  match status with
  | .ok (.ended pid ending) =>
    simp only [Kernel.waited]
    cases k.children.lookup pid with
    | none => rfl
    | some child =>
      simp only [Option.bind_some]
      split <;> rfl
  | .ok .stillAlive =>
    simp only [Kernel.waited,covered]
    split <;> rfl
  | .ok .other => rfl
  | .error .echild =>
    simp only [Kernel.waited,covered]
    split <;> rfl
  | .error .eintr =>
    simp only [Kernel.waited]
    split <;> rfl
  | .error .other =>
    simp only [Kernel.waited]
    cases k.children.lookup k.chosen with
    | none => rfl
    | some child =>
      simp only [Option.bind_some]
      split <;> rfl

theorem answer_blind {op : MitosServices.Op} (r : op.Ans) (mute : op ≠ .spawnListener) (ipc : Ipc) :
    Kernel.answer op m { k with ipc } r = (Kernel.answer op m k r).map fun k => { k with ipc } := by
  cases op with
  | spawnListener => contradiction
  | waitpid target nohang => exact waited_blind target nohang r ipc
  | now => simp only [Kernel.answer]; split <;> rfl
  | swap flag => simp only [Kernel.answer]; split <;> rfl
  | takePendingIsolate => simp only [Kernel.answer]; split <;> rfl
  | iterate listed => simp only [Kernel.answer]; split <;> rfl
  | takeApp pid => simp only [Kernel.answer]; split <;> rfl
  | spawn origin command =>
    cases r with
    | error e => rfl
    | ok pid => simp only [Kernel.answer]; split <;> rfl
  | blockHandled => cases r <;> rfl
  | unblockHandled => cases r <;> rfl
  | _ => rfl

theorem answer_still {op : MitosServices.Op} {r : op.Ans} (mute : op ≠ .spawnListener)
    (answered : Kernel.answer op m k r = some k') : k'.ipc = k.ipc := by
  have blind := answer_blind (m := m) (k := k) r mute k.ipc
  change Kernel.answer op m k r = _ at blind
  rw [answered] at blind
  have same : k' = { k' with ipc := k.ipc } := Option.some.inj blind
  have still := congrArg Kernel.ipc same
  exact still

theorem Tied.idle {phase : Phase} {shown : Kernel} (tied : Tied phase k shown) (free : phase.Free) :
    k.ipc = .idle ∧ shown = k := by
  have idle : k.ipc = .idle := tied.begun.resolve_right fun absent => by
    rw [absent.2] at free
    exact free
  refine ⟨idle,tied.same.trans ?_⟩
  cases phase <;> first | rfl | exact free.elim

theorem tied_free {phase : Phase} (free : phase.Free) (idle : k.ipc = .idle) : Tied phase k k where
  same := by cases phase <;> first | rfl | exact free.elim
  begun := .inl idle

/-- A request or a launch is seen as what it is. -/
theorem drifts_event {op : MitosServices.Op} {shown shown' : Kernel} (ev : Event)
    (stirred : Kernel.stir ev op m shown = some shown') : Kernel.machine.surroundings.Drifts op m shown shown' :=
  .single ⟨ev,stirred⟩

theorem calls_shown {digest : ByteArray → ByteArray} {phase : Phase} {shown : Kernel} {op : Op} {n : Unit} {r : op.Ans}
    (pending : MitosServices.Op) (may : Allowed op phase) (answered : answer op n k r = some k') (tied : Tied phase k shown) :
    ∃ shown', Kernel.machine.surroundings.Drifts pending m shown shown' ∧ Tied (after digest op r phase) k' shown' := by
  cases op with
  | begun =>
    simp only [answer,Option.ite_none_left_eq_some,Option.some.injEq] at answered
    obtain ⟨present,rfl⟩ := answered
    obtain rfl : phase = .waiting := may
    have idle := tied.begun.resolve_right fun absent => present absent.1
    exact ⟨shown,.refl,tied.same,.inl idle⟩
  | ipc op =>
    cases op with
    | store flag =>
      obtain ⟨idle,rfl⟩ := tied.idle may.1
      cases answered
      refine ⟨_,?_,tied_free may.1 idle⟩
      rcases may.2 with rfl | rfl
      · exact drifts_event .requestReload (by simp only [Kernel.stir,if_pos idle])
      · exact drifts_event .requestStatus (by simp only [Kernel.stir,if_pos idle])
    | requestIsolate name =>
      obtain ⟨idle,rfl⟩ := tied.idle may
      cases answered
      exact ⟨_,drifts_event (.requestIsolate name) (by simp only [Kernel.stir,if_pos idle]),tied_free may idle⟩
    | now =>
      simp only [answer,Option.ite_none_right_eq_some,Option.some.injEq] at answered
      obtain ⟨-,rfl⟩ := answered
      exact ⟨shown,.refl,tied⟩
    | _ =>
      cases answered
      exact ⟨shown,.refl,tied⟩
  | app op =>
    cases op with
    | read path =>
      obtain ⟨idle,rfl⟩ := tied.idle may
      cases answered
      refine ⟨_,.refl,tied_free ?_ idle⟩
      cases r with
      | ok bytes => exact trivial
      | error e => exact may
    | spawn command =>
      obtain ⟨bytes,rfl⟩ := may
      obtain ⟨idle,rfl⟩ := tied.idle trivial
      cases r with
      | error e =>
        cases answered
        exact ⟨_,.refl,tied⟩
      | ok pid =>
        simp only [answer,Option.ite_none_left_eq_some,Option.some.injEq,Bool.not_eq_true,
          Option.isSome_eq_false_iff] at answered
        obtain ⟨fresh,rfl⟩ := answered
        let info : AppInfo := ⟨appIdOf command,command.program,command.args,pid,Apps.hex (digest bytes)⟩
        refine ⟨_,drifts_event (.launch info) ?_,rfl,.inl idle⟩
        exact if_pos ⟨idle,fresh⟩
    | register info =>
      obtain rfl : phase = .launched info := may
      cases answered
      have launched : shown.ipc = .launched info := by rw [tied.same]; rfl
      have idle : k.ipc = .idle := tied.begun.resolve_right (by simp)
      refine ⟨{ shown with ipc := .idle, apps := shown.apps.insert info.pid info },drifts_event .register ?_,?_,?_⟩
      · simp only [Kernel.stir,launched]
      · rw [tied.same]
        simp [Phase.shown,after,idle]
      · exact .inl idle
    | _ =>
      cases answered
      exact ⟨shown,.refl,tied⟩
  | _ =>
    cases answered
    exact ⟨shown,.refl,tied⟩

def once (op : Option MitosServices.Op) (_ : Memory) (e : Kernel × Phase) : Prop :=
  op = some .spawnListener → e.1.ipc = .absent

def Told (phase : Phase) (e : Kernel × Phase) (shown : Kernel) : Prop := e.2 = phase ∧ Tied phase e.1 shown

/-- Whatever the thread does is a request, a launch or nothing. -/
theorem conducted (digest : ByteArray → ByteArray) :
    Conducted around (thread digest) Kernel.machine.surroundings (conduct digest) once allowed Told where
  moves op m e e' phase shown moved told := by
    obtain ⟨noted,tied⟩ := told
    obtain ⟨ev,stirred⟩ := moved
    obtain ⟨stirred,same⟩ := Machine.watched_stir_iff.mp stirred
    obtain ⟨apart,stirred⟩ := Machine.under_stir_iff.mp stirred
    have still := stir_still apart stirred
    refine ⟨{ e'.1 with ipc := phase.shown e.1.ipc },.single ⟨ev,?_⟩,same.trans noted,?_,?_⟩
    · change Kernel.stir ev op m shown = _
      rw [tied.same,stir_blind apart,show Kernel.stir ev op m e.1 = some e'.1 from stirred]
      rfl
    · rw [still]
    · rw [still]
      exact tied.begun
  replies op m e r e' phase shown listens replied told := by
    obtain ⟨noted,tied⟩ := told
    obtain ⟨replied,same⟩ := Machine.watched_answer_iff.mp replied
    have answered : Kernel.answer op m e.1 r = some e'.1 := (Machine.under_answer_iff.mp replied).2
    by_cases mute : op = .spawnListener
    · subst mute
      have absent := listens rfl
      have waiting : phase = .waiting := by
        rcases tied.begun with idle | begun
        · rw [absent] at idle
          contradiction
        · exact begun.2
      subst waiting
      obtain rfl : shown = e.1 := tied.same
      have begun := Option.some.inj answered
      refine ⟨e'.1,answered,same.trans noted,rfl,.inl ?_⟩
      rw [← begun]
    · have still := answer_still mute answered
      refine ⟨{ e'.1 with ipc := phase.shown e.1.ipc },?_,same.trans noted,?_,?_⟩
      · change Kernel.answer op m shown r = _
        rw [tied.same,answer_blind r mute,answered]
        rfl
      · rw [still]
      · rw [still]
        exact tied.begun
  stirs _ _ _ _ _ _ _ _ moved := moved.choose.elim
  calls op m op' n e r e' phase shown may replied told := by
    obtain ⟨noted,tied⟩ := told
    obtain ⟨answered,same⟩ := Machine.watched_answer_iff.mp replied
    have may : Allowed op' phase := may op' rfl
    obtain ⟨shown',drifted,tied⟩ := calls_shown op may answered tied
    refine ⟨after digest op' r phase,shown',rfl,drifted,?_,tied⟩
    rw [same,noted]
    rfl

end Kernel

section Main
variable {digest : ByteArray → ByteArray} {m : Memory} {e : Kernel × Phase}

abbrev beside (digest : ByteArray → ByteArray) :
    Surroundings Memory MitosServices.Op MitosServices.Op.Ans (Kernel × Phase) := around.beside (thread digest)

theorem answer_steady {op : Op} {n : Unit} {r : op.Ans} {k k' : Kernel} (answered : answer op n k r = some k') :
    k'.ipc = k.ipc := by
  unfold answer at answered
  split at answered
  · obtain ⟨-,rfl⟩ := by simpa using answered
    rfl
  · cases answered; rfl
  · cases answered; rfl
  · obtain ⟨-,rfl⟩ := by simpa using answered
    rfl
  · obtain ⟨-,rfl⟩ := by simpa using answered
    rfl
  · cases answered; rfl
  · cases answered; rfl

/-- Nothing but the main thread's own call brings the other into being. -/
theorem still_moves {op : MitosServices.Op} {e' : Kernel × Phase} (moved : (beside digest).moves op m e e') :
    e'.1.ipc = e.1.ipc := by
  rcases moved with ⟨ev,stirred⟩ | ⟨_,_,⟨ev,-⟩⟩ | ⟨op',n,r,replied⟩
  · obtain ⟨apart,stirred⟩ := Machine.under_stir_iff.mp (Machine.watched_stir_iff.mp stirred).1
    exact stir_still apart stirred
  · exact ev.elim
  · exact answer_steady (Machine.watched_answer_iff.mp replied).1

def Mute (op : MitosServices.Op) : Prop := op ≠ .spawnListener

abbrev Muted {α : Type} (p : MitosServices.Code α) : Prop := p.Uses (fun _ _ => True) Mute

theorem muted_of_gentle {α : Type} {p : MitosServices.Code α} (gentle : Gentle p) : Muted p := by
  refine uses_mono gentle (fun _ _ written => written) fun op allowed => ?_
  rintro rfl
  exact absurd allowed (by decide)

theorem muted_call {op : MitosServices.Op} (mute : Mute op) : Muted (MitosServices.call op) := uses_perform mute

theorem guardSignals_muted : Muted guardSignals := by
  refine uses_bind (muted_call (by simp [Mute])) fun installed => ?_
  refine uses_bind (muted_of_gentle (gentle_of_plain (orElseLog_plain fun _ => rfl))) fun _ => ?_
  refine uses_bind (muted_call (by simp [Mute])) fun blocked => ?_
  exact muted_of_gentle (gentle_of_plain (orElseLog_plain fun _ => rfl))

theorem runEventLoop_muted (grace : Nat) : Muted (runEventLoop grace) := by
  refine uses_bind (uses_update fun _ => trivial) fun _ => uses_repeatFrom fun _ => ?_
  refine uses_bind (muted_call (by simp [Mute])) fun reboot => ?_
  refine uses_bind (muted_call (by simp [Mute])) fun poweroff => ?_
  refine uses_bind (muted_call (by simp [Mute])) fun halt => ?_
  split
  · exact muted_of_gentle (stopServing_gentle grace)
  · refine uses_mono (Masks.serve_passes grace) (fun _ _ written => written) fun op passes => ?_
    rintro rfl
    exact passes

/-- What follows the start of the thread. -/
theorem booted_muted (cfg : Config) : Muted (do
    MitosServices.call .spawnMonitor
    publishTargets cfg.defaultTarget cfg.services
    let timerDefs ← MitosServices.call .loadTimers
    update fun m => { m with services := ∅, cfg, currentTarget := cfg.defaultTarget, timerDefs }
    spawnAll (Targets.servicesIn cfg.services cfg.defaultTarget)) := by
  refine uses_bind (muted_call (by simp [Mute])) fun _ => ?_
  refine uses_bind (muted_of_gentle (gentle_of_plain (publishTargets_plain _ _))) fun _ => ?_
  refine uses_bind (muted_call (by simp [Mute])) fun timerDefs => uses_bind (uses_update fun _ => trivial) fun _ => ?_
  exact muted_of_gentle (gentle_of_supervising (spawnAll_supervises _))

theorem once_frame {P : Kernel → Prop} (keeps : ∀ k k' : Kernel, k'.ipc = k.ipc → P k → P k') :
    (beside digest).Frame once (fun _ _ => True) Mute fun _ e => P e.1 where
  updates _ _ _ _ held := held
  moves _ _ e e' _ moved held := keeps e.1 e'.1 (still_moves moved) held
  replies _ _ e _ e' mute replied held :=
    keeps e.1 e'.1 (answer_still mute (Machine.under_answer_iff.mp (Machine.watched_answer_iff.mp replied).1).2) held
  holds op _ _ mute _ := by
    rintro rfl
    exact absurd rfl (mute _ rfl)

theorem listens_once (absent : e.1.ipc = .absent) : main.wp (beside digest) once (fun _ _ _ => True) m e := by
  have unborn := @once_frame digest (fun k => k.ipc = .absent) fun _ _ same absent => same.trans absent
  have whatever := @once_frame digest (fun _ => True) fun _ _ _ _ => trivial
  refine wp_bind_frame unborn (muted_of_gentle (gentle_of_plain prepare_plain)) absent fun cfg m e absent => ?_
  refine wp_bind_frame unborn guardSignals_muted absent fun _ m e absent => ?_
  refine wp_then (R := fun _ _ _ => True) ?_ fun _ m e _ => ?_
  · refine (wp_bind _ _ _ _ _).mpr (wp_perform (P := fun e => e.1.ipc = .absent) absent ?_ ?_ ?_)
    · exact fun _ _ moved absent => (still_moves moved).trans absent
    · exact fun _ absent _ => absent
    · exact fun _ _ _ _ _ => wp_frame whatever (booted_muted cfg) trivial
  · refine wp_bind_frame whatever (muted_call (by simp [Mute])) trivial fun unblocked m e _ => ?_
    refine wp_bind_frame whatever (muted_of_gentle (gentle_of_plain (orElseLog_plain fun _ => rfl))) trivial ?_
    exact fun _ m e _ => wp_frame whatever (runEventLoop_muted _) trivial

end Main

section Runs

def client : (op : Op) → Unit → Kernel → op.Ans
  | .createDirAll _, _, _ => .ok ()
  | .bind _, _, _ => .ok ()
  | .accept, _, _ => .ok ()
  | .tryClone, _, _ => true
  | .ipc .readLine, _, _ => some "LAUNCH /bin/app --fast\n".toList
  | .ipc .snapshot, _, _ => (0,"")
  | .ipc .now, _, k => k.clock
  | .ipc .lastTargets, _, _ => ("",[])
  | .ipc (.launch _ _), _, _ => .error ""
  | .ipc .apps, _, _ => ""
  | .ipc (.recent _), _, _ => []
  | .ipc (.store _), _, _ | .ipc (.sleep _), _, _ | .ipc (.requestIsolate _), _, _ | .ipc (.writeAll _), _, _ => ()
  | .app (.read _), _, _ => .ok ByteArray.empty
  | .app .connect, _, _ | .app (.writeAll _), _, _ => false
  | .app .readToString, _, _ => none
  | .app .nextSeq, _, _ => 1
  | .app .unixTime, _, k => k.clock
  | .app .prepareSandbox, _, _ => ⟨40⟩
  | .app .term, _, _ => none
  | .app (.spawn _), _, k => .ok k.freePid
  | .app (.log _ _), _, _ | .app (.prepareIntermediate _), _, _ | .app (.createUnder _ _ _), _, _ => ()
  | .app (.attachUnder _ _ _), _, _ | .app (.register _), _, _ => ()
  | .begun, _, _ | .removeFile _, _, _ | .setPermissions _ _, _, _ | .log _ _, _, _ => ()

def accepts : Op → Bool
  | .accept => true
  | _ => false

def registered : Op → Option AppInfo
  | .app (.register info) => some info
  | _ => none

def booted : Option (State Memory MitosServices.Op MitosServices.Op.Ans (Kernel × Phase) Unit) :=
  drive ((Kernel.machine.under outside).watched unmoved)
    (fun op m e => Kernel.obliging (fun _ => true) Config.default op m e.1)
    [.upTo (· == .waitpid .any false) 300] ⟨main,{},(Masks.newProcess {},.waiting)⟩

def served (e : Kernel × Phase) : Option (State Unit Op Op.Ans (Kernel × Phase) Unit) :=
  drive (machine.watched (phases id)) (fun op n e => client op n e.1)
    [.upTo accepts 40,.step,.upTo (fun op => (registered op).isSome) 60] ⟨listener id,(),e⟩

theorem registers_of_registered {op : Op} {info : AppInfo} (found : registered op = some info) :
    op = .app (.register info) := by
  unfold registered at found
  split at found
  · cases found
    rfl
  · contradiction

end Runs

end MitosServices.Server
