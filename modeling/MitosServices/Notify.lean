import MitosServices.LoopRule
import MitosServices.Starts
import MitosServices.Text

/-! The notify sockets: one with a listener thread for each instance of a service, and what the
threads record, all of it under the service's name. -/
namespace MitosServices.Notify
open Interaction Interaction.Program

inductive Mark
  | ready
  | ping
deriving DecidableEq, Repr

structure Ping where
  time : Nat
  sender : Nat
deriving DecidableEq, Repr

/-- What is recorded under each name, with the instances whose datagrams it comes from. The source
keeps whether there is a `READY=1` and when the last `WATCHDOG=1` was. -/
structure ReadyState where
  ready : String → List Nat := fun _ => []
  watchdogPings : String → Option Ping := fun _ => none

namespace ReadyState

def isReady (s : ReadyState) (name : String) : Bool := !(s.ready name).isEmpty

def lastPing (s : ReadyState) (name : String) : Option Nat := (s.watchdogPings name).map Ping.time

def markReady (s : ReadyState) (name : String) (sender : Nat) : ReadyState :=
  { s with ready := Function.update s.ready name (sender :: s.ready name) }

def markPing (s : ReadyState) (name : String) (time sender : Nat) : ReadyState :=
  { s with watchdogPings := Function.update s.watchdogPings name (some ⟨time,sender⟩) }

/-- The source locks the two records one after the other; nothing reads both. -/
def forget (s : ReadyState) (name : String) : ReadyState where
  ready := Function.update s.ready name []
  watchdogPings := Function.update s.watchdogPings name none

end ReadyState

section Lines

def markOf (line : List Char) : Option Mark :=
  if line = "READY=1".toList then some .ready
  else if line = "WATCHDOG=1".toList then some .ping
  else none

/-- What the lines of a datagram ask for. The buffer has 4096 bytes, and what is not UTF-8 is skipped. -/
def marksOf (payload : ByteArray) : List Mark :=
  ((Text.decode (payload.extract 0 4096)).elim [] Text.lines).filterMap markOf

end Lines

structure Datagram where
  sender : Nat
  payload : ByteArray

/-- A socket and its listener thread, which may be in the middle of a datagram's lines. Neither goes
away when the socket's path is unlinked. -/
structure Socket where
  name : String
  queue : List Datagram
  pending : List (Mark × Nat)

def Socket.waiting (s : Socket) : List (Mark × Nat) :=
  s.pending ++ s.queue.flatMap fun d => (marksOf d.payload).map fun mark => (mark,d.sender)

/-- `instances` has the name and the pid of every instance so far, and `current` the one started
last under a name, until the name is forgotten. -/
structure Post where
  clock : Nat := 0
  state : ReadyState := {}
  sockets : List Socket := []
  instances : List (String × Int) := []
  current : String → Option Nat := fun _ => none

/-- A datagram may be sent by any process left of any instance, and to any socket. -/
inductive Event
  | tick (elapsed : Nat)
  | send (sender socket : Nat) (payload : ByteArray)
  | receive (socket : Nat)
  | handle (socket : Nat)

namespace Post

def setSocket (e : Post) (socket : Nat) (s : Socket) : Post :=
  { e with sockets := e.sockets.set socket s }

def marked (e : Post) (name : String) : Mark → Nat → ReadyState
  | .ready, sender => e.state.markReady name sender
  | .ping, sender => e.state.markPing name e.clock sender

def launched (e : Post) (name : String) (pid : Int) : Post :=
  { e with
    instances := e.instances ++ [(name,pid)]
    current := Function.update e.current name (some e.instances.length) }

def stir : Event → Op → Memory → Post → Option Post
  | .tick elapsed, _, _, e => some { e with clock := e.clock + elapsed }
  | .send sender socket payload, _, _, e =>
    if sender < e.instances.length then
      (e.sockets[socket]?).map fun s =>
        e.setSocket socket { s with queue := s.queue ++ [⟨sender,payload⟩] }
    else none
  | .receive socket, _, _, e => (e.sockets[socket]?).bind fun s => match s.pending, s.queue with
    | [], d :: rest => some (e.setSocket socket { s with
        queue := rest
        pending := (marksOf d.payload).map fun mark => (mark,d.sender) })
    | _, _ => none
  | .handle socket, _, _, e => (e.sockets[socket]?).bind fun s => match s.pending with
    | (mark,sender) :: rest =>
      some { e.setSocket socket { s with pending := rest } with state := e.marked s.name mark sender }
    | [] => none

def answer : (op : Op) → Memory → Post → op.Ans → Option Post
  | .now, _, e, t => if t = e.clock then some e else none
  | .isReady name, _, e, ready => if ready = e.state.isReady name then some e else none
  | .lastPing name, _, e, time => if time = e.state.lastPing name then some e else none
  | .forget name, _, e, _ =>
    some { e with state := e.state.forget name, current := Function.update e.current name none }
  | .listenFor name _ _, _, e, path =>
    some (if path.isSome then { e with sockets := e.sockets ++ [⟨name,[],[]⟩] } else e)
  | .spawn origin _, _, e, .ok pid => some ((startedAs origin).elim e fun name => e.launched name pid)
  | .iterate entries, _, e, visited => if visited.Perm entries then some e else none
  | .panic, _, _, _ => none
  | _, _, e, _ => some e

def machine : Machine Memory Op Op.Ans Post Event where
  stir := stir
  answer := answer

end Post

def Sourced (e : Post) : Prop :=
  ∀ name, (∀ sender ∈ e.state.ready name, e.current name = some sender) ∧
    ∀ ping, e.state.watchdogPings name = some ping → e.current name = some ping.sender

def TrackedBut (apart : Option String) (m : Memory) (e : Post) : Prop :=
  ∀ name i, apart ≠ some name → e.current name = some i → ∃ pid sup,
    e.instances[i]? = some (name,pid) ∧ m.services.lookup pid = some sup ∧ sup.definition.name = name

abbrev Tracked (m : Memory) (e : Post) : Prop := TrackedBut none m e

namespace Post

def drained (e : Post) (name : String) : Bool :=
  e.sockets.all fun s => s.name != name || s.waiting.isEmpty

def unrecorded (e : Post) (name : String) : Bool :=
  (e.state.ready name).isEmpty && (e.state.watchdogPings name).isNone

end Post

/-- Only the current instance of a socket's name sends it marks, and they are all recorded before the
name is forgotten. A rescue shell finds nothing under its name, and no instance gets a pid that is
still in the table. -/
def loyal : Condition Memory Op Op.Ans Post Event where
  event
    | .send sender socket payload, _, _, e => (marksOf payload).isEmpty ||
        (e.sockets[socket]?).all fun s => e.current s.name == some sender
    | _, _, _, _ => true
  reply
    | .forget name, _, e, _ => e.drained name
    | .spawn origin _, m, e, .ok pid => (startedAs origin).isNone || (m.services.lookup pid).isNone &&
        (origin != .rescue || e.drained fallbackShell.name && e.unrecorded fallbackShell.name)
    | _, _, _, _ => true

abbrev surroundings : Surroundings Memory Op Op.Ans Post := (Post.machine.under loyal).surroundings

section Records
variable {e e' : Post} {name : String} {op : Op} {m : Memory} {ev : Event}

/-- What is recorded comes from current instances, and so does what is still to be recorded. -/
structure Kept (e : Post) : Prop where
  sourced : Sourced e
  waiting : ∀ s ∈ e.sockets, ∀ w ∈ s.waiting, e.current s.name = some w.2

theorem update_apply {β : Type} (f : String → β) (name other : String) (b : β) :
    Function.update f name b other = if other = name then b else f other := Function.update_apply _ _ _ _

theorem kept_setSocket {socket : Nat} {s : Socket} (kept : Kept e)
    (fits : ∀ w ∈ s.waiting, e.current s.name = some w.2) : Kept (e.setSocket socket s) where
  sourced := kept.sourced
  waiting s' member := by
    rcases List.mem_or_eq_of_mem_set member with before | rfl
    · exact kept.waiting s' before
    · exact fits

theorem sourced_marked {mark : Mark} {sender : Nat} (sourced : Sourced e)
    (current : e.current name = some sender) :
    Sourced { e with state := e.marked name mark sender } := by
  intro other
  obtain ⟨readies,pings⟩ := sourced other
  cases mark with
  | ready =>
    refine ⟨?_,pings⟩
    intro i member
    simp only [Post.marked,ReadyState.markReady,update_apply] at member
    split at member
    · rename_i same
      subst same
      rcases List.mem_cons.mp member with rfl | before
      · exact current
      · exact readies i before
    · exact readies i member
  | ping =>
    refine ⟨readies,?_⟩
    intro ping found
    simp only [Post.marked,ReadyState.markPing,update_apply] at found
    split at found
    · rename_i same
      subst same
      cases found
      exact current
    · exact pings ping found

/-- No event changes which instances there are. -/
theorem stir_instances (stirred : Post.stir ev op m e = some e') :
    e'.instances = e.instances ∧ e'.current = e.current := by
  cases ev with
  | tick elapsed =>
    cases Option.some.inj stirred
    exact ⟨rfl,rfl⟩
  | send sender socket payload =>
    simp only [Post.stir,Option.ite_none_right_eq_some,Option.map_eq_some_iff] at stirred
    obtain ⟨-,s,-,rfl⟩ := stirred
    exact ⟨rfl,rfl⟩
  | receive socket =>
    obtain ⟨s,-,receives⟩ := Option.bind_eq_some_iff.mp stirred
    split at receives
    · cases Option.some.inj receives
      exact ⟨rfl,rfl⟩
    · contradiction
  | handle socket =>
    obtain ⟨s,-,handles⟩ := Option.bind_eq_some_iff.mp stirred
    split at handles
    · cases Option.some.inj handles
      exact ⟨rfl,rfl⟩
    · contradiction

theorem kept_stir (stirred : (Post.machine.under loyal).stir ev op m e = some e') (kept : Kept e) :
    Kept e' := by
  obtain ⟨allowed,stirred⟩ := Machine.under_stir_iff.mp stirred
  cases ev with
  | tick elapsed =>
    cases Option.some.inj stirred
    exact ⟨kept.sourced,kept.waiting⟩
  | send sender socket payload =>
    simp only [Post.machine,Post.stir,Option.ite_none_right_eq_some,Option.map_eq_some_iff] at stirred
    obtain ⟨-,s,found,rfl⟩ := stirred
    apply kept_setSocket kept
    intro w member
    simp only [Socket.waiting,List.flatMap_append,List.flatMap_singleton,← List.append_assoc] at member
    rcases List.mem_append.mp member with before | sent
    · exact kept.waiting s (List.mem_of_getElem? found) w before
    · obtain ⟨mark,there,rfl⟩ := List.mem_map.mp sent
      simp only [loyal,found,Option.all_some,Bool.or_eq_true,List.isEmpty_iff,beq_iff_eq] at allowed
      apply allowed.resolve_left
      intro none
      rw [none] at there
      contradiction
  | receive socket =>
    obtain ⟨s,found,receives⟩ := Option.bind_eq_some_iff.mp stirred
    split at receives
    · rename_i d rest idle queued
      cases Option.some.inj receives
      apply kept_setSocket kept
      intro w member
      apply kept.waiting s (List.mem_of_getElem? found) w
      simpa only [Socket.waiting,idle,queued,List.nil_append,List.flatMap_cons] using member
    · contradiction
  | handle socket =>
    obtain ⟨s,found,handles⟩ := Option.bind_eq_some_iff.mp stirred
    split at handles
    · rename_i mark sender rest busy
      cases Option.some.inj handles
      have member := List.mem_of_getElem? found
      have next : e.current s.name = some sender := by
        apply kept.waiting s member (mark,sender)
        simp [Socket.waiting,busy]
      have left : Kept (e.setSocket socket { s with pending := rest }) := by
        apply kept_setSocket kept
        intro w still
        apply kept.waiting s member w
        simp only [Socket.waiting,busy,List.cons_append] at still ⊢
        exact List.mem_cons_of_mem _ still
      exact ⟨sourced_marked kept.sourced next,left.waiting⟩
    · contradiction

theorem mem_drained (drained : e.drained name = true) {s : Socket} (member : s ∈ e.sockets)
    (named : s.name = name) : s.waiting = [] := by
  have clear := List.all_eq_true.mp drained s member
  simpa [named] using clear

theorem kept_forget (kept : Kept e) (drained : e.drained name = true) :
    Kept { e with state := e.state.forget name, current := Function.update e.current name none } where
  sourced other := by
    obtain ⟨readies,pings⟩ := kept.sourced other
    simp only [ReadyState.forget,update_apply]
    split
    · exact ⟨by simp,by simp⟩
    · exact ⟨readies,pings⟩
  waiting s member w still := by
    dsimp only
    rw [update_apply]
    split
    · rename_i named
      rw [mem_drained drained member named] at still
      contradiction
    · exact kept.waiting s member w still

theorem kept_launched {pid : Int} (kept : Kept e) (drained : e.drained name = true)
    (unrecorded : e.unrecorded name = true) : Kept (e.launched name pid) where
  sourced other := by
    obtain ⟨readies,pings⟩ := kept.sourced other
    simp only [Post.launched,update_apply]
    split
    · rename_i same
      subst same
      simp only [Post.unrecorded,Bool.and_eq_true,List.isEmpty_iff,Option.isNone_iff_eq_none] at unrecorded
      simp [unrecorded.1,unrecorded.2]
    · exact ⟨readies,pings⟩
  waiting s member w still := by
    simp only [Post.launched,update_apply]
    split
    · rename_i named
      rw [mem_drained drained member named] at still
      contradiction
    · exact kept.waiting s member w still

/-- Where no instance is current nothing is recorded or waiting. -/
theorem clear_of_kept (kept : Kept e) (vacant : e.current name = none) :
    e.drained name = true ∧ e.unrecorded name = true := by
  obtain ⟨readies,pings⟩ := kept.sourced name
  constructor
  · refine List.all_eq_true.mpr fun s member => ?_
    simp only [Bool.or_eq_true,bne_iff_ne,List.isEmpty_iff]
    by_cases named : s.name = name
    · refine .inr (List.eq_nil_iff_forall_not_mem.mpr fun w still => ?_)
      have current := kept.waiting s member w still
      rw [named,vacant] at current
      contradiction
    · exact .inl named
  · simp only [Post.unrecorded,Bool.and_eq_true,List.isEmpty_iff,Option.isNone_iff_eq_none]
    constructor
    · refine List.eq_nil_iff_forall_not_mem.mpr fun i member => ?_
      have current := readies i member
      rw [vacant] at current
      contradiction
    · refine Option.eq_none_iff_forall_ne_some.mpr fun ping found => ?_
      have current := pings ping found
      rw [vacant] at current
      contradiction

end Records

section Steps
variable {e e' : Post} {name : String} {op : Op} {m : Memory} {d : ServiceDef} {times : List Nat}

/-- Only three calls concern the sockets and the instances: a forget, a new socket and a spawn. -/
theorem replies_cases {r : op.Ans} (unspawned : ∀ origin command, op ≠ .spawn origin command)
    (replied : surroundings.replies op m e r e') : e' = e ∨
      (∃ name, op = .forget name ∧ e.drained name = true ∧
        e' = { e with state := e.state.forget name, current := Function.update e.current name none }) ∨
      ∃ name uid gid, op = .listenFor name uid gid ∧
        e' = { e with sockets := e.sockets ++ [⟨name,[],[]⟩] } := by
  obtain ⟨allowed,answered⟩ := Machine.under_answer_iff.mp replied
  cases op with
  | spawn origin command => exact absurd rfl (unspawned origin command)
  | now | isReady _ | lastPing _ | iterate _ =>
    simp only [Post.machine,Post.answer,Option.ite_none_right_eq_some,Option.some.injEq] at answered
    exact .inl answered.2.symm
  | forget name =>
    cases Option.some.inj answered
    exact .inr (.inl ⟨name,rfl,allowed,rfl⟩)
  | listenFor name uid gid =>
    simp only [Post.machine,Post.answer,Option.some.injEq] at answered
    subst answered
    split
    · exact .inr (.inr ⟨name,uid,gid,rfl,rfl⟩)
    · exact .inl rfl
  | panic => contradiction
  | _ => exact .inl (Option.some.inj answered).symm

theorem replies_refused {origin : Origin} {command : Command} {err : String}
    (replied : surroundings.replies (.spawn origin command) m e (.error err) e') : e' = e :=
  (Option.some.inj (Machine.under_answer_iff.mp replied).2).symm

theorem replies_spawned {origin : Origin} {command : Command} {pid : Int}
    (started : startedAs origin = some name)
    (replied : surroundings.replies (.spawn origin command) m e (.ok pid) e') :
    e' = e.launched name pid ∧ m.services.lookup pid = none ∧
      (origin = .rescue → e.drained name = true ∧ e.unrecorded name = true) := by
  obtain ⟨allowed,answered⟩ := Machine.under_answer_iff.mp replied
  simp only [Post.machine,Post.answer,started,Option.elim_some,Option.some.injEq] at answered
  simp only [loyal,started,Option.isNone_some,Bool.false_or,Bool.and_eq_true,Bool.or_eq_true,
    Option.isNone_iff_eq_none,bne_iff_ne] at allowed
  refine ⟨answered.symm,allowed.1,?_⟩
  rintro rfl
  cases Option.some.inj started
  exact allowed.2.resolve_left (by simp)

theorem replies_unstarted {origin : Origin} {command : Command} {r : Except String Int}
    (apart : startedAs origin = none) (replied : surroundings.replies (.spawn origin command) m e r e') :
    e' = e := by
  cases r with
  | error err => exact replies_refused replied
  | ok pid =>
    have answered := (Machine.under_answer_iff.mp replied).2
    simp only [Post.machine,Post.answer,apart,Option.elim_none,Option.some.injEq] at answered
    exact answered.symm

abbrev asked (_ : Option Op) (_ : Memory) (e : Post) : Prop := Sourced e

theorem kept_replies {r : op.Ans} (unspawned : ∀ origin command, op ≠ .spawn origin command)
    (replied : surroundings.replies op m e r e') (kept : Kept e) : Kept e' := by
  rcases replies_cases unspawned replied with rfl | ⟨name,-,drained,rfl⟩ | ⟨name,uid,gid,-,rfl⟩
  · exact kept
  · exact kept_forget kept drained
  · refine ⟨kept.sourced,fun s member w still => ?_⟩
    rcases List.mem_append.mp member with before | new
    · exact kept.waiting s before w still
    · cases List.mem_singleton.mp new
      contradiction

theorem kept_moves (moved : surroundings.moves op m e e') (kept : Kept e) : Kept e' := by
  obtain ⟨ev,stirred⟩ := moved
  exact kept_stir stirred kept

theorem moves_instances (moved : surroundings.moves op m e e') :
    e'.instances = e.instances ∧ e'.current = e.current := by
  obtain ⟨ev,stirred⟩ := moved
  exact stir_instances (Machine.under_stir_iff.mp stirred).2

/-- Plain calls make no instance current. -/
theorem replies_vacant {r : op.Ans} (unspawned : ∀ origin command, op ≠ .spawn origin command)
    (replied : surroundings.replies op m e r e') :
    e'.instances = e.instances ∧ ∀ name, e'.current name = e.current name ∨ e'.current name = none := by
  rcases replies_cases unspawned replied with rfl | ⟨other,-,-,rfl⟩ | ⟨other,uid,gid,-,rfl⟩
  · exact ⟨rfl,fun name => .inl rfl⟩
  · refine ⟨rfl,fun name => ?_⟩
    dsimp only
    rw [update_apply]
    split
    · exact .inr rfl
    · exact .inl rfl
  · exact ⟨rfl,fun name => .inl rfl⟩

theorem unspawned_of_quiet (quiet : op.quiet = true) : ∀ origin command, op ≠ .spawn origin command := by
  rintro origin command rfl
  contradiction

def Vacant (name : String) (e : Post) : Prop := Kept e ∧ e.current name = none

theorem kept_steady : Steady surroundings asked fun _ => Kept where
  moves _ _ _ _ moved kept := kept_moves moved kept
  replies _ _ _ _ _ quiet replied kept := kept_replies (unspawned_of_quiet quiet) replied kept
  holds _ _ _ _ kept := kept.sourced

theorem vacant_steady : Steady surroundings asked fun _ => Vacant name where
  moves _ _ _ _ moved vacant := by
    refine ⟨kept_moves moved vacant.1,?_⟩
    rw [(moves_instances moved).2]
    exact vacant.2
  replies _ _ _ _ _ quiet replied vacant := by
    have unspawned := unspawned_of_quiet quiet
    refine ⟨kept_replies unspawned replied vacant.1,?_⟩
    exact ((replies_vacant unspawned replied).2 name).elim (fun same => same.trans vacant.2) id
  holds _ _ _ _ vacant := vacant.1.sourced

theorem forgotten_vacant {r : Unit} (kept : Kept e)
    (replied : surroundings.replies (.forget name) m e r e') : Vacant name e' := by
  refine ⟨kept_replies (by simp) replied kept,?_⟩
  obtain ⟨-,answered⟩ := Machine.under_answer_iff.mp replied
  cases Option.some.inj answered
  exact Function.update_self _ _ _

theorem start_keeps : StartPhases surroundings asked d times (fun _ => Vacant d.name)
    (fun _ _ => Kept) (fun _ => Kept) (fun _ _ => Kept) (fun _ => Kept) where
  before_steady := vacant_steady
  spawned_steady _ := kept_steady
  failed_steady := kept_steady
  rescue_steady _ := kept_steady
  child command pid m e e' vacant replied := by
    obtain ⟨rfl,-,-⟩ := replies_spawned rfl replied
    obtain ⟨drained,unrecorded⟩ := clear_of_kept vacant.1 vacant.2
    exact kept_launched vacant.1 drained unrecorded
  refused command err m e e' vacant replied := by
    rw [replies_refused replied]
    exact vacant.1
  shell command pid m e e' kept _ replied := by
    obtain ⟨rfl,-,clear⟩ := replies_spawned rfl replied
    exact kept_launched kept (clear rfl).1 (clear rfl).2
  noShell command err m e e' kept _ replied := by
    rw [replies_refused replied]
    exact kept
  tracked _ _ _ _ kept := kept
  trackedShell _ _ _ _ kept := kept
  missed _ _ kept _ := kept

theorem kept_initial : Kept ({} : Post) where
  sourced name := ⟨by simp,by simp⟩
  waiting s member := by simp at member

/-- Through the whole program what is recorded comes from current instances. -/
theorem wp_main_sourced (m : Memory) : main.wp surroundings asked (fun _ _ => Kept) m {} := by
  refine wp_made ⟨?_,?_,?_,?_⟩ ?_ main_startsWhole kept_initial
  · exact fun _ _ _ _ kept => kept
  · exact fun op m e e' _ moved kept => kept_moves moved kept
  · intro op m e r e' unstarted replied kept
    cases op with
    | spawn origin command =>
      have apart := startedAs_of_unstarted unstarted
      rw [replies_unstarted apart replied]
      exact kept
    | _ => exact kept_replies (by simp) replied kept
  · exact fun _ _ _ _ kept => kept.sourced
  · rintro _ ⟨d,times,rfl⟩ m e kept
    refine wp_spawnCleared kept_steady ?_ start_keeps kept
    exact fun m e r e' kept replied => forgotten_vacant kept replied

end Steps

section Tracking
variable {e e' : Post} {name : String} {apart : Option String} {op : Op} {m : Memory} {pid : Int}
  {d : ServiceDef} {sup : Supervised} {times : List Nat}

def askedTurning (op : Option Op) (m : Memory) (e : Post) : Prop :=
  op = some (.swap .rebootRequested) → Tracked m e

theorem unasked {op : Option Op} (other : op ≠ some (.swap .rebootRequested)) : askedTurning op m e :=
  fun turning => absurd turning other

theorem trackedBut_weaken (tracked : Tracked m e) : TrackedBut apart m e :=
  fun name i _ current => tracked name i (by simp) current

/-- Names may be forgotten, as long as no instance becomes current. -/
theorem trackedBut_vacated (tracked : TrackedBut apart m e) (instances : e'.instances = e.instances)
    (vacated : ∀ name, e'.current name = e.current name ∨ e'.current name = none) :
    TrackedBut apart m e' := by
  intro name i other current
  rw [instances]
  apply tracked name i other
  rcases vacated name with same | vacant
  · rwa [same] at current
  · rw [vacant] at current
    contradiction

theorem trackedBut_moves (moved : surroundings.moves op m e e') (tracked : TrackedBut apart m e) :
    TrackedBut apart m e' := by
  obtain ⟨instances,current⟩ := moves_instances moved
  exact trackedBut_vacated tracked instances fun name => .inl (congrFun current name)

theorem trackedBut_replies {r : op.Ans} (unspawned : ∀ origin command, op ≠ .spawn origin command)
    (replied : surroundings.replies op m e r e') (tracked : TrackedBut apart m e) :
    TrackedBut apart m e' := by
  obtain ⟨instances,vacated⟩ := replies_vacant unspawned replied
  exact trackedBut_vacated tracked instances vacated

theorem trackedBut_steady : Steady surroundings askedTurning (TrackedBut apart) where
  moves _ _ _ _ moved tracked := trackedBut_moves moved tracked
  replies _ _ _ _ _ quiet replied tracked :=
    trackedBut_replies (unspawned_of_quiet quiet) replied tracked
  holds op m e mild _ := by
    apply unasked
    rintro rfl
    exact absurd (mild _ rfl) (by decide)

/-- Once the name is forgotten there is nothing under it to be tracked. -/
theorem tracked_forgotten {r : Unit} (tracked : TrackedBut (some name) m e)
    (replied : surroundings.replies (.forget name) m e r e') : Tracked m e' := by
  obtain ⟨-,answered⟩ := Machine.under_answer_iff.mp replied
  cases Option.some.inj answered
  intro other i _ current
  dsimp only at current ⊢
  rw [update_apply] at current
  split at current
  · contradiction
  · rename_i differs
    exact tracked other i (by simpa using Ne.symm differs) current

structure Entering (name : String) (pid : Int) (m : Memory) (e : Post) : Prop where
  others : TrackedBut (some name) m e
  mine : ∀ i, e.current name = some i → e.instances[i]? = some (name,pid)
  free : m.services.lookup pid = none

theorem entering_steady : Steady surroundings askedTurning (Entering name pid) where
  moves op m e e' moved entering := by
    obtain ⟨instances,current⟩ := moves_instances moved
    refine ⟨trackedBut_moves moved entering.others,?_,entering.free⟩
    rw [instances,current]
    exact entering.mine
  replies op m e r e' quiet replied entering := by
    have unspawned := unspawned_of_quiet quiet
    obtain ⟨instances,vacated⟩ := replies_vacant unspawned replied
    refine ⟨trackedBut_replies unspawned replied entering.others,fun i current => ?_,entering.free⟩
    rw [instances]
    apply entering.mine
    rcases vacated name with same | vacant
    · rwa [same] at current
    · rw [vacant] at current
      contradiction
  holds op m e mild entering := trackedBut_steady.holds op m e mild entering.others

theorem entering_launched (tracked : Tracked m e) (free : m.services.lookup pid = none) :
    Entering name pid m (e.launched name pid) where
  free := free
  mine i current := by
    simp only [Post.launched,update_apply,if_true,Option.some.injEq] at current
    subst current
    exact List.getElem?_concat_length
  others other i differs current := by
    have apart : other ≠ name := by
      rintro rfl
      exact differs rfl
    simp only [Post.launched,update_apply,if_neg apart] at current
    obtain ⟨pid',sup,listed,there,named⟩ := tracked other i (by simp) current
    refine ⟨pid',sup,?_,there,named⟩
    obtain ⟨bound,-⟩ := List.getElem?_eq_some_iff.mp listed
    exact (List.getElem?_append_left bound).trans listed

theorem tracked_entered (entering : Entering name pid m e) (named : sup.definition.name = name) :
    Tracked (withService m pid sup) e := by
  intro other i _ current
  by_cases same : other = name
  · subst same
    exact ⟨pid,sup,entering.mine i current,AList.lookup_insert _,named⟩
  · obtain ⟨pid',sup',listed,there,belongs⟩ := entering.others other i (by simpa using Ne.symm same) current
    refine ⟨pid',sup',listed,lookup_insert_iff.mpr (.inr ⟨?_,there⟩),belongs⟩
    rintro rfl
    rw [entering.free] at there
    contradiction

theorem start_tracks : StartPhases surroundings askedTurning d times Tracked (Entering d.name)
    Tracked (Entering fallbackShell.name) Tracked where
  before_steady := trackedBut_steady
  spawned_steady _ := entering_steady
  failed_steady := trackedBut_steady
  rescue_steady _ := entering_steady
  child command pid m e e' tracked replied := by
    obtain ⟨rfl,free,-⟩ := replies_spawned rfl replied
    exact entering_launched tracked free
  refused command err m e e' tracked replied := by
    rw [replies_refused replied]
    exact tracked
  shell command pid m e e' tracked _ replied := by
    obtain ⟨rfl,free,-⟩ := replies_spawned rfl replied
    exact entering_launched tracked free
  noShell command err m e e' tracked _ replied := by
    rw [replies_refused replied]
    exact tracked
  tracked _ _ _ _ entering := tracked_entered entering rfl
  trackedShell _ _ _ _ entering := tracked_entered entering rfl
  missed _ _ tracked _ := tracked

theorem wp_start_tracks (start : TrackedBut (some d.name) m e) :
    (spawnWithHistory d times).wp surroundings askedTurning (fun _ => Tracked) m e := by
  refine wp_spawnCleared trackedBut_steady ?_ start_tracks start
  exact fun m e r e' tracked replied => tracked_forgotten tracked replied

theorem trackedBut_struck (tracked : Tracked m e) (found : m.services.lookup pid = some sup) :
    TrackedBut (some sup.definition.name) (withoutService m pid) e := by
  intro other i differs current
  obtain ⟨pid',sup',listed,there,named⟩ := tracked other i (by simp) current
  refine ⟨pid',sup',listed,lookup_erase_iff.mpr ⟨?_,there⟩,named⟩
  rintro rfl
  rw [found] at there
  cases there
  exact differs (congrArg some named)

theorem wp_stop_tracks (pid : Int) (name : String) (start : TrackedBut apart m e) :
    (stopOne pid name).wp surroundings askedTurning (fun _ => TrackedBut apart) m e := by
  refine wp_stopOne (.uniform trackedBut_steady ?_ ?_) start
  · exact fun sig m e _ => unasked (by simp)
  · exact fun status m e e' tracked replied => trackedBut_replies (by simp) replied tracked

theorem wp_bind_forget {β : Type} {next : Unit → Code β} {Q : β → Memory → Post → Prop}
    (start : TrackedBut (some name) m e)
    (rest : ∀ e, Tracked m e → (next ()).wp surroundings askedTurning Q m e) :
    (forget name >>= next).wp surroundings askedTurning Q m e := by
  refine wp_bind_perform trackedBut_steady start (fun m e _ => unasked (by simp)) ?_
  exact fun e r e' tracked replied => rest e' (tracked_forgotten tracked replied)

theorem wp_stopRemoved_tracks (pid : Int) (start : Tracked m e) :
    (stopRemoved pid).wp surroundings askedTurning (fun _ => Tracked) m e := by
  refine wp_bind_removeService (unasked (by simp)) ?_
  cases found : m.services.lookup pid with
  | none =>
    rw [withoutService_untracked found]
    exact start
  | some sup =>
    have struck := trackedBut_struck start found
    refine wp_bind_steady trackedBut_steady (plain_call rfl) struck fun _ m e logged => ?_
    refine wp_then (wp_stop_tracks pid _ logged) fun _ m e stopped => ?_
    refine wp_steady_perform trackedBut_steady stopped (fun m e _ => unasked (by simp)) ?_
    exact fun e r e' tracked replied => tracked_forgotten tracked replied

theorem wp_replace_tracks (start : Tracked m e) (found : m.services.lookup pid = some sup)
    (named : sup.definition.name = d.name) :
    (replace pid d).wp surroundings askedTurning (fun _ => Tracked) m e := by
  refine wp_bind_steady (steady_memory_and trackedBut_steady m) (plain_call rfl) ⟨start,rfl⟩
    fun _ m' e logged => ?_
  obtain ⟨tracked,rfl⟩ := logged
  refine wp_bind_removeService (unasked (by simp)) ?_
  have struck := trackedBut_struck tracked found
  rw [named] at struck
  refine wp_then (wp_stop_tracks pid d.name struck) fun _ m e stopped => ?_
  exact wp_start_tracks stopped

theorem visits : Visits surroundings := by
  intro listed m e visited e' replied
  have answered := (Machine.under_answer_iff.mp replied).2
  simp only [Post.machine,Post.answer,Option.ite_none_right_eq_some] at answered
  exact answered.1

theorem wp_reconcileOne_tracks (d : ServiceDef) (start : Tracked m e) :
    (reconcileOne d).wp surroundings askedTurning (fun _ => Tracked) m e := by
  refine wp_bind_read (unasked (by simp)) ?_
  refine wp_bind_entries (steady_memory_and trackedBut_steady m) visits ⟨start,rfl⟩
    fun visited e visit held => ?_
  split
  · rename_i pid sup found
    obtain ⟨there,named⟩ := Services.find_visited visit found
    split
    · exact held.1
    · exact wp_then (wp_replace_tracks held.1 there named) fun _ m e tracked => tracked
  · refine wp_bind_steady trackedBut_steady (plain_call rfl) held.1 fun _ m e logged => ?_
    exact wp_then (wp_start_tracks (trackedBut_weaken logged)) fun _ m e tracked => tracked

theorem wp_reconcile_tracks (touched : List String) (defs : List ServiceDef) (start : Tracked m e) :
    (reconcile touched defs).wp surroundings askedTurning (fun _ => Tracked) m e := by
  induction defs generalizing touched m e with
  | nil => exact start
  | cons d rest ih =>
    exact wp_then (wp_reconcileOne_tracks d start) fun changed m e tracked => ih _ tracked

theorem wp_reloadServices_tracks (defs : List ServiceDef) (start : Tracked m e) :
    (reloadServices defs).wp surroundings askedTurning (fun _ => Tracked) m e := by
  refine wp_bind_read (unasked (by simp)) ?_
  refine wp_bind_entries trackedBut_steady visits start fun visited e visit tracked => ?_
  refine wp_then (wp_each (fun _ => Tracked) tracked ?_) ?_
  · exact fun pid rest m e tracked => wp_stopRemoved_tracks pid tracked
  · exact fun _ m e tracked => wp_reconcile_tracks [] defs tracked

theorem wp_handleExit_tracks (status : WaitStatus) (start : Tracked m e) :
    (handleExit status).wp surroundings askedTurning (fun _ => Tracked) m e := by
  cases status with
  | stillAlive => exact start
  | other => exact start
  | ended pid ending =>
    refine wp_bind_removeService (unasked (by simp)) ?_
    cases found : m.services.lookup pid with
    | none =>
      rw [withoutService_untracked found]
      exact start
    | some sup =>
      have struck := trackedBut_struck start found
      refine wp_bind_perform trackedBut_steady struck (fun m e _ => unasked (by simp)) ?_
      intro e r e' struck replied
      have struck := trackedBut_replies (by simp) replied struck
      refine wp_bind_steady trackedBut_steady (plain_call rfl) struck fun _ m e swept => ?_
      refine wp_bind_forget swept fun e tracked => ?_
      split
      · exact tracked
      · split
        · refine wp_bind_steady trackedBut_steady (plain_call rfl) tracked fun t m e tracked => ?_
          dsimp only
          split
          · refine wp_bind_perform trackedBut_steady tracked (fun m e _ => unasked (by simp)) ?_
            exact fun e r e' tracked replied => trackedBut_replies (by simp) replied tracked
          · exact wp_then (wp_start_tracks (trackedBut_weaken tracked)) fun _ m e tracked => tracked
        · exact tracked

end Tracking

section Reloads

def SameServices (m m' : Memory) : Prop := m'.services = m.services

structure Apart (op : Op) : Prop where
  unstarted : op.starts = false
  turnless : op ≠ .swap .rebootRequested

abbrev ReloadsWhole {α : Type} (p : Code α) : Prop :=
  p.Made (fun p => ∃ defs, p = reloadServices defs) SameServices Apart

variable {m : Memory} {e : Post}

theorem reloading_reloadsWhole :
    Reloading (fun p => ∃ defs, p = reloadServices defs) SameServices Apart where
  reloads defs := made_part ⟨defs,rfl⟩
  calls _ unstarted turnless := ⟨unstarted,turnless⟩
  updates _ _ same := same

theorem tracked_replies {op : Op} {r : op.Ans} {e' : Post} (unstarted : op.starts = false)
    (replied : surroundings.replies op m e r e') (tracked : Tracked m e) : Tracked m e' := by
  cases op with
  | spawn origin command =>
    have apart := startedAs_of_unstarted unstarted
    rw [replies_unstarted apart replied]
    exact tracked
  | _ => exact trackedBut_replies (by simp) replied tracked

theorem tracked_same {m' : Memory} (same : m'.services = m.services) (tracked : Tracked m e) :
    Tracked m' e := by
  intro name i differs current
  rw [same]
  exact tracked name i differs current

theorem wp_reloadsWhole {α : Type} {p : Code α} (reloads : ReloadsWhole p) (start : Tracked m e) :
    p.wp surroundings askedTurning (fun _ => Tracked) m e := by
  refine wp_made ⟨?_,?_,?_,?_⟩ ?_ reloads start
  · exact fun m m' e same tracked => tracked_same same tracked
  · exact fun op m e e' _ moved tracked => trackedBut_moves moved tracked
  · exact fun op m e r e' allowed replied tracked => tracked_replies allowed.unstarted replied tracked
  · intro op m e allowed _
    apply unasked
    rintro rfl
    exact (allowed _ rfl).turnless rfl
  · rintro _ ⟨defs,rfl⟩ m e tracked
    exact wp_reloadServices_tracks defs tracked

theorem loop_tracks : LoopInvariant surroundings askedTurning Tracked Tracked where
  unasked _ _ _ other := unasked other
  head _ _ tracked _ := tracked
  pending _ _ _ moved tracked := trackedBut_moves moved tracked
  turned _ _ _ _ replied tracked := tracked_replies rfl replied tracked
  moves _ _ _ _ moved tracked := trackedBut_moves moved tracked
  replies _ _ _ _ _ _ unstarted _ replied tracked := tracked_replies unstarted replied tracked
  settles _ _ tracked := tracked
  timers m m' e written tracked := by
    unfold OnlyTimers at written
    rw [written]
    exact tracked
  reloads _ _ tracked := wp_reloadsWhole (handleReload_made reloading_reloadsWhole) tracked
  isolates _ _ tracked := wp_reloadsWhole (handleIsolate_made reloading_reloadsWhole) tracked
  exits status _ _ tracked := wp_handleExit_tracks status tracked
  resolves failedName _ _ tracked := wp_reloadsWhole (resolveWatch_made reloading_reloadsWhole failedName) tracked

end Reloads

section Main
variable {m : Memory} {e : Post}

def Unstarted (_ : Memory) (e : Post) : Prop := ∀ name, e.current name = none

theorem tracked_unstarted (unstarted : Unstarted m e) : Tracked m e := by
  intro name i _ current
  rw [unstarted name] at current
  contradiction

theorem unstarted_replies {op : Op} {r : op.Ans} {e' : Post}
    (unspawned : ∀ origin command, op ≠ .spawn origin command)
    (replied : surroundings.replies op m e r e') (unstarted : Unstarted m e) : Unstarted m e' := by
  intro name
  rcases (replies_vacant unspawned replied).2 name with same | vacant
  · exact same.trans (unstarted name)
  · exact vacant

theorem unstarted_steady : Steady surroundings askedTurning Unstarted where
  moves _ _ _ _ moved unstarted := by
    unfold Unstarted
    rw [(moves_instances moved).2]
    exact unstarted
  replies _ _ _ _ _ quiet replied unstarted :=
    unstarted_replies (unspawned_of_quiet quiet) replied unstarted
  holds op m e mild unstarted := trackedBut_steady.holds op m e mild (tracked_unstarted unstarted)

theorem wp_guardSignals_unstarted (unstarted : Unstarted m e) :
    guardSignals.wp surroundings askedTurning (fun _ => Unstarted) m e := by
  refine wp_bind_steady unstarted_steady (plain_call rfl) unstarted fun installed m e unstarted => ?_
  refine wp_bind_steady unstarted_steady (orElseLog_plain fun _ => rfl) unstarted fun _ m e unstarted => ?_
  refine wp_bind_perform unstarted_steady unstarted (fun m e _ => unasked (by simp)) ?_
  intro e blocked e' unstarted replied
  have unstarted := unstarted_replies (by simp) replied unstarted
  exact wp_steady unstarted_steady (orElseLog_plain fun _ => rfl) unstarted

theorem wp_boot_tracks (cfg : Config) (unstarted : Unstarted m e) :
    (boot cfg).wp surroundings askedTurning (fun _ => Tracked) m e := by
  refine wp_bind_perform unstarted_steady unstarted (fun m e _ => unasked (by simp)) ?_
  intro e _ e' unstarted replied
  have unstarted := unstarted_replies (by simp) replied unstarted
  refine wp_bind_steady unstarted_steady (plain_call rfl) unstarted fun _ m e unstarted => ?_
  refine wp_bind_steady unstarted_steady (publishTargets_plain _ _) unstarted fun _ m e unstarted => ?_
  refine wp_bind_steady unstarted_steady (plain_call rfl) unstarted fun timerDefs m e unstarted => ?_
  refine wp_bind_update (unasked (by simp)) ?_
  refine wp_spawnAll_keeps trackedBut_steady ?_ _ (tracked_unstarted fun name => unstarted name)
  exact fun d times m e tracked => wp_start_tracks (trackedBut_weaken tracked)

/-- Whenever the loop turns, the current instances are in the table. -/
theorem wp_main_tracks (m : Memory) : main.wp surroundings askedTurning (fun _ _ _ => True) m {} := by
  have unstarted : Unstarted m {} := fun _ => rfl
  refine wp_bind_steady unstarted_steady prepare_plain unstarted fun cfg m e unstarted => ?_
  refine wp_then (wp_guardSignals_unstarted unstarted) fun _ m e unstarted => ?_
  refine wp_then (wp_boot_tracks cfg unstarted) fun _ m e tracked => ?_
  refine wp_bind_perform trackedBut_steady tracked (fun m e _ => unasked (by simp)) ?_
  intro e unblocked e' tracked replied
  have tracked := trackedBut_replies (by simp) replied tracked
  refine wp_bind_steady trackedBut_steady (orElseLog_plain fun _ => rfl) tracked fun _ m e tracked => ?_
  refine wp_bind_update (unasked (by simp)) ?_
  exact wp_loop_keeps loop_tracks _ (tracked_same (m := m) rfl tracked)

/-- While only current instances send marks and none is left when a name is forgotten, everything
recorded comes from the current instance, which is tracked whenever the loop turns. -/
theorem records_are_current (m : Memory) {t : State Memory Op Op.Ans Post Unit}
    (run : Reaches surroundings ⟨main,m,{}⟩ t) : Sourced t.env ∧
      (t.program.next? = some (.swap .rebootRequested) → Tracked t.mem t.env) := by
  constructor
  · exact wp_everywhere run (wp_main_sourced m) fun _ _ _ kept => kept.sourced
  · exact wp_everywhere run (wp_main_tracks m) fun _ _ _ _ => unasked (by simp)

end Main

section Runs

def server : ServiceDef :=
  { name := "server", path := "/usr/bin/server", restart := .always, target := "multi-user" }

def config : Config := { Config.default with services := [server], defaultTarget := "multi-user" }

def obliging : (op : Op) → Memory → Post → op.Ans
  | .listenFor _ _ _, _, _ => some "/run/mitos-init/notify/server.sock"
  | .spawn _ _, _, e => .ok (100 + e.instances.length)
  | .isReady name, _, e => e.state.isReady name
  | .lastPing name, _, e => e.state.lastPing name
  | .waitpid _ _, _, e => if e.instances.length = 1 then .ok (.ended 100 (.exited 1)) else .ok .stillAlive
  | op, m, e => Kernel.obliging (fun _ => true) config op m { clock := e.clock }

def turning : Cue Op Event := .upTo (· == .swap .rebootRequested) 300

def readyRun (machine : Machine Memory Op Op.Ans Post Event) (late : Bool) :
    Option (State Memory Op Op.Ans Post Unit) :=
  let handled : List (Cue Op Event) := [.stir (.receive 0),.stir (.handle 0)]
  drive machine obliging
    ([turning,.stir (.send 0 0 "READY=1".toUTF8)] ++ (if late then [] else handled) ++ [.step,turning] ++
      if late then handled
      else [.stir (.send 1 1 "READY=1".toUTF8),.stir (.receive 1),.stir (.handle 1)])
    ⟨main,{},{}⟩

def readyFrom (sender : Nat) (t : State Memory Op Op.Ans Post Unit) : Bool :=
  t.program.next? == some (.swap .rebootRequested) && t.env.current "server" == some 1 &&
    t.env.state.ready "server" == [sender]

theorem records_are_current_server : ∃ t, readyRun (Post.machine.under loyal) false = some t ∧
    readyFrom 1 t = true ∧ Sourced t.env ∧ Tracked t.mem t.env := by
  have there : (readyRun (Post.machine.under loyal) false).any (readyFrom 1) = true := by decide +kernel
  obtain ⟨t,reached,now⟩ := (Option.any_eq_true _ _).mp there
  have turns : t.program.next? = some (.swap .rebootRequested) := by
    simp only [readyFrom,Bool.and_eq_true,beq_iff_eq] at now
    exact now.1.1
  obtain ⟨sourced,tracked⟩ := records_are_current {} (drive_reaches reached)
  exact ⟨t,reached,now,sourced,tracked turns⟩

/-- A datagram of the first server, still queued when it exits, makes the second one ready. -/
theorem late_mark_counts : ¬ ∀ t : State Memory Op Op.Ans Post Unit,
    Reaches Post.machine.surroundings ⟨main,{},{}⟩ t → Sourced t.env := by
  intro claim
  have there : (readyRun Post.machine true).any (readyFrom 0) = true := by decide +kernel
  obtain ⟨t,reached,now⟩ := (Option.any_eq_true _ _).mp there
  simp only [readyFrom,Bool.and_eq_true,beq_iff_eq] at now
  have sourced := (claim t (drive_reaches reached) "server").1 0 (by simp [now.2])
  rw [now.1.2] at sourced
  contradiction

end Runs
end MitosServices.Notify
