import MitosServices.Starts

/-! The listener threads of the notify sockets over runs of starts, exits, reloads and shutdowns. A
thread ends when its `recv` fails and by nothing else; no path that takes a service out of the table
ends its thread. -/
namespace MitosServices.Listeners
open Interaction Interaction.Program

inductive Use
  | spawnAll (defs : List ServiceDef)
  | handleExit (status : WaitStatus)
  | reloadServices (newDefs : List ServiceDef)
  | shutdownAll (grace : Nat)

def Use.code : Use → Code Unit
  | .spawnAll defs => MitosServices.spawnAll defs
  | .handleExit status => do
    let _ ← MitosServices.handleExit status
    pure ()
  | .reloadServices newDefs => do
    let _ ← MitosServices.reloadServices newDefs
    pure ()
  | .shutdownAll grace => MitosServices.shutdownAll grace

section Surroundings

inductive Received
  | datagram
  | interrupted
  | failed
deriving DecidableEq, Repr

def Received.ends : Received → Bool
  | .failed => true
  | _ => false

/-- The live listener threads by the name each was started for. Every one owns its socket, and both
stay when the socket's path is unlinked. -/
structure Process where
  listeners : List String := []
deriving DecidableEq, Repr

def Process.receive (p : Process) (listener : Nat) (received : Received) : Process :=
  if received.ends then { p with listeners := p.listeners.eraseIdx listener } else p

inductive Event
  | recv (listener : Nat) (received : Received)

def answer : (op : Op) → Memory → Process → op.Ans → Option Process
  | .listenFor name _ _, _, p, some _ => some { p with listeners := p.listeners ++ [name] }
  | .iterate entries, _, p, visited => if visited.Perm entries then some p else none
  | .panic, _, _, _ => none
  | _, _, p, _ => some p

def machine : Machine Memory Op Op.Ans Process Event where
  stir
    | .recv listener received, _, _, p => some (p.receive listener received)
  answer := answer

/-- What the call in hand has come to: the name whose socket it has bound, until the table has the
child or the spawn has failed; the definitions of a reload that has not yet looked at the table; and
the pids it has still to strike from it. -/
structure Progress where
  starting : Option String := none
  newDefs : Option (List ServiceDef) := none
  removing : List Int := []

def Use.begins : Use → Progress
  | .reloadServices newDefs => { newDefs := some newDefs }
  | _ => {}

namespace Progress

def settled (g : Progress) (m : Memory) : Progress :=
  { g with starting := g.starting.filter fun name => !m.services.tracks name }

def heard (g : Progress) : (op : Op) → op.Ans → Progress
  | .listenFor name _ _, path => { g with starting := path.map fun _ => name }
  | .spawn (.service _ _) _, .error _ => { g with starting := none }
  | .iterate _, visited =>
    { g with newDefs := none, removing := g.newDefs.elim g.removing fun defs => removedPids defs visited }
  | .log (.stoppingRemoved _), _ => { g with removing := g.removing.tail }
  | _, _ => g

end Progress

def monitor : Monitor Memory Op Op.Ans Process Event Progress where
  event _ _ _ _ g := g
  reply op m _ r g := (g.settled m).heard op r

end Surroundings

section Balance

/-- At most one listener a name, none for a name that is not tracked, and no more than the tracked
services; but for the name that is being started. -/
structure Balanced (starting : Option String) (m : Memory) (p : Process) : Prop where
  single : p.listeners.Nodup
  tracked : ∀ name ∈ p.listeners, starting ≠ some name → m.services.tracks name = true
  few : p.listeners.length ≤ m.services.entries.length + starting.toList.length

/-- The pid may be struck from the table: the name it has there has no listener, or another instance,
or is being started. -/
def mayLeave (starting : Option String) (m : Memory) (p : Process) (pid : Int) : Bool :=
  (m.services.lookup pid).all fun sup => starting == some sup.definition.name ||
    !p.listeners.contains sup.definition.name ||
    Services.tracks (m.services.erase pid) sup.definition.name

/-- No socket is bound for a name that has a listener, no start fails whose name has one, unless
another instance is tracked, and no pid is struck that may not leave: by a child that gets it, in a
shutdown, or by a reload that replaces or removes the service. -/
def orderly : Condition Memory Op Op.Ans (Process × Progress) Event where
  event _ _ _ _ := true
  reply
    | .listenFor name _ _, _, e, some _ => !e.1.listeners.contains name
    | .spawn (.service name _) _, m, e, .error _ =>
      !e.1.listeners.contains name || m.services.tracks name
    | .spawn origin _, m, e, .ok pid => mayLeave (startedAs origin) m e.1 pid
    | .waitpid .any _, m, e, .ok (.ended pid _) => mayLeave none m e.1 pid
    -- the replaced service is struck right after this line
    | .log (.restartingChanged name), m, e, _ =>
      m.services.toList.all fun entry => entry.2.definition.name != name || mayLeave none m e.1 entry.1
    -- the first removed service is struck right after the visit, and each other one right after the
    -- stop before it, which ends with a forget
    | .iterate _, m, e, visited => e.2.newDefs.all fun defs =>
      (removedPids defs visited).head?.all (mayLeave none m e.1)
    | .forget _, m, e, _ => e.2.removing.head?.all (mayLeave none m e.1)
    | _, _, _, _ => true

def Use.allowed : Use → Memory → Process → Bool
  | .handleExit (.ended pid _), m, p => mayLeave none m p pid
  | _, _, _ => true

end Balance

section Runs
variable (M : Machine Memory Op Op.Ans (Process × Progress) Event) (allowed : Use → Memory → Process → Bool)

inductive Run : Memory → Process → Prop
  | start : Run {} {}
  | receive {m : Memory} {p : Process} (listener : Nat) (received : Received) (before : Run m p) :
      Run m (p.receive listener received)
  | use {m m' : Memory} {p p' : Process} {g : Progress} (use : Use) (before : Run m p)
      (within : allowed use m p = true)
      (ran : Reaches M.surroundings ⟨use.code,m,(p,use.begins)⟩ ⟨.ret (),m',(p',g)⟩) : Run m' p'

end Runs

section Balance
variable {starting : Option String} {name : String} {pid : Int} {m : Memory} {p p' : Process}

theorem few_of_tracked (single : p.listeners.Nodup)
    (tracked : ∀ name ∈ p.listeners, starting ≠ some name → m.services.tracks name = true) :
    p.listeners.length ≤ m.services.entries.length + starting.toList.length := by
  let names := m.services.toList.map fun entry => entry.2.definition.name
  have within : p.listeners ⊆ names ++ starting.toList := by
    intro name member
    by_cases begins : starting = some name
    · simp [begins]
    · obtain ⟨pid,sup,found,named⟩ := Services.tracks_iff.mp (tracked name member begins)
      have listed := Services.mem_toList.mpr found
      exact List.mem_append_left _ (List.mem_map.mpr ⟨(pid,sup),listed,named⟩)
  have short := (List.subperm_of_subset single within).length_le
  simpa [names,Services.toList] using short

theorem balanced_of (single : p.listeners.Nodup)
    (tracked : ∀ name ∈ p.listeners, starting ≠ some name → m.services.tracks name = true) :
    Balanced starting m p := ⟨single,tracked,few_of_tracked single tracked⟩

theorem Balanced.weaken (balanced : Balanced none m p) : Balanced starting m p :=
  balanced_of balanced.single fun name member _ => balanced.tracked name member (by simp)

theorem Balanced.fewer (fewer : p'.listeners.Sublist p.listeners) (balanced : Balanced starting m p) :
    Balanced starting m p' :=
  balanced_of (balanced.single.sublist fewer) fun name member =>
    balanced.tracked name (fewer.subset member)

theorem Balanced.settled {g : Progress} (balanced : Balanced g.starting m p) :
    Balanced (g.settled m).starting m p := by
  refine balanced_of balanced.single fun name member begins => ?_
  by_contra untracked
  refine begins ?_
  have starts : g.starting = some name := by
    by_contra other
    exact untracked (balanced.tracked name member other)
  simpa [Progress.settled,starts] using untracked

theorem Balanced.bound (fresh : name ∉ p.listeners) (balanced : Balanced none m p) :
    Balanced (some name) m { p with listeners := p.listeners ++ [name] } := by
  refine balanced_of ?_ fun other member begins => ?_
  · simpa using balanced.single.concat fresh
  · cases List.mem_append.mp member with
    | inl before => exact balanced.tracked other before (by simp)
    | inr bound => exact absurd (congrArg some (List.mem_singleton.mp bound).symm) begins

theorem Balanced.unbound (ended : (!p.listeners.contains name || m.services.tracks name) = true)
    (balanced : Balanced (some name) m p) : Balanced none m p := by
  refine balanced_of balanced.single fun other member _ => ?_
  by_cases same : name = other
  · subst same
    simpa [member] using ended
  · exact balanced.tracked other member (by simpa using same)

theorem Balanced.without (leaves : mayLeave starting m p pid = true)
    (balanced : Balanced starting m p) : Balanced starting (withoutService m pid) p := by
  refine balanced_of balanced.single fun name member begins => ?_
  obtain ⟨pid',sup,found,named⟩ := Services.tracks_iff.mp (balanced.tracked name member begins)
  by_cases same : pid' = pid
  · subst same
    subst named
    simpa [withoutService,mayLeave,found,begins,member] using leaves
  · exact Services.tracks_iff.mpr ⟨pid',sup,lookup_erase_iff.mpr ⟨same,found⟩,named⟩

theorem Balanced.entered {d : ServiceDef} {times : List Nat} {t : Nat}
    (balanced : Balanced (some d.name) (withoutService m pid) p) :
    Balanced none (withService m pid ⟨d,times,t⟩) p := by
  refine balanced_of balanced.single fun name member _ => ?_
  by_cases same : d.name = name
  · exact Services.tracks_iff.mpr ⟨pid,_,lookup_insert_iff.mpr (.inl ⟨rfl,rfl⟩),same⟩
  · obtain ⟨pid',sup,found,named⟩ :=
      Services.tracks_iff.mp (balanced.tracked name member (by simpa using same))
    obtain ⟨other,there⟩ := lookup_erase_iff.mp found
    exact Services.tracks_iff.mpr ⟨pid',sup,lookup_insert_iff.mpr (.inr ⟨other,there⟩),named⟩

end Balance

section Steps
variable {op : Op} {m : Memory} {e e' : Process × Progress} {name : String}

abbrev around : Surroundings Memory Op Op.Ans (Process × Progress) :=
  ((machine.watched monitor).under orderly).surroundings

abbrev asked (_ : Option Op) (m : Memory) (e : Process × Progress) : Prop := Balanced e.2.starting m e.1

def silent : Op → Bool
  | .listenFor _ _ _ | .spawn _ _ => false
  | _ => true

theorem receive_fewer (p : Process) (listener : Nat) (received : Received) :
    (p.receive listener received).listeners.Sublist p.listeners := by
  unfold Process.receive
  split
  · exact List.eraseIdx_sublist _ _
  · exact .refl _

theorem moves_fewer (moved : around.moves op m e e') :
    e'.1.listeners.Sublist e.1.listeners ∧ e'.2 = e.2 := by
  have unstirred : monitor.Unstirred := fun _ _ _ _ _ => rfl
  refine ⟨?_,unstirred.moves moved⟩
  obtain ⟨⟨listener,received⟩,stirred⟩ := moved
  have received := (Machine.watched_stir_iff.mp (Machine.under_stir_iff.mp stirred).2).1
  rw [← Option.some.inj received]
  exact receive_fewer _ _ _

theorem replies_silent {r : op.Ans} (quiet : silent op = true) (replied : around.replies op m e r e') :
    e' = (e.1,(e.2.settled m).heard op r) := by
  obtain ⟨-,answered,noted⟩ := Machine.heard_iff.mp replied
  refine Prod.ext ?_ noted
  cases op with
  | listenFor name uid gid => contradiction
  | spawn origin command => contradiction
  | panic => contradiction
  | iterate entries =>
    simp only [machine,answer,Option.ite_none_right_eq_some] at answered
    exact (Option.some.inj answered.2).symm
  | _ => exact (Option.some.inj answered).symm

theorem heard_starting (g : Progress) (r : op.Ans) (quiet : silent op = true) :
    (g.heard op r).starting = g.starting := by
  cases op with
  | listenFor name uid gid => contradiction
  | spawn origin command => contradiction
  | log line => cases line <;> rfl
  | _ => rfl

abbrev Lasting (P : Memory → Process × Progress → Prop) : Prop :=
  around.Steady asked (fun op => silent op = true) (fun _ => True) P

theorem silent_call {op : Op} (quiet : silent op = true) :
    (call op).Uses Eq fun op => silent op = true ∧ True := uses_perform ⟨quiet,trivial⟩

/-- In the middle of a start, where `part` is what can be relied on of the memory. -/
theorem lasting_part {starting : Option String} (part : Memory → Memory) :
    Lasting fun m e => Balanced e.2.starting m e.1 ∧ Balanced starting (part m) e.1 where
  moves op m e e' moved held := by
    obtain ⟨fewer,same⟩ := moves_fewer moved
    rw [same]
    exact ⟨held.1.fewer fewer,held.2.fewer fewer⟩
  replies op m e r e' quiet replied held := by
    rw [replies_silent quiet replied,heard_starting _ _ quiet]
    exact ⟨held.1.settled,held.2⟩
  holds _ _ _ _ held := held.1

abbrev Level (m : Memory) (e : Process × Progress) : Prop := Balanced none m e.1

theorem lasting_level : Lasting Level where
  moves op m e e' moved level := level.fewer (moves_fewer moved).1
  replies op m e r e' quiet replied level := by
    rw [replies_silent quiet replied]
    exact level
  holds _ _ _ _ level := level.weaken

end Steps

section Starts
variable {m : Memory} {e e' : Process × Progress}

abbrev Entering (name : String) (m : Memory) (e : Process × Progress) : Prop :=
  Balanced e.2.starting m e.1 ∧ Balanced (some name) m e.1

abbrev Joining (name : String) (pid : Int) (m : Memory) (e : Process × Progress) : Prop :=
  Balanced e.2.starting m e.1 ∧ Balanced (some name) (withoutService m pid) e.1

theorem lasting_entering {name : String} : Lasting (Entering name) := lasting_part id

theorem lasting_joining {name : String} {pid : Int} : Lasting (Joining name pid) :=
  lasting_part (withoutService · pid)

theorem wp_listenFor {name : String} {uid gid : Option Nat} (level : Level m e) :
    (call (.listenFor name uid gid)).wp around asked (fun _ => Entering name) m e := by
  refine wp_steady_perform lasting_level level (fun _ _ level => level.weaken) ?_
  rintro e path ⟨p,g⟩ level replied
  obtain ⟨allowed,answered,noted⟩ := Machine.heard_iff.mp replied
  cases path with
  | none =>
    cases Option.some.inj answered
    exact ⟨level.weaken,level.weaken⟩
  | some path =>
    have fresh : name ∉ e.1.listeners := by simpa [orderly] using allowed
    cases Option.some.inj answered
    cases noted
    exact ⟨level.bound fresh,level.bound fresh⟩

theorem wp_prepareCommand (d : ServiceDef) (level : Level m e) :
    (prepareCommand d).wp around asked (fun _ => Entering d.name) m e := by
  refine wp_bind_steady lasting_level (resolveWith_uses (fun _ => silent_call rfl) _) level ?_
  intro uid m e level
  refine wp_bind_steady lasting_level (uses_provided (silent_call rfl)) level ?_
  intro _ m e level
  refine wp_bind_steady lasting_level (resolveWith_uses (fun _ => silent_call rfl) _) level ?_
  intro gid m e level
  refine wp_bind_steady lasting_level (uses_provided (silent_call rfl)) level ?_
  intro _ m e level
  refine wp_bind_steady lasting_level (silent_call rfl) level ?_
  intro _ m e level
  exact wp_then (wp_listenFor level) fun _ _ _ entering => entering

theorem replies_spawned {origin : Origin} {command : Command} {name : String} {pid : Int}
    (started : startedAs origin = some name) (entering : Entering name m e)
    (replied : around.replies (.spawn origin command) m e (.ok pid) e') : Joining name pid m e' := by
  obtain ⟨p,g⟩ := e'
  obtain ⟨allowed,answered,noted⟩ := Machine.heard_iff.mp replied
  have leaves : mayLeave (some name) m e.1 pid = true := by
    rw [← started]
    cases origin <;> exact allowed
  have settled : g = e.2.settled m := by cases origin <;> exact noted
  cases Option.some.inj answered
  subst settled
  exact ⟨entering.1.settled,entering.2.without leaves⟩

theorem replies_refused {name err : String} {critical : Bool} {command : Command}
    (entering : Entering name m e)
    (replied : around.replies (.spawn (.service name critical) command) m e (.error err) e') :
    Level m e' := by
  obtain ⟨p,g⟩ := e'
  obtain ⟨ended,answered,-⟩ := Machine.heard_iff.mp replied
  cases Option.some.inj answered
  exact entering.2.unbound ended

theorem wp_track {d : ServiceDef} {times : List Nat} {pid : Int} (joining : Joining d.name pid m e) :
    (track pid d times).wp around asked (fun _ => Level) m e := by
  refine wp_bind_steady lasting_joining (silent_call rfl) joining fun t m e joining => ?_
  exact ⟨joining.1,joining.2.entered⟩

theorem wp_started {d : ServiceDef} {times : List Nat} {pid : Int} (joining : Joining d.name pid m e) :
    (started d times pid).wp around asked (fun _ => Level) m e := by
  refine wp_bind_steady lasting_joining (silent_call rfl) joining fun _ m e joining => ?_
  refine wp_bind_steady lasting_joining (silent_call rfl) joining fun _ m e joining => ?_
  refine wp_bind_steady lasting_joining (silent_call rfl) joining fun _ m e joining => ?_
  refine wp_bind_steady lasting_joining (uses_each fun _ _ => silent_call rfl) joining ?_
  exact fun _ m e joining => wp_track joining

theorem wp_rescued {pid : Int} (joining : Joining fallbackShell.name pid m e) :
    (rescued pid).wp around asked (fun _ => Level) m e := by
  refine wp_bind_steady lasting_joining (silent_call rfl) joining fun _ m e joining => ?_
  refine wp_bind_steady lasting_joining (silent_call rfl) joining fun _ m e joining => ?_
  refine wp_bind_steady lasting_joining (silent_call rfl) joining fun _ m e joining => ?_
  exact wp_track joining

theorem wp_fallBack (level : Level m e) : fallBack.wp around asked (fun _ => Level) m e := by
  refine wp_bind_perform lasting_level level (fun _ _ level => level.weaken) ?_
  intro e shell e' level replied
  cases shell with
  | ok pid => exact wp_rescued (replies_spawned rfl ⟨level.weaken,level.weaken⟩ replied)
  | error err =>
    obtain ⟨p,g⟩ := e'
    obtain ⟨-,answered,-⟩ := Machine.heard_iff.mp replied
    cases Option.some.inj answered
    exact level

/-- A start leaves no name exempt, whatever becomes of it. -/
theorem wp_spawnWithHistory (d : ServiceDef) (times : List Nat) (level : Level m e) :
    (spawnWithHistory d times).wp around asked (fun _ => Level) m e := by
  refine wp_then (wp_prepareCommand d level) fun command m e entering => ?_
  refine wp_bind_perform lasting_entering entering (fun _ _ entering => entering.1) ?_
  intro e child e' entering replied
  cases child with
  | ok pid => exact wp_started (replies_spawned rfl entering replied)
  | error err =>
    -- the condition has seen to the listener, so that the rescue shell starts from a balance again
    have level := replies_refused entering replied
    refine wp_bind_steady lasting_level (silent_call rfl) level fun _ m e level => ?_
    rw [wp_provided]
    split
    · exact wp_fallBack level
    · exact level

end Starts

section Boot
variable {m : Memory} {e : Process × Progress}

theorem waitForReady_silent (name : String) (timeout : Nat) :
    (waitForReady name timeout).Uses Eq fun op => silent op = true ∧ True := by
  refine uses_mono (waitForReady_awaits name timeout) (fun _ _ same => same) fun op awaits => ⟨?_,trivial⟩
  cases op with
  | listenFor name uid gid => contradiction
  | spawn origin command => contradiction
  | _ => rfl

theorem wp_startOne (configured spawned : List String) (d : ServiceDef) (level : Level m e) :
    (startOne configured spawned d).wp around asked (fun _ => Level) m e := by
  unfold startOne
  dsimp only
  split
  · exact wp_bind_steady lasting_level (silent_call rfl) level fun _ m e level => level
  · refine wp_bind_steady lasting_level (uses_each fun dep _ => waitForReady_silent dep _) level ?_
    intro _ m e level
    refine wp_then (wp_spawnWithHistory d [] level) fun _ m e level => ?_
    exact wp_bind_read level.weaken level

theorem wp_startEach (configured spawned : List String) (defs : List ServiceDef) (level : Level m e) :
    (startEach configured spawned defs).wp around asked (fun _ => Level) m e := by
  induction defs generalizing spawned m e with
  | nil => exact level
  | cons d rest ih => exact wp_then (wp_startOne configured spawned d level) fun _ _ _ level => ih _ level

theorem wp_spawnAll (defs : List ServiceDef) (level : Level m e) :
    (spawnAll defs).wp around asked (fun _ => Level) m e := by
  refine wp_then (R := fun _ => Level) ?_ fun ordered m e level => wp_startEach _ _ ordered level
  exact wp_bind_steady lasting_level (uses_provided (silent_call rfl)) level fun _ m e level => level

end Boot

section Exits
variable {m : Memory} {e : Process × Progress} {pid : Int}

theorem wp_restart (sup : Supervised) (level : Level m e) :
    (restart sup).wp around asked (fun _ => Level) m e := by
  refine wp_bind_steady lasting_level (silent_call rfl) level fun t m e level => ?_
  dsimp only
  split
  · exact wp_bind_steady lasting_level (silent_call rfl) level fun _ m e level => level
  · exact wp_then (wp_spawnWithHistory _ _ level) fun _ m e level => level

theorem wp_handleExit (ending : Ending) (leaves : mayLeave none m e.1 pid = true) (level : Level m e) :
    (handleExit (.ended pid ending)).wp around asked (fun _ => Level) m e := by
  refine wp_bind_removeService level.weaken ?_
  have level : Level (withoutService m pid) e := level.without leaves
  cases m.services.lookup pid with
  | none => exact level
  | some sup =>
    refine wp_bind_steady lasting_level (silent_call rfl) level fun _ m e level => ?_
    refine wp_bind_steady lasting_level (silent_call rfl) level fun _ m e level => ?_
    refine wp_bind_steady lasting_level (silent_call rfl) level fun _ m e level => ?_
    split
    · exact level
    · split
      · exact wp_restart sup level
      · exact level

end Exits

section Reload
variable {m : Memory} {e : Process × Progress} {pid : Int} {newDefs : List ServiceDef}

def stops : Op → Bool
  | .now | .sleep _ | .kill _ _ | .waitpid (.only _) _ | .killAndRemove _ => true
  | _ => false

theorem stops_call {op : Op} (allowed : stops op = true) :
    (call op).Uses Eq fun op => stops op = true ∧ True := uses_perform ⟨allowed,trivial⟩

theorem stopOne_stops (pid : Int) (name : String) :
    (stopOne pid name).Uses Eq fun op => stops op = true ∧ True := by
  refine uses_bind (stops_call rfl) fun _ => uses_bind (stops_call rfl) fun start => ?_
  refine uses_bind (uses_repeatFrom fun _ => ?_) fun _ => stops_call rfl
  refine uses_bind (stops_call rfl) fun t => ?_
  split
  · exact uses_bind (stops_call rfl) fun _ => uses_pure _
  · refine uses_bind (stops_call rfl) fun status => ?_
    split
    · exact uses_pure _
    · exact uses_bind (stops_call rfl) fun _ => uses_pure _
    · exact uses_pure _

theorem silent_of_stops {op : Op} (h : stops op = true) : silent op = true := by
  cases op with
  | listenFor name uid gid => contradiction
  | spawn origin command => contradiction
  | _ => rfl

theorem stopOne_silent (pid : Int) (name : String) :
    (stopOne pid name).Uses Eq fun op => silent op = true ∧ True :=
  uses_mono (stopOne_stops pid name) (fun _ _ same => same) fun _ allowed =>
    ⟨silent_of_stops allowed.1,trivial⟩

structure Removing (listed rest : List Int) (m : Memory) (e : Process × Progress) : Prop where
  level : Level m e
  removing : e.2.removing = listed
  distinct : rest.Nodup
  there : ∀ pid ∈ rest, (m.services.lookup pid).isSome = true

def Next (pids : List Int) (m : Memory) (e : Process × Progress) : Prop :=
  Removing pids pids m e ∧ pids.head?.all (mayLeave none m e.1) = true

theorem lasting_removing {listed rest : List Int} :
    around.Steady asked (fun op => stops op = true) (fun _ => True) (Removing listed rest) where
  moves op m e e' moved held := by
    obtain ⟨fewer,same⟩ := moves_fewer moved
    exact ⟨held.level.fewer fewer,by rw [same]; exact held.removing,held.distinct,held.there⟩
  replies op m e r e' allowed replied held := by
    rw [replies_silent (silent_of_stops allowed) replied]
    refine ⟨held.level,?_,held.distinct,held.there⟩
    cases op <;> first | exact held.removing | contradiction
  holds _ _ _ _ held := held.level.weaken

theorem wp_stopRemoved {rest : List Int} (next : Next (pid :: rest) m e) :
    (stopRemoved pid).wp around asked (fun _ => Next rest) m e := by
  obtain ⟨held,leaves⟩ := next
  refine wp_bind_removeService held.level.weaken ?_
  obtain ⟨sup,found⟩ := Option.isSome_iff_exists.mp (held.there pid List.mem_cons_self)
  rw [found]
  obtain ⟨fresh,distinct⟩ := List.nodup_cons.mp held.distinct
  -- struck, but until the line is logged still listed
  have struck : Removing (pid :: rest) rest (withoutService m pid) e := by
    refine ⟨held.level.without leaves,held.removing,distinct,?_⟩
    intro other member
    have apart : other ≠ pid := fun same => fresh (same ▸ member)
    rw [withoutService,AList.lookup_erase_ne apart]
    exact held.there other (List.mem_cons_of_mem _ member)
  refine wp_bind_perform lasting_removing struck (fun _ _ held => held.level.weaken) ?_
  intro e _ e' held replied
  have logged : Removing rest rest (withoutService m pid) e' := by
    rw [replies_silent rfl replied]
    refine ⟨held.level,?_,held.distinct,held.there⟩
    exact congrArg List.tail held.removing
  refine wp_bind_steady lasting_removing (stopOne_stops _ _) logged fun _ m e stopped => ?_
  refine wp_steady_perform lasting_removing stopped (fun _ _ held => held.level.weaken) ?_
  intro e _ e' held replied
  have may := (Machine.heard_iff.mp replied).1
  rw [replies_silent rfl replied]
  refine ⟨⟨held.level,held.removing,held.distinct,held.there⟩,?_⟩
  rw [← held.removing]
  exact may

theorem removedPids_nodup {services : Services} {visited : List (Int × Supervised)}
    (visit : visited.Perm services.toList) : (removedPids newDefs visited).Nodup := by
  have keys : (visited.map Prod.fst).Nodup := by
    rw [(visit.map Prod.fst).nodup_iff,Services.toList,List.map_map]
    exact services.nodupKeys
  exact keys.sublist (List.filter_sublist.map Prod.fst)

theorem removedPids_there {services : Services} {visited : List (Int × Supervised)}
    (visit : visited.Perm services.toList) (member : pid ∈ removedPids newDefs visited) :
    (services.lookup pid).isSome = true := by
  obtain ⟨⟨p,sup⟩,listed,rfl⟩ := List.mem_map.mp member
  have tracked := visit.mem_iff.mp (List.mem_filter.mp listed).1
  rw [Services.mem_toList.mp tracked]
  rfl

theorem wp_replace {sup : Supervised} {d : ServiceDef} (found : m.services.lookup pid = some sup)
    (named : sup.definition.name = d.name) (level : Level m e) :
    (replace pid d).wp around asked (fun _ => Level) m e := by
  refine wp_bind_perform lasting_level level (fun _ _ level => level.weaken) ?_
  intro e _ e' level replied
  have may := List.all_eq_true.mp (Machine.heard_iff.mp replied).1 (pid,sup)
    (Services.mem_toList.mpr found)
  have leaves : mayLeave none m e.1 pid = true := by simpa [named] using may
  rw [replies_silent rfl replied]
  refine wp_bind_removeService level.weaken ?_
  refine wp_bind_steady lasting_level (stopOne_silent _ _) (level.without leaves) ?_
  exact fun _ m e level => wp_spawnWithHistory d [] level

/-- A visit sees the whole table, and leaves everything as it is. -/
theorem replies_visited {services : Services} {visited : List (Int × Supervised)} {e' : Process × Progress}
    (replied : around.replies (.iterate services.toList) m e visited e') :
    visited.Perm services.toList ∧ e'.1 = e.1 := by
  have answered := (Machine.heard_iff.mp replied).2.1
  simp only [machine,answer,Option.ite_none_right_eq_some,Option.some.injEq] at answered
  exact ⟨answered.1,answered.2.symm⟩

theorem wp_reconcileOne (d : ServiceDef) (level : Level m e) :
    (reconcileOne d).wp around asked (fun _ => Level) m e := by
  refine wp_bind_read level.weaken ?_
  refine wp_bind_perform lasting_level level (fun _ _ level => level.weaken) ?_
  intro e visited e' level replied
  obtain ⟨visit,same⟩ := replies_visited replied
  rw [Level,← same] at level
  split
  · rename_i pid sup matched
    obtain ⟨found,named⟩ := Services.find_visited visit matched
    split
    · exact level
    · exact wp_then (wp_replace found named level) fun _ m e level => level
  · refine wp_bind_steady lasting_level (silent_call rfl) level fun _ m e level => ?_
    exact wp_then (wp_spawnWithHistory d [] level) fun _ m e level => level

theorem wp_reconcile (touched : List String) (defs : List ServiceDef) (level : Level m e) :
    (reconcile touched defs).wp around asked (fun _ => Level) m e := by
  induction defs generalizing touched m e with
  | nil => exact level
  | cons d rest ih => exact wp_then (wp_reconcileOne d level) fun _ _ _ level => ih _ level

/-- A reload that has not yet looked at the table. -/
theorem lasting_opening : around.Steady asked (fun _ => False) (fun _ => True)
    fun m e => Level m e ∧ e.2.newDefs = some newDefs where
  moves op m e e' moved held := by
    obtain ⟨fewer,same⟩ := moves_fewer moved
    exact ⟨held.1.fewer fewer,by rw [same]; exact held.2⟩
  replies _ _ _ _ _ never _ _ := never.elim
  holds _ _ _ _ held := held.1.weaken

theorem next_visited {visited : List (Int × Supervised)} {e' : Process × Progress} (level : Level m e)
    (opening : e.2.newDefs = some newDefs)
    (replied : around.replies (.iterate m.services.toList) m e visited e') :
    Next (removedPids newDefs visited) m e' := by
  have visit := (replies_visited replied).1
  have may := (Machine.heard_iff.mp replied).1
  rw [replies_silent rfl replied]
  refine ⟨⟨level,?_,removedPids_nodup visit,fun pid member => removedPids_there visit member⟩,?_⟩
  · simp [Progress.heard,Progress.settled,opening]
  · simpa [orderly,opening] using may

theorem wp_reloadServices (level : Level m e) (opening : e.2.newDefs = some newDefs) :
    (reloadServices newDefs).wp around asked (fun _ => Level) m e := by
  refine wp_bind_read level.weaken ?_
  refine wp_bind_perform lasting_opening ⟨level,opening⟩ (fun _ _ held => held.1.weaken) ?_
  intro e visited e' held replied
  refine wp_then (wp_each Next (next_visited held.1 held.2 replied) ?_) ?_
  · exact fun pid rest m e next => wp_stopRemoved next
  · exact fun _ m e next => wp_reconcile [] newDefs next.1.level

end Reload

section Shutdown
variable {m : Memory} {e : Process × Progress}

theorem wp_awaitExits (deadline : Nat) (level : Level m e) :
    (awaitExits deadline).wp around asked (fun _ => Level) m e := by
  refine wp_repeatFrom (fun _ => Level) level (fun _ _ _ level => level.weaken) ?_
  intro _ m e level
  refine wp_bind_steady lasting_level (silent_call rfl) level fun t m e level => ?_
  refine wp_bind_read level.weaken ?_
  split
  · refine wp_bind_perform lasting_level level (fun _ _ level => level.weaken) ?_
    intro e status e' level replied
    have may := (Machine.heard_iff.mp replied).1
    rw [replies_silent rfl replied]
    match status with
    | .ok (.ended pid ending) => exact wp_bind_removeService level.weaken (level.without may)
    | .ok .stillAlive =>
      exact wp_bind_steady lasting_level (silent_call rfl) level fun _ m e level => level
    | .ok .other => exact level
    | .error .echild => exact level
    | .error .eintr =>
      exact wp_bind_steady lasting_level (silent_call rfl) level fun _ m e level => level
    | .error .other =>
      exact wp_bind_steady lasting_level (silent_call rfl) level fun _ m e level => level
  · exact level

theorem wp_shutdownAll (grace : Nat) (level : Level m e) :
    (shutdownAll grace).wp around asked (fun _ => Level) m e := by
  refine wp_bind_read level.weaken ?_
  refine wp_bind_steady lasting_level (silent_call rfl) level fun named m e level => ?_
  refine wp_bind_steady lasting_level (silent_call rfl) level fun keyed m e level => ?_
  refine wp_bind_steady lasting_level (uses_each fun _ _ => silent_call rfl) level fun _ m e level => ?_
  refine wp_bind_steady lasting_level (silent_call rfl) level fun start m e level => ?_
  refine wp_bind_steady lasting_level (uses_provided (silent_call rfl)) level fun _ m e level => ?_
  refine wp_then (wp_awaitExits _ level) fun _ m e level => ?_
  refine wp_bind_read level.weaken ?_
  refine wp_bind_steady lasting_level (silent_call rfl) level fun late m e level => ?_
  refine wp_bind_steady lasting_level (uses_each fun _ _ => ?_) level fun _ m e level => ?_
  · exact uses_bind (silent_call rfl) fun _ => silent_call rfl
  · refine wp_steady lasting_level (uses_each fun _ _ => ?_) level
    exact uses_bind (silent_call rfl) fun _ => silent_call rfl

end Shutdown

section Runs
variable {m : Memory} {p : Process}

abbrev Moment := State Memory Op Op.Ans (Process × Progress) Unit

theorem wp_use (use : Use) (allowed : use.allowed m p = true) (balanced : Balanced none m p) :
    use.code.wp around asked (fun _ => Level) m (p,use.begins) := by
  cases use with
  | spawnAll defs => exact wp_spawnAll defs balanced
  | handleExit status =>
    refine wp_then (R := fun _ => Level) ?_ fun _ _ _ level => level
    cases status with
    | ended pid ending => exact wp_handleExit ending allowed balanced
    | stillAlive => exact balanced
    | other => exact balanced
  | reloadServices newDefs =>
    exact wp_then (wp_reloadServices balanced rfl) fun _ _ _ level => level
  | shutdownAll grace => exact wp_shutdownAll grace balanced

theorem balanced_of_run (run : Run ((machine.watched monitor).under orderly) Use.allowed m p) :
    Balanced none m p := by
  induction run with
  | start => exact balanced_of List.nodup_nil (by simp)
  | receive listener received _ ih => exact ih.fewer (receive_fewer _ listener received)
  | use use _ allowed ran ih => exact wp_returns (Q := fun _ => Level) ran (wp_use use allowed ih)

/-- In every orderly run the listeners are balanced between the calls, and at every moment of a call
they are but for the name it is starting. -/
theorem listeners_tracked (run : Run ((machine.watched monitor).under orderly) Use.allowed m p) :
    Balanced none m p ∧ ∀ (use : Use) (t : Moment), use.allowed m p = true →
      Reaches around ⟨use.code,m,(p,use.begins)⟩ t → Balanced t.env.2.starting t.mem t.env.1 := by
  have balanced := balanced_of_run run
  refine ⟨balanced,fun use t allowed reached => ?_⟩
  exact wp_everywhere reached (wp_use use allowed balanced) fun _ _ _ level => level.weaken

section Carried
variable {M : Machine Memory Op Op.Ans (Process × Progress) Event} {allowed : Use → Memory → Process → Bool}

def oracle : (op : Op) → Memory → Process × Progress → op.Ans
  | .listenFor name _ _, _, _ => some s!"/run/mitos-init/notify/{name}.sock"
  | op, m, _ => Kernel.obliging (fun _ => true) Config.default op m {}

def carried (M : Machine Memory Op Op.Ans (Process × Progress) Event)
    (allowed : Use → Memory → Process → Bool) :
    List (Use × List (Cue Op Event)) → Memory × Process → Option (Memory × Process)
  | [], s => some s
  | (use,cues) :: rest, (m,p) =>
    if allowed use m p then
      (drive M oracle cues ⟨use.code,m,(p,use.begins)⟩).bind fun t =>
        if t.result? = some () then carried M allowed rest (t.mem,t.env.1) else none
    else none

theorem run_carried {uses : List (Use × List (Cue Op Event))} {s s' : Memory × Process}
    (run : Run M allowed s.1 s.2) (went : carried M allowed uses s = some s') :
    Run M allowed s'.1 s'.2 := by
  induction uses generalizing s with
  | nil =>
    cases Option.some.inj went
    exact run
  | cons first rest ih =>
    obtain ⟨use,cues⟩ := first
    obtain ⟨m,p⟩ := s
    simp only [carried,Option.ite_none_right_eq_some] at went
    obtain ⟨within,went⟩ := went
    obtain ⟨t,driven,further⟩ := Option.bind_eq_some_iff.mp went
    simp only [Option.ite_none_right_eq_some] at further
    exact ih (.use use run within (drive_returned driven further.1)) further.2

end Carried

def server : ServiceDef := { name := "server", path := "/usr/bin/server", restart := .always }

def exits (meanwhile : List (Cue Op Event)) : List (Use × List (Cue Op Event)) :=
  [(.spawnAll [server],meanwhile ++ [.upTo (fun _ => false) 100]),
    (.handleExit (.ended 100 (.exited 1)),[.upTo (fun _ => false) 100])]

/-- The first listener has failed by the exit, so that the restart is left with one. -/
theorem listeners_tracked_server : ∃ m p, Run ((machine.watched monitor).under orderly) Use.allowed m p ∧
    p.listeners = ["server"] ∧ Balanced none m p := by
  have went : (carried ((machine.watched monitor).under orderly) Use.allowed
      (exits [.upTo (· == .createFor "server" none) 100,.stir (.recv 0 .failed)]) ({},{})).any
        (fun s => s.2.listeners == ["server"]) = true := by decide +kernel
  obtain ⟨s,carried,same⟩ := (Option.any_eq_true _ _).mp went
  have run := run_carried .start carried
  exact ⟨s.1,s.2,run,beq_iff_eq.mp same,(listeners_tracked run).1⟩

/-- After one restart there are two listeners for the one service. -/
theorem listeners_left : ¬ ∀ m p, Run (machine.watched monitor) (fun _ _ _ => true) m p →
    Balanced none m p := by
  intro claim
  have went : (carried (machine.watched monitor) (fun _ _ _ => true) (exits []) ({},{})).any
      (fun s => s.2.listeners == ["server","server"]) = true := by decide +kernel
  obtain ⟨s,carried,same⟩ := (Option.any_eq_true _ _).mp went
  have balanced := claim s.1 s.2 (run_carried .start carried)
  have single := balanced.single
  rw [beq_iff_eq.mp same] at single
  simp at single

end Runs
end MitosServices.Listeners
