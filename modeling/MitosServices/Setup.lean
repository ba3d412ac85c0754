import MitosServices.Starts
import MitosServices.Kernel

/-! Whatever has come and gone, every tracked process has been started by the calls its own definition asks for.
What the kernel makes of these calls is not looked at here. -/
namespace MitosServices.Setup
open Interaction Interaction.Program

structure Answers where
  uids : String → Option Nat := fun _ => none
  gids : String → Option Nat := fun _ => none
  sockets : String → Option String := fun _ => none

/-- The calls that were made for a process: its spawn, with the answers there were by then; the last one to attach
it, with the limit that was asked for when the cgroup was last to be created; and the last one to set its score. -/
structure Process where
  origin : Origin
  command : Command
  answers : Answers
  attached : Option (String × Option (Option Nat)) := none
  score : Option Int := none

structure Record where
  answers : Answers := {}
  created : String → Option (Option Nat) := fun _ => none
  processes : Int → Option Process := fun _ => none

def Record.revise (r : Record) (pid : Int) (f : Process → Process) : Record :=
  { r with processes := Function.update r.processes pid ((r.processes pid).map f) }

def noted : (op : Op) → op.Ans → Record → Record
  | .resolveUid spec, uid, r => { r with answers.uids := Function.update r.answers.uids spec uid }
  | .resolveGid spec, gid, r => { r with answers.gids := Function.update r.answers.gids spec gid }
  | .listenFor name _ _, sock, r => { r with answers.sockets := Function.update r.answers.sockets name sock }
  | .createFor name limit, _, r => { r with created := Function.update r.created name (some limit) }
  | .spawn origin command, .ok pid, r =>
    { r with processes := Function.update r.processes pid (some { origin, command, answers := r.answers }) }
  | .attach name pid, _, r => r.revise pid fun p => { p with attached := some (name,r.created name) }
  | .setScoreAdjust pid score, _, r => r.revise pid fun p => { p with score := some score }
  | _, _, r => r

def notes {Env Event : Type} : Monitor Memory Op Op.Ans Env Event Record where
  event _ _ _ _ r := r
  reply op _ _ answer r := noted op answer r

def commandOf (d : ServiceDef) (a : Answers) : Command :=
  serviceCommand d (d.user.bind a.uids) (d.group.bind a.gids) (a.sockets d.name)

/-- The calls a definition asks for: a spawn of its command under its name, the cgroup of that name created with its
memory limit, or without one, and the process attached there, and its score, if it has one. -/
inductive Fits : ServiceDef → Process → Prop
  | service (d : ServiceDef) (a : Answers) : Fits d
      ⟨.service d.name d.critical,commandOf d a,a,some (d.name,some d.memoryLimit),d.oomScoreAdjust⟩
  | rescue (a : Answers) : Fits fallbackShell
      ⟨.rescue,{ program := "/bin/sh" },a,some (fallbackShell.name,some none),none⟩

def Tended (services : Services) (processes : Int → Option Process) : Prop :=
  ∀ pid sup, services.lookup pid = some sup → ∃ p, processes pid = some p ∧ Fits sup.definition p

def Fresh {Env : Type} (S : Surroundings Memory Op Op.Ans Env) : Prop :=
  ∀ origin command pid m e e', S.replies (.spawn origin command) m e (.ok pid) e' → m.services.lookup pid = none

section Rules
variable {Env Event : Type} {M : Machine Memory Op Op.Ans Env Event} {m : Memory} {e e' : Env × Record}
  {services : Services} {processes : Int → Option Process} {pid : Int} {p : Process}

abbrev around (M : Machine Memory Op Op.Ans Env Event) : Surroundings Memory Op Op.Ans (Env × Record) :=
  (M.watched notes).surroundings

def asked (_ : Option Op) (m : Memory) (e : Env × Record) : Prop := Tended m.services e.2.processes

theorem notes_deaf : (@notes Env Event).Deaf fun _ => False where
  event _ _ _ _ _ := rfl
  reply _ _ _ _ _ unheard := unheard.elim

/-- What is noted of an untracked process concerns no tracked one. -/
theorem tended_update {p : Option Process} (untracked : services.lookup pid = none)
    (held : Tended services processes) : Tended services (Function.update processes pid p) := by
  intro other sup found
  have apart : other ≠ pid := by
    rintro rfl
    rw [untracked] at found
    contradiction
  obtain ⟨q,there,fits⟩ := held other sup found
  refine ⟨q,?_,fits⟩
  rw [Function.update_of_ne apart]
  exact there

structure Rising (pid : Int) (p : Process) (services : Services) (processes : Int → Option Process) : Prop where
  tended : Tended services processes
  untracked : services.lookup pid = none
  recorded : processes pid = some p

theorem tended_insert {sup : Supervised} (rising : Rising pid p services processes) (fits : Fits sup.definition p) :
    Tended (services.insert pid sup) processes := by
  intro other s found
  rcases lookup_insert_iff.mp found with ⟨rfl,rfl⟩ | ⟨-,before⟩
  · exact ⟨p,rising.recorded,fits⟩
  · exact rising.tended other s before

theorem rising_update (untracked : services.lookup pid = none) (held : Tended services processes) :
    Rising pid p services (Function.update processes pid (some p)) :=
  ⟨tended_update untracked held,untracked,Function.update_self _ _ _⟩

theorem rising_revised {r : Record} (f : Process → Process) (rising : Rising pid p services r.processes) :
    Rising pid (f p) services (r.revise pid f).processes := by
  rw [Record.revise,rising.recorded]
  exact rising_update rising.untracked rising.tended

/-- Outside the starts only processes are spawned that are tracked nowhere. -/
theorem frame_unstarted (fresh : Fresh M.surroundings) : (around M).Frame asked Shrinks (fun op => op.starts = false)
    fun m e => Tended m.services e.2.processes where
  updates m m' e shrinks held pid sup found := held pid sup (shrinks pid sup found)
  moves op m e e' _ moved held := by
    rw [notes_deaf.moves moved]
    exact held
  replies op m e r e' unstarted replied held := by
    obtain ⟨answered,heard⟩ := Machine.watched_answer_iff.mp replied
    rw [heard]
    cases op with
    | spawn origin command =>
      cases r with
      | ok pid => exact tended_update (fresh origin command pid m _ _ answered) held
      | error err => exact held
    | attach name pid => contradiction
    | setScoreAdjust pid score => contradiction
    | _ => exact held
  holds _ _ _ _ held := held

section Start
variable {d : ServiceDef} {times : List Nat}

/-- A call that is nothing to the processes. -/
theorem wp_bind_answered {α : Type} {op : Op} {f : op.Ans → Code α} {Q : α → Memory → Env × Record → Prop}
    (held : Tended m.services e.2.processes)
    (rest : ∀ k r, (f r).wp (around M) asked Q m (k,noted op r e.2)) : (call op >>= f).wp (around M) asked Q m e :=
  wp_bind_noted notes_deaf (fun _ => held) fun _ r k _ => rest k r

abbrev Underway (m : Memory) (known : Answers → Prop) (m' : Memory) (e : Env × Record) : Prop :=
  m = m' ∧ Tended m.services e.2.processes ∧ known e.2.answers

theorem wp_warns {c : Bool} {line : Line} (known : Answers → Prop) (underway : Underway m known m e) :
    (provided c (log line)).wp (around M) asked (fun _ => Underway m known) m e := by
  rw [wp_provided]
  split
  · exact wp_noted notes_deaf (fun _ => underway.2.1) fun _ _ _ _ => underway
  · exact underway

/-- Before the spawn only answers are noted, the ones the command is made of. -/
theorem wp_prepareCommand (held : Tended m.services e.2.processes) : (prepareCommand d).wp (around M) asked
    (fun command => Underway m fun a => command = commandOf d a) m e := by
  refine wp_then (R := fun uid => Underway m fun a => d.user.bind a.uids = uid) ?_ ?_
  · cases d.user with
    | none => exact ⟨rfl,held,rfl⟩
    | some spec => exact wp_noted notes_deaf (fun _ => held) fun _ uid _ _ => ⟨rfl,held,Function.update_self _ _ _⟩
  rintro uid _ e ⟨rfl,underway⟩
  refine wp_then (wp_warns (fun a => d.user.bind a.uids = uid) ⟨rfl,underway⟩) ?_
  rintro _ _ e ⟨rfl,held,user⟩
  refine wp_then (R := fun gid => Underway m fun a => d.user.bind a.uids = uid ∧ d.group.bind a.gids = gid) ?_ ?_
  · cases d.group with
    | none => exact ⟨rfl,held,user,rfl⟩
    | some spec =>
      exact wp_noted notes_deaf (fun _ => held) fun _ gid _ _ => ⟨rfl,held,user,Function.update_self _ _ _⟩
  rintro gid _ e ⟨rfl,underway⟩
  refine wp_then (wp_warns (fun a => d.user.bind a.uids = uid ∧ d.group.bind a.gids = gid) ⟨rfl,underway⟩) ?_
  rintro _ _ e ⟨rfl,held,user,group⟩
  refine wp_bind_answered held fun k _ => ?_
  refine wp_bind_answered held fun k sock => ⟨rfl,held,?_⟩
  have found : Function.update e.2.answers.sockets d.name sock d.name = sock := Function.update_self _ _ _
  exact congr (congr (congrArg (serviceCommand d) user.symm) group.symm) found.symm

/-- Attached under its name, where the cgroup was to be created with this limit. -/
theorem wp_bind_placed {β : Type} {name : String} {limit : Option Nat} {f : Unit → Code β}
    {Q : β → Memory → Env × Record → Prop} (rising : Rising pid p m.services e.2.processes)
    (rest : ∀ e, Rising pid { p with attached := some (name,some limit) } m.services e.2.processes →
      (f ()).wp (around M) asked Q m e) :
    (call (.createFor name limit) >>= fun _ => call (.attach name pid) >>= f).wp (around M) asked Q m e := by
  refine wp_bind_answered rising.tended fun k _ => ?_
  refine wp_bind_answered rising.tended fun k _ => rest _ ?_
  have placed := rising_revised (r := { e.2 with created := Function.update e.2.created name (some limit) })
    (fun p => { p with attached := some (name,Function.update e.2.created name (some limit) name) }) rising
  have limited : { p with attached := some (name,Function.update e.2.created name (some limit) name) } =
      { p with attached := some (name,some limit) } := by rw [Function.update_self]
  rw [limited] at placed
  exact placed

theorem wp_track (rising : Rising pid p m.services e.2.processes) (fits : Fits d p) :
    (track pid d times).wp (around M) asked (fun _ m e => Tended m.services e.2.processes) m e := by
  refine wp_bind_answered rising.tended fun _ t => ?_
  have inserted : Tended (m.services.insert pid ⟨d,times,t⟩) e.2.processes := tended_insert rising fits
  exact ⟨rising.tended,inserted⟩

theorem wp_started {a : Answers}
    (rising : Rising pid ⟨.service d.name d.critical,commandOf d a,a,none,none⟩ m.services e.2.processes) :
    (started d times pid).wp (around M) asked (fun _ m e => Tended m.services e.2.processes) m e := by
  refine wp_bind_answered rising.tended fun k _ => ?_
  refine wp_bind_placed rising fun e rising => ?_
  refine wp_then (R := fun _ m e => Rising pid ⟨.service d.name d.critical,commandOf d a,a,
    some (d.name,some d.memoryLimit),d.oomScoreAdjust⟩ m.services e.2.processes) ?_ fun _ m e rising => ?_
  · cases d.oomScoreAdjust with
    | none => exact rising
    | some score =>
      exact wp_bind_answered rising.tended fun k _ => rising_revised (fun p => { p with score := some score }) rising
  · exact wp_track rising (.service d a)

theorem wp_rescued {a : Answers}
    (rising : Rising pid ⟨.rescue,{ program := "/bin/sh" },a,none,none⟩ m.services e.2.processes) :
    (rescued pid).wp (around M) asked (fun _ m e => Tended m.services e.2.processes) m e :=
  wp_bind_answered rising.tended fun _ _ => wp_bind_placed rising fun _ rising => wp_track rising (.rescue a)

theorem wp_start (fresh : Fresh M.surroundings) (held : Tended m.services e.2.processes) :
    (spawnWithHistory d times).wp (around M) asked (fun _ m e => Tended m.services e.2.processes) m e := by
  refine wp_then (wp_prepareCommand held) ?_
  rintro _ _ e ⟨rfl,held,rfl⟩
  refine wp_bind_noted notes_deaf (fun _ => held) fun k child k' answered => ?_
  cases child with
  | ok pid => exact wp_started (rising_update (fresh _ _ pid m k k' answered) held)
  | error err =>
    refine wp_bind_answered held fun k _ => ?_
    rw [wp_provided]
    split
    · refine wp_bind_noted notes_deaf (fun _ => held) fun k shell k' answered => ?_
      cases shell with
      | ok pid => exact wp_rescued (rising_update (fresh _ _ pid m k k' answered) held)
      | error err => exact held
    · exact held

end Start

/-- At every moment of every run in which no child gets the pid of a tracked service, whatever exits, is
restarted, reloaded or rolled back: every tracked process was started under the name of its own definition by
that definition's command, with the users, the group and the socket that were found for it; it was last to be
attached to the cgroup of that name, which was last to be created with that memory limit or without one, and was
last to be given that score, if there is one; or it is the rescue shell. -/
theorem set_up_as_defined (M : Machine Memory Op Op.Ans Env Event) (fresh : Fresh M.surroundings) (k : Env)
    {t : State Memory Op Op.Ans (Env × Record) Unit}
    (run : Reaches (M.watched notes).surroundings ⟨main,{},(k,{})⟩ t) :
    ∀ pid sup, t.mem.services.lookup pid = some sup →
      ∃ p, t.env.2.processes pid = some p ∧ Fits sup.definition p := by
  have initial : Tended {} fun _ => none := fun pid sup found => by simp at found
  have keeps : main.wp (around M) asked (fun _ m e => Tended m.services e.2.processes) {} (k,{}) := by
    refine wp_made (frame_unstarted fresh) ?_ main_startsOnly initial
    rintro _ ⟨d,times,rfl⟩ m e held
    exact wp_start fresh held
  exact wp_everywhere run keeps fun _ _ _ held => held

end Rules

section Runs

def freshPids : Condition Memory Op Op.Ans Kernel Event where
  event _ _ _ _ := true
  reply
    | .spawn _ _, m, _, .ok pid => (m.services.lookup pid).isNone
    | _, _, _, _ => true

theorem freshPids_fresh : Fresh (Kernel.machine.under freshPids).surroundings := by
  intro origin command pid m e e' replied
  have allowed := (Machine.under_answer_iff.mp replied).1
  simpa [freshPids] using allowed

def web : ServiceDef :=
  { name := "web", path := "/usr/bin/web", restart := .always, user := some "www", memoryLimit := some 67108864,
    oomScoreAdjust := some 500, target := "multi-user" }

def shell : ServiceDef :=
  { name := "mitos-shell", path := "/usr/bin/mitos-shell", critical := true, target := "multi-user" }

def answers : (op : Op) → Memory → Kernel → op.Ans
  | .resolveUid _, _, _ => some 33
  | .listenFor _ _ _, _, _ => some "/run/mitos/notify/web.sock"
  | op, m, k => Kernel.obliging (fun origin => origin != .service "mitos-shell" true)
      { Config.default with services := [web,shell] } op m k

def turning : Cue Op Event := .upTo (· == .swap .rebootRequested) 400

def restartedRun : Option (State Memory Op Op.Ans (Kernel × Record) Unit) :=
  drive ((Kernel.machine.under freshPids).watched notes) (fun op m e => answers op m e.1)
    [turning,.stir (.exit 100 (some (.exited 1))),.step,turning] ⟨main,{},({},{})⟩

theorem set_up_as_defined_restarted : ∃ t, restartedRun = some t ∧ t.mem.services.keys = [100,101] ∧
    ∀ pid sup, t.mem.services.lookup pid = some sup →
      ∃ p, t.env.2.processes pid = some p ∧ Fits sup.definition p := by
  have there : restartedRun.any (fun t => t.mem.services.keys == [100,101]) = true := by decide +kernel
  obtain ⟨t,reached,tracked⟩ := (Option.any_eq_true _ _).mp there
  exact ⟨t,reached,beq_iff_eq.mp tracked,set_up_as_defined _ freshPids_fresh {} (drive_reaches reached)⟩

end Runs
end MitosServices.Setup
