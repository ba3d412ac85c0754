import Mathlib.Data.List.Infix
import MitosServices.Cgroups
import MitosServices.Interaction.Machine
import MitosServices.Starts

/-! The `memory.max` of the services' cgroups over a run: what a start finds in the directory it
makes or reuses, and what it leaves in effect there. -/
namespace MitosServices.Limits
open Interaction Interaction.Program

abbrev Directories := AList fun _ : Paths.Dir => Option Nat

/-- What cannot be done just now: rmdir fails while processes that have been killed are not gone. -/
structure Faults where
  mkdir : Bool := false
  write : Bool := false
  rmdir : Bool := false
deriving DecidableEq, Repr

namespace Directories

/-- A new cgroup has no limit, one that is there keeps its own. -/
def createDir (ds : Directories) (dir : Paths.Dir) : Directories :=
  if dir ∈ ds then ds else ds.insert dir none

def createDirAll (ds : Directories) (dir : Paths.Dir) : Directories := dir.inits.foldl createDir ds

def createUnder (ds : Directories) (dir : Paths.Dir) (memoryLimit : Option Nat) (faults : Faults) :
    Directories :=
  if faults.mkdir then ds
  else match memoryLimit with
    | none => ds.createDirAll dir
    | some limit => if faults.write then ds.createDirAll dir else (ds.createDirAll dir).insert dir limit

/-- `cgroup.kill` cannot be written where there is no cgroup, nor a cgroup removed that has others
in it. -/
def killAndRemoveUnder (ds : Directories) (dir : Paths.Dir) (faults : Faults) : Directories :=
  if faults.write || !Cgroups.killable dir || dir ∉ ds then ds
  else if faults.rmdir || ds.keys.any fun other => dir.isPrefixOf other && other != dir then ds
  else ds.erase dir

variable {ds : Directories} {dir : Paths.Dir} {faults : Faults}

theorem lookup_createDir (other : Paths.Dir) : (ds.createDir dir).lookup other =
    if other = dir then some (ds.lookup other).join else ds.lookup other := by
  unfold createDir
  split
  · rename_i there
    obtain ⟨limit,found⟩ := Option.isSome_iff_exists.mp (AList.lookup_isSome.mpr there)
    split
    · rename_i same
      rw [same,found]
      rfl
    · rfl
  · rename_i absent
    split
    · rename_i same
      rw [same,AList.lookup_insert,AList.lookup_eq_none.mpr absent]
      rfl
    · rename_i apart
      exact AList.lookup_insert_ne apart

theorem lookup_createDirs (dirs : List Paths.Dir) : (dirs.foldl createDir ds).lookup dir =
    if dir ∈ dirs then some (ds.lookup dir).join else ds.lookup dir := by
  induction dirs generalizing ds with
  | nil => simp
  | cons first rest ih =>
    rw [List.foldl_cons,ih,lookup_createDir]
    by_cases same : dir = first <;> by_cases listed : dir ∈ rest <;> simp [same,listed]

theorem lookup_createDirAll : (ds.createDirAll dir).lookup dir = some (ds.lookup dir).join := by
  rw [createDirAll,lookup_createDirs,if_pos ((List.mem_inits dir dir).mpr (List.prefix_refl dir))]

/-- In effect is the limit that is written, and where none is the one that was there. -/
theorem lookup_createUnder {limit : Option Nat} (made : faults.mkdir = false)
    (wrote : limit.isSome = true → faults.write = false) :
    (ds.createUnder dir limit faults).lookup dir = some (limit.or (ds.lookup dir).join) := by
  unfold createUnder
  rw [if_neg (by simp [made])]
  cases limit with
  | none => exact lookup_createDirAll
  | some limit =>
    dsimp only
    rw [if_neg (by simp [wrote rfl]),AList.lookup_insert]
    rfl

end Directories

/-- A call of `create_for`: the `memory.max` it found and the one it left, if the directory was
there, and whether every write succeeded. -/
structure Creation where
  name : String
  memoryLimit : Option Nat
  found : Option (Option Nat)
  left : Option (Option Nat)
  written : Bool
deriving DecidableEq, Repr

/-- `starts` has each process that was put in a cgroup, with the creation that came before. -/
structure Cgroupfs where
  directories : Directories := ∅
  faults : Faults := {}
  creation : Option Creation := none
  starts : List (Int × Creation) := []

inductive Event
  | faults (faults : Faults)
  | launched (id : String) (memoryLimit : Option Nat)

def cgroup (name : String) : Paths.Dir := (Cgroups.Owner.service name).cgroup

def appCgroup (id : String) : Paths.Dir := Paths.resolve (Cgroups.dirUnder Apps.appsCgroupRoot id)

namespace Cgroupfs

def createFor (fs : Cgroupfs) (name : String) (memoryLimit : Option Nat) : Cgroupfs :=
  let directories := fs.directories.createUnder (cgroup name) memoryLimit fs.faults
  { fs with
    directories
    creation := some {
      name
      memoryLimit
      found := fs.directories.lookup (cgroup name)
      left := directories.lookup (cgroup name)
      written := !fs.faults.mkdir && (memoryLimit.isNone || !fs.faults.write) } }

def attach (fs : Cgroupfs) (pid : Int) : Cgroupfs :=
  { fs with
    creation := none
    starts := fs.starts ++ fs.creation.toList.map fun c =>
      (pid,{ c with written := c.written && !fs.faults.write }) }

def killAndRemove (fs : Cgroupfs) (dir : Paths.Dir) : Cgroupfs :=
  { fs with directories := fs.directories.killAndRemoveUnder dir fs.faults }

def stir : Event → Op → Memory → Cgroupfs → Option Cgroupfs
  | .faults faults, _, _, fs => some { fs with faults }
  | .launched id limit, _, _, fs =>
    some { fs with directories := fs.directories.createUnder (appCgroup id) limit fs.faults }

def answer : (op : Op) → Memory → Cgroupfs → op.Ans → Option Cgroupfs
  | .createFor name memoryLimit, _, fs, _ => some (fs.createFor name memoryLimit)
  | .attach _ pid, _, fs, _ => some (fs.attach pid)
  | .killAndRemove name, _, fs, _ => some (fs.killAndRemove (cgroup name))
  | .killAndRemoveApp id, _, fs, _ => some (fs.killAndRemove (appCgroup id))
  | .iterate entries, _, fs, visited => if visited.Perm entries then some fs else none
  | .panic, _, _, _ => none
  | _, _, fs, _ => some fs

def machine : Machine Memory Op Op.Ans Cgroupfs Event := ⟨stir,answer⟩

end Cgroupfs

abbrev surroundings : Surroundings Memory Op Op.Ans Cgroupfs := Cgroupfs.machine.surroundings

/-- Every service in the table was put in its cgroup after that was made with its own limit. -/
def Recorded (m : Memory) (fs : Cgroupfs) : Prop :=
  ∀ pid sup, m.services.lookup pid = some sup → ∃ c, (pid,c) ∈ fs.starts ∧
    c.name = sup.definition.name ∧ c.memoryLimit = sup.definition.memoryLimit

section Invariant

def Creation.Sound (c : Creation) : Prop :=
  c.written = true → c.left = some (c.memoryLimit.or c.found.join)

structure Kept (m : Memory) (fs : Cgroupfs) : Prop where
  recorded : Recorded m fs
  sound : ∀ pid c, (pid,c) ∈ fs.starts → c.Sound

variable {m m' : Memory} {fs fs' : Cgroupfs} {op : Op} {pid : Int} {name : String} {limit : Option Nat}

theorem sound_createFor (c : Creation) (made : (fs.createFor name limit).creation = some c) :
    c.Sound ∧ c.name = name ∧ c.memoryLimit = limit := by
  cases made
  refine ⟨?_,rfl,rfl⟩
  intro written
  simp only [Bool.and_eq_true,Bool.not_eq_true',Bool.or_eq_true,Option.isNone_iff_eq_none] at written
  apply Directories.lookup_createUnder written.1
  intro limited
  exact written.2.resolve_left (Option.isSome_iff_ne_none.mp limited)

theorem kept_shrinks (shrinks : Shrinks m m') (kept : Kept m fs) : Kept m' fs :=
  ⟨fun pid sup found => kept.recorded pid sup (shrinks pid sup found),kept.sound⟩

theorem kept_same (same : fs'.starts = fs.starts) (kept : Kept m fs) : Kept m fs' := by
  obtain ⟨recorded,sound⟩ := kept
  unfold Recorded at recorded
  rw [← same] at recorded sound
  exact ⟨recorded,sound⟩

def Entered (pid : Int) (name : String) (limit : Option Nat) (fs : Cgroupfs) : Prop :=
  ∃ c, (pid,c) ∈ fs.starts ∧ c.name = name ∧ c.memoryLimit = limit

theorem kept_attach {c : Creation} (pid : Int) (made : fs.creation = some c) (sound : c.Sound) (kept : Kept m fs) :
    Kept m (fs.attach pid) ∧ Entered pid c.name c.memoryLimit (fs.attach pid) := by
  have starts : (fs.attach pid).starts =
      fs.starts ++ [(pid,{ c with written := c.written && !fs.faults.write })] := by
    rw [Cgroupfs.attach,made]
    rfl
  refine ⟨⟨?_,?_⟩,?_⟩
  · intro q sup found
    obtain ⟨c,listed,same⟩ := kept.recorded q sup found
    exact ⟨c,by rw [starts]; exact List.mem_append_left _ listed,same⟩
  · intro q d listed written
    rw [starts] at listed
    rcases List.mem_append.mp listed with before | last
    · exact kept.sound q d before written
    · cases List.mem_singleton.mp last
      exact sound (Bool.and_eq_true_iff.mp written).1
  · refine ⟨{ c with written := c.written && !fs.faults.write },?_,rfl,rfl⟩
    rw [starts]
    exact List.mem_append_right _ (List.mem_singleton_self _)

theorem kept_insert {sup : Supervised} (kept : Kept m fs)
    (entered : Entered pid sup.definition.name sup.definition.memoryLimit fs) :
    Kept { m with services := m.services.insert pid sup } fs := by
  refine ⟨?_,kept.sound⟩
  intro q other found
  rcases lookup_insert_iff.mp found with ⟨rfl,rfl⟩ | ⟨-,before⟩
  · exact entered
  · exact kept.recorded q other before

end Invariant

section Program
variable {m : Memory} {fs fs' : Cgroupfs} {op : Op} {pid : Int} {name : String} {limit : Option Nat}

def still : Op → Bool
  | .createFor _ _ | .attach _ _ => false
  | _ => true

theorem moves_records (moved : surroundings.moves op m fs fs') :
    fs'.starts = fs.starts ∧ fs'.creation = fs.creation := by
  obtain ⟨ev,stirred⟩ := moved
  cases ev <;> (cases Option.some.inj stirred; exact ⟨rfl,rfl⟩)

theorem replies_starts {r : op.Ans} (unconcerned : still op = true)
    (replied : surroundings.replies op m fs r fs') : fs'.starts = fs.starts := by
  have answered : Cgroupfs.answer op m fs r = some fs' := replied
  cases op with
  | iterate entries =>
    simp only [Cgroupfs.answer,Option.ite_none_right_eq_some,Option.some.injEq] at answered
    rw [answered.2]
  | _ => first | contradiction | (cases Option.some.inj answered; rfl)

abbrev asked (_ : Option Op) (m : Memory) (fs : Cgroupfs) : Prop := Kept m fs

theorem frame_kept {ok : Op → Prop} (unconcerned : ∀ op, ok op → still op = true) :
    surroundings.Frame asked Shrinks ok Kept where
  updates _ _ _ shrinks kept := kept_shrinks shrinks kept
  moves _ _ _ _ _ moved kept := kept_same (moves_records moved).1 kept
  replies op _ _ _ _ allowed replied kept := kept_same (replies_starts (unconcerned op allowed) replied) kept
  holds _ _ _ _ kept := kept

theorem frame_entered : surroundings.Frame asked Shrinks (fun op => still op = true)
    fun m fs => Kept m fs ∧ Entered pid name limit fs := by
  have same : ∀ {fs fs' : Cgroupfs}, fs'.starts = fs.starts → Entered pid name limit fs →
      Entered pid name limit fs' := by
    intro fs fs' same entered
    unfold Entered
    rwa [same]
  refine ⟨?_,?_,?_,?_⟩
  · exact fun m m' fs shrinks held => ⟨kept_shrinks shrinks held.1,held.2⟩
  · intro op m fs fs' _ moved held
    have unmoved := (moves_records moved).1
    exact ⟨kept_same unmoved held.1,same unmoved held.2⟩
  · intro op m fs r fs' allowed replied held
    have unwritten := replies_starts allowed replied
    exact ⟨kept_same unwritten held.1,same unwritten held.2⟩
  · exact fun op m fs _ held => held.1

theorem still_call {op : Op} (unconcerned : still op = true) :
    (call op).Uses Shrinks fun op => still op = true := uses_perform unconcerned

theorem prepareCommand_still (d : ServiceDef) :
    (prepareCommand d).Uses Shrinks fun op => still op = true := by
  refine uses_mono (prepareCommand_prepares d) shrinks_of_eq ?_
  intro op prepares
  cases op with
  | log line => rfl
  | _ => first | rfl | contradiction

theorem wp_track {d : ServiceDef} {times : List Nat} (kept : Kept m fs)
    (entered : Entered pid d.name d.memoryLimit fs) :
    (track pid d times).wp surroundings asked (fun _ => Kept) m fs := by
  refine wp_bind_frame frame_entered (still_call rfl) ⟨kept,entered⟩ fun t m fs held => ?_
  exact ⟨held.1,kept_insert held.1 held.2⟩

theorem wp_bind_housed {β : Type} {next : Unit → Code β} {Q : β → Memory → Cgroupfs → Prop}
    (kept : Kept m fs)
    (rest : ∀ fs, Kept m fs → Entered pid name limit fs → (next ()).wp surroundings asked Q m fs) :
    (call (.createFor name limit) >>= fun _ => call (.attach name pid) >>= next).wp surroundings asked
      Q m fs := by
  refine (wp_bind _ _ _ _ _).mpr (wp_perform (P := Kept m) kept ?_ ?_ ?_)
  · exact fun fs fs' moved kept => kept_same (moves_records moved).1 kept
  · exact fun fs kept => kept
  intro fs r fs' kept replied
  cases Option.some.inj replied
  obtain ⟨c,made⟩ : ∃ c, (fs.createFor name limit).creation = some c := ⟨_,rfl⟩
  obtain ⟨sound,rfl,rfl⟩ := sound_createFor c made
  have starts : (fs.createFor c.name c.memoryLimit).starts = fs.starts := rfl
  refine (wp_bind _ _ _ _ _).mpr
    (wp_perform (P := fun fs => Kept m fs ∧ fs.creation = some c) ⟨kept_same starts kept,made⟩ ?_ ?_ ?_)
  · intro fs fs' moved held
    obtain ⟨starts,creation⟩ := moves_records moved
    exact ⟨kept_same starts held.1,creation.trans held.2⟩
  · exact fun fs held => held.1
  intro fs r fs' held replied
  cases Option.some.inj replied
  obtain ⟨kept,entered⟩ := kept_attach pid held.2 sound held.1
  exact rest _ kept entered

theorem wp_started (d : ServiceDef) (times : List Nat) (pid : Int) (kept : Kept m fs) :
    (started d times pid).wp surroundings asked (fun _ => Kept) m fs := by
  refine wp_bind_frame (frame_kept fun _ h => h) (still_call rfl) kept fun _ m fs kept => ?_
  refine wp_bind_housed kept fun fs kept entered => ?_
  refine wp_bind_frame frame_entered (uses_each fun _ _ => still_call rfl) ⟨kept,entered⟩ ?_
  exact fun _ m fs held => wp_track held.1 held.2

theorem wp_rescued (pid : Int) (kept : Kept m fs) :
    (rescued pid).wp surroundings asked (fun _ => Kept) m fs := by
  refine wp_bind_frame (frame_kept fun _ h => h) (still_call rfl) kept fun _ m fs kept => ?_
  exact wp_bind_housed kept fun fs kept entered => wp_track kept entered

theorem wp_spawnWithHistory (d : ServiceDef) (times : List Nat) (kept : Kept m fs) :
    (spawnWithHistory d times).wp surroundings asked (fun _ => Kept) m fs := by
  have frame : surroundings.Frame asked Shrinks (fun op => still op = true) Kept := frame_kept fun _ h => h
  refine wp_bind_frame frame (prepareCommand_still d) kept fun command m fs kept => ?_
  refine wp_bind_frame frame (still_call rfl) kept fun child m fs kept => ?_
  cases child with
  | ok pid => exact wp_started d times pid kept
  | error err =>
    refine wp_bind_frame frame (still_call rfl) kept fun _ m fs kept => ?_
    rw [wp_provided]
    split
    · refine wp_bind_frame frame (still_call rfl) kept fun shell m fs kept => ?_
      cases shell with
      | ok pid => exact wp_rescued pid kept
      | error err => exact kept
    · exact kept

theorem wp_main (directories : Directories) (faults : Faults) :
    main.wp surroundings asked (fun _ => Kept) {} { directories, faults } := by
  have unconcerned : ∀ op : Op, op.starts = false → still op = true := by
    intro op unstarted
    cases op <;> first | rfl | contradiction
  refine wp_made (frame_kept unconcerned) ?_ main_startsOnly ?_
  · rintro _ ⟨d,times,rfl⟩ m fs kept
    exact wp_spawnWithHistory d times kept
  · exact ⟨fun pid sup found => by simp at found,fun pid c listed => by simp at listed⟩

/-- In every run, each start whose writes succeed has put the limit of the definition in effect
exactly if it has one or found none: what was in a directory that is still there stays. -/
theorem limit_applied_iff (directories : Directories) (faults : Faults)
    {t : State Memory Op Op.Ans Cgroupfs Unit}
    (run : Reaches surroundings ⟨main,{},{ directories, faults }⟩ t) :
    Recorded t.mem t.env ∧ ∀ pid c, (pid,c) ∈ t.env.starts → c.written = true →
      (c.left = some c.memoryLimit ↔ (c.memoryLimit = none → c.found.join = none)) := by
  have kept : Kept t.mem t.env :=
    wp_everywhere run (wp_main directories faults) fun _ _ _ kept => kept
  refine ⟨kept.recorded,?_⟩
  intro pid c listed written
  rw [kept.sound pid c listed written,Option.some_inj]
  cases c.memoryLimit with
  | none => simp
  | some limit => simp

end Program

section Runs

def server : ServiceDef :=
  { name := "server", path := "/usr/bin/server", memoryLimit := some 268435456, restart := .never, target := "multi-user" }

def freed : ServiceDef := { server with memoryLimit := none }

def configOf (m : Memory) : Config :=
  { Config.default with
    services := [if m.cfg.services = [server] then freed else server]
    defaultTarget := "multi-user" }

def obliging : (op : Op) → Memory → Cgroupfs → op.Ans
  | .swap .reloadRequested, _, _ => true
  | .spawn _ _, _, fs => .ok (100 + fs.starts.length)
  | .waitpid (.only pid) _, _, _ => .ok (.ended pid (.signaled .sigterm))
  | op, m, _ => Kernel.obliging (fun _ => true) (configOf m) op m {}

def reloadedRun (faults : Faults) : Option (State Memory Op Op.Ans Cgroupfs Unit) :=
  drive Cgroupfs.machine obliging [.upTo (· == .killAndRemove "server") 300,.stir (.faults faults),.step,
    .upTo (· == .attach "server" 101) 300,.step] ⟨main,{},{}⟩

def restartedWith (memoryMax : Option Nat) (fs : Cgroupfs) : Bool :=
  fs.starts.any fun start => start.1 == 101 && start.2.memoryLimit.isNone && start.2.written &&
    start.2.left == some memoryMax

theorem limit_applied_iff_removed : ∃ t, reloadedRun {} = some t ∧ restartedWith none t.env = true ∧
    Recorded t.mem t.env ∧ ∀ pid c, (pid,c) ∈ t.env.starts → c.written = true →
      (c.left = some c.memoryLimit ↔ (c.memoryLimit = none → c.found.join = none)) := by
  have there : (reloadedRun {}).any (fun t => restartedWith none t.env) = true := by decide +kernel
  obtain ⟨t,reached,now⟩ := (Option.any_eq_true _ _).mp there
  exact ⟨t,reached,now,limit_applied_iff ∅ {} (drive_reaches reached)⟩

/-- The cgroup cannot be removed yet, and the server runs on under the limit it had before. -/
theorem limit_outlives_definition : ¬ ∀ (directories : Directories) (faults : Faults)
    (t : State Memory Op Op.Ans Cgroupfs Unit),
    Reaches surroundings ⟨main,{},{ directories, faults }⟩ t →
      ∀ pid c, (pid,c) ∈ t.env.starts → c.written = true → c.left = some c.memoryLimit := by
  intro claim
  have there : (reloadedRun { rmdir := true }).any
      (fun t => restartedWith (some 268435456) t.env) = true := by decide +kernel
  obtain ⟨t,reached,now⟩ := (Option.any_eq_true _ _).mp there
  obtain ⟨⟨pid,c⟩,listed,restarted⟩ := List.any_eq_true.mp now
  simp only [Bool.and_eq_true,beq_iff_eq,Option.isNone_iff_eq_none] at restarted
  obtain ⟨⟨⟨-,unlimited⟩,written⟩,left⟩ := restarted
  have applied := claim ∅ {} t (drive_reaches reached) pid c listed written
  rw [left,unlimited] at applied
  contradiction

end Runs

end MitosServices.Limits
