import MitosServices.Names

/-! Reconciling the running set with a new list of definitions, when every start succeeds. A
monitor keeps the history of what was signalled, reaped, swept and started. -/
namespace MitosServices.Reload
open Interaction Interaction.Program
open Names (Unique)

inductive Act
  | signal (pid : Int) (sig : Signal)
  | reaped (pid : Int)
  | lost (pid : Int)
  | sweep (name : String)
  | start (name : String)
deriving DecidableEq, Repr

def Act.started : Act → Option String
  | .start name => some name
  | _ => none

def noted : (op : Op) → op.Ans → List Act
  | .kill pid sig, _ => [.signal pid sig]
  | .waitpid (.only pid) _, .ok (.ended _ _) => [.reaped pid]
  | .waitpid (.only pid) _, .error _ => [.lost pid]
  | .killAndRemove name, _ => [.sweep name]
  | .spawn (.service name _) _, .ok _ => [.start name]
  | _, _ => []

def history : Monitor Memory Op Op.Ans Kernel Event (List Act) where
  event _ _ _ _ acts := acts
  reply op _ _ r acts := acts ++ noted op r

/-- Every spawn succeeds, with a pid that is not in the table. -/
def freshStarts : Condition Memory Op Op.Ans (Kernel × List Act) Event where
  event _ _ _ _ := true
  reply
    | .spawn _ _, m, _, .ok pid => (m.services.lookup pid).isNone
    | .spawn _ _, _, _, .error _ => false
    | _, _, _, _ => true

def machine : Machine Memory Op Op.Ans (Kernel × List Act) Event :=
  (Kernel.machine.watched history).under freshStarts

/-- A pid was sent SIGTERM, then reaped, found gone or sent SIGKILL, then its cgroup was swept. -/
def Stopped (pid : Int) (name : String) (acts : List Act) : Prop :=
  ∃ farewell, (farewell = .reaped pid ∨ farewell = .lost pid ∨ farewell = .signal pid .sigkill) ∧
    [.signal pid .sigterm,farewell,.sweep name].Sublist acts

def changed (services : Services) (d : ServiceDef) : Bool :=
  !services.toList.any fun entry => entry.2.definition == d

/-- What a reload owes: the table `new` it leaves, the names it returns and what it did. -/
structure Reconciled (old new : Services) (newDefs : List ServiceDef) (touched : List String)
    (acts : List Act) : Prop where
  exact_names : ∀ name, new.tracks name = true ↔ name ∈ newDefs.map ServiceDef.name
  once : Unique new
  defined : ∀ pid sup, new.lookup pid = some sup → sup.definition ∈ newDefs
  kept : ∀ pid sup, old.lookup pid = some sup → sup.definition ∈ newDefs → new.lookup pid = some sup
  stopped : ∀ pid sup, old.lookup pid = some sup → sup.definition ∉ newDefs →
    Stopped pid sup.definition.name acts
  started : acts.filterMap Act.started = touched
  touched_changed : touched = (newDefs.filter (changed old)).map ServiceDef.name

section History

def Since (base : List Act) (names : List String) (acts : List Act) : Prop :=
  ∃ more, acts = base ++ more ∧ more.filterMap Act.started = names

theorem since_refl (base : List Act) : Since base [] base := ⟨[],by simp,rfl⟩

theorem since_append {base acts more : List Act} {names : List String} (grown : Since base names acts) :
    Since base (names ++ more.filterMap Act.started) (acts ++ more) := by
  obtain ⟨before,rfl,rfl⟩ := grown
  exact ⟨before ++ more,List.append_assoc _ _ _,List.filterMap_append⟩

theorem since_trans {base acts later : List Act} {names more : List String}
    (first : Since base names acts) (second : Since acts more later) :
    Since base (names ++ more) later := by
  obtain ⟨added,rfl,rfl⟩ := second
  exact since_append first

theorem since_silent {base acts more : List Act} {names : List String} (grown : Since base names acts)
    (silent : more.filterMap Act.started = []) : Since base names (acts ++ more) := by
  have longer : Since base (names ++ more.filterMap Act.started) (acts ++ more) := since_append grown
  rwa [silent,List.append_nil] at longer

theorem since_started {base acts : List Act} {names : List String} (grown : Since base names acts) :
    acts.filterMap Act.started = base.filterMap Act.started ++ names := by
  obtain ⟨more,rfl,rfl⟩ := grown
  exact List.filterMap_append

def Lasting (good : List Act → Prop) : Prop := ∀ acts more, good acts → good (acts ++ more)

theorem lasting_sublist (seen : List Act) : Lasting fun acts => seen.Sublist acts :=
  fun acts more found => found.trans (List.sublist_append_left acts more)

theorem lasting_stopped (pid : Int) (name : String) : Lasting (Stopped pid name) := by
  rintro acts more ⟨farewell,kind,found⟩
  exact ⟨farewell,kind,lasting_sublist _ acts more found⟩

theorem lasting_since {base acts : List Act} {names : List String} {good : List Act → Prop}
    (lasting : Lasting good) (grown : Since base names acts) (before : good base) : good acts := by
  obtain ⟨more,rfl,-⟩ := grown
  exact lasting base more before

theorem noted_silent {op : Op} (r : op.Ans) (quiet : op.quiet = true) :
    (noted op r).filterMap Act.started = [] := by
  cases op with
  | spawn origin command => contradiction
  | waitpid target nohang => contradiction
  | _ => rfl

theorem sublist_concat {seen acts : List Act} (found : seen.Sublist acts) (act : Act) :
    (seen ++ [act]).Sublist (acts ++ [act]) := found.append (.refl _)

end History

section Rules
variable {m : Memory} {e : Kernel × List Act}

abbrev asked (_ : Option Op) (_ : Memory) (_ : Kernel × List Act) : Prop := True

theorem replies_noted {op : Op} {r : op.Ans} {e' : Kernel × List Act}
    (replied : machine.surroundings.replies op m e r e') : e'.2 = e.2 ++ noted op r :=
  (Machine.heard_iff.mp replied).2.2

theorem history_unstirred : history.Unstirred := fun _ _ _ _ _ => rfl

theorem visits : Visits machine.surroundings := by
  intro listed m e visited e' replied
  have answered := Machine.watched_answer_iff.mp (Machine.under_answer_iff.mp replied).2
  exact Kernel.answer_iterate (m := m) answered.1

def At (services : Services) (base : List Act) (names : List String) (good : List Act → Prop) (m : Memory)
    (e : Kernel × List Act) : Prop :=
  m.services = services ∧ Since base names e.2 ∧ good e.2

theorem steady_at {services : Services} {base : List Act} {names : List String}
    {good : List Act → Prop} (lasting : Lasting good) :
    Steady machine.surroundings asked (At services base names good) where
  moves _ _ e e' moved held := by
    have same := history_unstirred.moves moved
    unfold At
    rw [same]
    exact held
  replies op m e r e' quiet replied held := by
    unfold At
    rw [replies_noted replied]
    exact ⟨held.1,since_silent held.2.1 (noted_silent r quiet),lasting _ _ held.2.2⟩
  holds _ _ _ _ _ := trivial

theorem steady_table (services : Services) (base : List Act) :
    Steady machine.surroundings asked (At services base [] fun _ => True) :=
  steady_at fun _ _ held => held

theorem stop_phases (services : Services) (base : List Act) (pid : Int) (name : String) :
    StopPhases machine.surroundings asked pid name (At services base [] fun _ => True)
      (At services base [] fun acts => [Act.signal pid .sigterm].Sublist acts)
      (At services base [] fun acts => ∃ farewell, (farewell = .reaped pid ∨ farewell = .lost pid ∨
        farewell = .signal pid .sigkill) ∧ [.signal pid .sigterm,farewell].Sublist acts)
      (At services base [] (Stopped pid name)) where
  before_steady := steady_table services base
  dying_steady := steady_at (lasting_sublist _)
  gone_steady := steady_at fun acts more ⟨farewell,kind,found⟩ =>
    ⟨farewell,kind,lasting_sublist _ acts more found⟩
  may_terminate _ _ _ := trivial
  may_kill _ _ _ := trivial
  terminated m e e' held replied := by
    unfold At
    rw [replies_noted replied]
    exact ⟨held.1,since_silent held.2.1 rfl,List.sublist_append_right e.2 _⟩
  reaped p ending m e e' held replied := by
    unfold At
    rw [replies_noted replied]
    exact ⟨held.1,since_silent held.2.1 rfl,_,.inl rfl,sublist_concat held.2.2 _⟩
  remains status m e e' held alive replied := by
    have silent : noted (.waitpid (.only pid) true) (.ok status) = [] := by
      cases status with
      | ended p ending => exact absurd rfl (alive p ending)
      | _ => rfl
    unfold At
    rw [replies_noted replied,silent,List.append_nil]
    exact held
  lost err m e e' held replied := by
    unfold At
    rw [replies_noted replied]
    exact ⟨held.1,since_silent held.2.1 rfl,_,.inr (.inl rfl),sublist_concat held.2.2 _⟩
  killed m e e' held replied := by
    unfold At
    rw [replies_noted replied]
    exact ⟨held.1,since_silent held.2.1 rfl,_,.inr (.inr rfl),sublist_concat held.2.2 _⟩
  swept m e e' held replied := by
    obtain ⟨same,grown,farewell,kind,found⟩ := held
    unfold At
    rw [replies_noted replied]
    exact ⟨same,since_silent grown rfl,farewell,kind,sublist_concat found _⟩

def Started (services : Services) (d : ServiceDef) (base : List Act) (m : Memory)
    (e : Kernel × List Act) : Prop :=
  ∃ pid sup, services.lookup pid = none ∧ sup.definition = d ∧
    m.services = services.insert pid sup ∧ Since base [d.name] e.2

theorem start_phases (services : Services) (base : List Act) (d : ServiceDef) (times : List Nat) :
    StartPhases machine.surroundings asked d times (At services base [] fun _ => True)
      (fun pid => At services base [d.name] fun _ => services.lookup pid = none)
      (fun _ _ => False) (fun _ _ _ => False) (Started services d base) where
  before_steady := steady_table services base
  spawned_steady _ := steady_at fun _ _ free => free
  failed_steady := ⟨fun _ _ _ _ _ held => held,fun _ _ _ _ _ _ _ held => held,fun _ _ _ _ _ => trivial⟩
  rescue_steady _ := ⟨fun _ _ _ _ _ held => held,fun _ _ _ _ _ _ _ held => held,fun _ _ _ _ _ => trivial⟩
  child command pid m e e' held replied := by
    have free := (Machine.under_answer_iff.mp replied).1
    simp only [freshStarts,Option.isNone_iff_eq_none,held.1] at free
    unfold At
    rw [replies_noted replied]
    exact ⟨held.1,since_append held.2.1,free⟩
  refused _ _ _ _ _ _ replied := by
    have impossible := (Machine.under_answer_iff.mp replied).1
    simp [freshStarts] at impossible
  shell _ _ _ _ _ held _ _ := held.elim
  noShell _ _ _ _ _ held _ _ := held.elim
  tracked pid t m e held := by
    refine ⟨pid,⟨d,times,t⟩,held.2.2,rfl,?_,held.2.1⟩
    rw [← held.1]
    rfl
  trackedShell _ _ _ _ held := held.elim
  missed _ _ held _ := held.elim

end Rules

section Removal

def named (newDefs : List ServiceDef) (sup : Supervised) : Prop :=
  ∃ d ∈ newDefs, sup.definition.name = d.name

/-- Where the removal stands: of `old`, everything unnamed is gone or still among `pids`. -/
structure Removing (old : Services) (newDefs : List ServiceDef) (pids : List Int)
    (services : Services) (acts : List Act) : Prop where
  within : ∀ pid sup, services.lookup pid = some sup → old.lookup pid = some sup
  settled : ∀ pid sup, old.lookup pid = some sup →
    services.lookup pid = some sup ∧ (named newDefs sup ∨ pid ∈ pids) ∨
      services.lookup pid = none ∧ ¬ named newDefs sup ∧ Stopped pid sup.definition.name acts
  unnamed : ∀ pid ∈ pids, ∀ sup, old.lookup pid = some sup → ¬ named newDefs sup
  silent : acts.filterMap Act.started = []

variable {old services : Services} {newDefs : List ServiceDef} {pids : List Int} {acts later : List Act}

theorem removing_gone {pid : Int} (removing : Removing old newDefs (pid::pids) services acts)
    (grown : Since acts [] later)
    (stopped : ∀ sup, services.lookup pid = some sup → Stopped pid sup.definition.name later) :
    Removing old newDefs pids (services.erase pid) later where
  within p sup found := removing.within p sup (lookup_erase_iff.mp found).2
  settled p sup found := by
    rcases removing.settled p sup found with ⟨there,state⟩ | ⟨absent,unnamed,before⟩
    · by_cases same : p = pid
      · subst same
        exact .inr ⟨AList.lookup_erase _ _,removing.unnamed p (.head _) sup found,stopped sup there⟩
      · refine .inl ⟨lookup_erase_iff.mpr ⟨same,there⟩,state.imp_right fun member => ?_⟩
        exact (List.mem_cons.mp member).resolve_left same
    · refine .inr ⟨?_,unnamed,lasting_since (lasting_stopped _ _) grown before⟩
      rw [Option.eq_none_iff_forall_ne_some] at absent ⊢
      exact fun s there => absent s (lookup_erase_iff.mp there).2
  unnamed p member := removing.unnamed p (.tail _ member)
  silent := by
    rw [since_started grown,removing.silent]
    rfl

theorem wp_stopRemoved {pid : Int} {m : Memory} {e : Kernel × List Act}
    (removing : Removing old newDefs (pid::pids) m.services e.2) :
    (stopRemoved pid).wp machine.surroundings asked
      (fun _ m e => Removing old newDefs pids m.services e.2) m e := by
  refine wp_bind_removeService trivial ?_
  cases found : m.services.lookup pid with
  | none => exact removing_gone removing (since_refl _) fun sup there => by simp [found] at there
  | some sup =>
    refine wp_bind_steady (steady_table (withoutService m pid).services e.2) (plain_call rfl)
      ⟨rfl,since_refl _,trivial⟩ fun _ m' e' logged => ?_
    refine wp_then (wp_stopOne (stop_phases _ e.2 pid sup.definition.name) logged)
      fun _ m' e' gone => ?_
    refine wp_mono (wp_steady (steady_at (lasting_stopped _ _)) (plain_call rfl) gone) ?_
    intro _ m' e' held
    rw [held.1]
    refine removing_gone removing held.2.1 fun s there => ?_
    rw [found] at there
    cases there
    exact held.2.2

theorem removing_initial {visited : List (Int × Supervised)} (visit : visited.Perm old.toList)
    (silent : acts.filterMap Act.started = []) :
    Removing old newDefs (removedPids newDefs visited) old acts where
  within _ _ found := found
  settled pid sup found := by
    by_cases there : named newDefs sup
    · exact .inl ⟨found,.inl there⟩
    · refine .inl ⟨found,.inr ?_⟩
      refine List.mem_map.mpr ⟨(pid,sup),List.mem_filter.mpr ⟨?_,?_⟩,rfl⟩
      · exact visit.mem_iff.mpr (Services.mem_toList.mpr found)
      · simp only [Bool.not_eq_true',List.any_eq_false,beq_iff_eq]
        exact fun d member equal => there ⟨d,member,equal.symm⟩
  unnamed pid member sup found := by
    obtain ⟨⟨p,s⟩,inside,rfl⟩ := List.mem_map.mp member
    obtain ⟨seen,absent⟩ := List.mem_filter.mp inside
    have same := Services.mem_toList.mp (visit.mem_iff.mp seen)
    rw [found] at same
    cases same
    simp only [Bool.not_eq_true',List.any_eq_false,beq_iff_eq] at absent
    exact fun ⟨d,there,equal⟩ => absent d there equal.symm
  silent := silent

end Removal

section Reconciling

/-- Where the reconciliation stands after the definitions in `done`. -/
structure Progress (old : Services) (newDefs done rest : List ServiceDef) (services : Services)
    (acts : List Act) (touched : List String) : Prop where
  unique : Unique services
  ran : ∀ d ∈ done, ∃ pid sup, services.lookup pid = some sup ∧ sup.definition = d
  source : ∀ pid sup, services.lookup pid = some sup →
    sup.definition ∈ done ∨ old.lookup pid = some sup ∧ named rest sup
  kept : ∀ pid sup, old.lookup pid = some sup → sup.definition ∈ newDefs →
    services.lookup pid = some sup
  stopped : ∀ pid sup, old.lookup pid = some sup → sup.definition ∉ newDefs →
    services.lookup pid = some sup ∧ named rest sup ∨ Stopped pid sup.definition.name acts
  started : acts.filterMap Act.started = touched
  touched_changed : touched = (done.filter (changed old)).map ServiceDef.name

variable {old services : Services} {newDefs done rest : List ServiceDef} {acts later : List Act}
  {touched : List String} {d : ServiceDef}

theorem progress_initial (unique : Unique old) (removing : Removing old newDefs [] services acts) :
    Progress old newDefs [] newDefs services acts [] where
  unique p q s t left right equal :=
    unique p q s t (removing.within p s left) (removing.within q t right) equal
  ran _ member := absurd member List.not_mem_nil
  source pid sup found := by
    have before := removing.within pid sup found
    rcases removing.settled pid sup before with ⟨-,there | member⟩ | ⟨absent,-⟩
    · exact .inr ⟨before,there⟩
    · exact absurd member List.not_mem_nil
    · rw [found] at absent
      contradiction
  kept pid sup found member := by
    rcases removing.settled pid sup found with ⟨there,-⟩ | ⟨-,unnamed,-⟩
    · exact there
    · exact absurd ⟨_,member,rfl⟩ unnamed
  stopped pid sup found _ := by
    rcases removing.settled pid sup found with ⟨there,state | member⟩ | ⟨-,-,gone⟩
    · exact .inl ⟨there,state⟩
    · exact absurd member List.not_mem_nil
    · exact .inr gone
  started := removing.silent
  touched_changed := rfl

theorem progress_since (progress : Progress old newDefs done rest services acts touched)
    (grown : Since acts [] later) : Progress old newDefs done rest services later touched :=
  { progress with
    stopped := fun pid sup found absent =>
      (progress.stopped pid sup found absent).imp_right (lasting_since (lasting_stopped _ _) grown)
    started := by rw [since_started grown,progress.started,List.append_nil] }

/-- In a list of distinct names, a definition is fixed by its name. -/
theorem same_definition {a b : ServiceDef} (distinct : (newDefs.map ServiceDef.name).Nodup)
    (left : a ∈ newDefs) (right : b ∈ newDefs) (equal : a.name = b.name) : a = b :=
  List.inj_on_of_nodup_map distinct left right equal

theorem other_name (distinct : (newDefs.map ServiceDef.name).Nodup)
    (split : newDefs = done ++ d :: rest) {d' : ServiceDef} (member : d' ∈ done ∨ d' ∈ rest) :
    d'.name ≠ d.name := by
  rw [split,List.map_append,List.map_cons,List.nodup_middle,List.nodup_cons] at distinct
  intro equal
  apply distinct.1
  rw [← equal,← List.map_append]
  exact List.mem_map_of_mem (List.mem_append.mpr member)

theorem changed_eq_false : changed old d = false ↔
    ∃ pid sup, old.lookup pid = some sup ∧ sup.definition = d := by
  simp only [changed,Bool.not_eq_false',List.any_eq_true,beq_iff_eq,Prod.exists,Services.mem_toList]

theorem progress_unchanged (distinct : (newDefs.map ServiceDef.name).Nodup)
    (split : newDefs = done ++ d :: rest)
    (progress : Progress old newDefs done (d::rest) services acts touched)
    {pid : Int} {sup : Supervised} (found : services.lookup pid = some sup)
    (same : sup.definition = d) : Progress old newDefs (done ++ [d]) rest services acts touched := by
  have here : d ∈ newDefs := by simp [split]
  have only : ∀ p s, services.lookup p = some s → s.definition.name = d.name → s.definition = d := by
    intro p s there equal
    have samePid := progress.unique p pid s sup there found (equal.trans (same ▸ rfl))
    subst samePid
    rw [found] at there
    exact Option.some.inj there ▸ same
  constructor
  case unique => exact progress.unique
  case ran =>
    intro d' member
    rcases List.mem_append.mp member with before | last
    · exact progress.ran d' before
    · exact ⟨pid,sup,found,same.trans (List.mem_singleton.mp last).symm⟩
  case source =>
    intro p s there
    rcases progress.source p s there with before | ⟨first,d',member,equal⟩
    · exact .inl (List.mem_append_left _ before)
    · rcases List.mem_cons.mp member with rfl | later
      · exact .inl (List.mem_append_right _ (only p s there equal ▸ List.mem_singleton_self _))
      · exact .inr ⟨first,d',later,equal⟩
  case kept => exact progress.kept
  case stopped =>
    intro p s first absent
    rcases progress.stopped p s first absent with ⟨there,d',member,equal⟩ | gone
    · rcases List.mem_cons.mp member with rfl | later
      · exact absurd (only p s there equal ▸ here) absent
      · exact .inl ⟨there,d',later,equal⟩
    · exact .inr gone
  case started => exact progress.started
  case touched_changed =>
    have running : changed old d = false := by
      rw [changed_eq_false]
      rcases progress.source pid sup found with before | ⟨first,-⟩
      · exact absurd rfl (other_name distinct split (.inl (same ▸ before)))
      · exact ⟨pid,sup,first,same⟩
    rw [List.filter_append,List.filter_singleton,running]
    simpa using progress.touched_changed

/-- A start under a name that was free, or freed by a stop. -/
theorem progress_restart (distinct : (newDefs.map ServiceDef.name).Nodup)
    (split : newDefs = done ++ d :: rest)
    (progress : Progress old newDefs done (d::rest) services acts touched)
    {cleared : Services} (others : ∀ p s, cleared.lookup p = some s ↔
      services.lookup p = some s ∧ s.definition.name ≠ d.name)
    (gone : ∀ p s, services.lookup p = some s → s.definition.name = d.name →
      s.definition ≠ d ∧ Stopped p s.definition.name later)
    {pid : Int} {sup : Supervised} (fresh : cleared.lookup pid = none) (same : sup.definition = d)
    (grown : Since acts [d.name] later) :
    Progress old newDefs (done ++ [d]) rest (cleared.insert pid sup) later (touched ++ [d.name]) := by
  have here : d ∈ newDefs := by simp [split]
  have kept_insert : ∀ p s, services.lookup p = some s → s.definition.name ≠ d.name →
      AList.lookup p (cleared.insert pid sup) = some s := by
    intro p s there differs
    have inside := (others p s).mpr ⟨there,differs⟩
    refine lookup_insert_iff.mpr (.inr ⟨?_,inside⟩)
    rintro rfl
    rw [fresh] at inside
    contradiction
  have clear_of : ∀ p s, old.lookup p = some s → s.definition ∈ newDefs → s.definition.name ≠ d.name := by
    intro p s first member equal
    have there := progress.kept p s first member
    exact (gone p s there equal).1 (same_definition distinct member here equal)
  constructor
  case unique =>
    refine Names.unique_insert ?_ ?_
    · intro p q s t left right equal
      exact progress.unique p q s t ((others p s).mp left).1 ((others q t).mp right).1 equal
    · rw [Services.tracks_eq_false,same]
      exact fun p s there => ((others p s).mp there).2
  case ran =>
    intro d' member
    rcases List.mem_append.mp member with before | last
    · obtain ⟨p,s,there,equal⟩ := progress.ran d' before
      exact ⟨p,s,kept_insert p s there (equal ▸ other_name distinct split (.inl before)),equal⟩
    · exact ⟨pid,sup,lookup_insert_iff.mpr (.inl ⟨rfl,rfl⟩),same.trans (List.mem_singleton.mp last).symm⟩
  case source =>
    intro p s there
    rcases lookup_insert_iff.mp there with ⟨-,rfl⟩ | ⟨-,inside⟩
    · exact .inl (List.mem_append_right _ (same ▸ List.mem_singleton_self _))
    · obtain ⟨before,differs⟩ := (others p s).mp inside
      rcases progress.source p s before with defined | ⟨first,d',member,equal⟩
      · exact .inl (List.mem_append_left _ defined)
      · rcases List.mem_cons.mp member with rfl | later
        · exact absurd equal differs
        · exact .inr ⟨first,d',later,equal⟩
  case kept =>
    intro p s first member
    exact kept_insert p s (progress.kept p s first member) (clear_of p s first member)
  case stopped =>
    intro p s first absent
    rcases progress.stopped p s first absent with ⟨there,d',member,equal⟩ | before
    · rcases List.mem_cons.mp member with rfl | after
      · exact .inr (gone p s there equal).2
      · have differs := equal ▸ other_name distinct split (.inr after)
        exact .inl ⟨kept_insert p s there differs,d',after,equal⟩
    · exact .inr (lasting_since (lasting_stopped _ _) grown before)
  case started => rw [since_started grown,progress.started]
  case touched_changed =>
    have new : changed old d = true := by
      rw [← Bool.not_eq_false,changed_eq_false]
      rintro ⟨p,s,first,rfl⟩
      exact clear_of p s first here rfl
    rw [List.filter_append,List.filter_singleton,new,progress.touched_changed]
    simp

section Walk
variable {m : Memory} {e : Kernel × List Act}

theorem wp_fresh_start (distinct : (newDefs.map ServiceDef.name).Nodup)
    (split : newDefs = done ++ d :: rest)
    (progress : Progress old newDefs done (d::rest) services acts touched)
    (others : ∀ p s, m.services.lookup p = some s ↔
      services.lookup p = some s ∧ s.definition.name ≠ d.name)
    (gone : ∀ p s, services.lookup p = some s → s.definition.name = d.name →
      s.definition ≠ d ∧ Stopped p s.definition.name e.2)
    (grown : Since acts [] e.2) :
    (spawnWithHistory d []).wp machine.surroundings asked (fun _ m e =>
      Progress old newDefs (done ++ [d]) rest m.services e.2 (touched ++ [d.name])) m e := by
  refine wp_mono (wp_spawnWithHistory (start_phases m.services e.2 d [])
    ⟨rfl,since_refl _,trivial⟩) ?_
  rintro _ m' e' ⟨pid,sup,free,same,table,started⟩
  rw [table]
  refine progress_restart distinct split progress others ?_ free same (since_trans grown started)
  intro p s there equal
  obtain ⟨differs,stopped⟩ := gone p s there equal
  exact ⟨differs,lasting_since (lasting_stopped _ _) started stopped⟩

theorem wp_replace (distinct : (newDefs.map ServiceDef.name).Nodup)
    (split : newDefs = done ++ d :: rest)
    (progress : Progress old newDefs done (d::rest) m.services e.2 touched) {pid : Int}
    {sup : Supervised} (found : m.services.lookup pid = some sup)
    (equal : sup.definition.name = d.name) (differs : sup.definition ≠ d) :
    (replace pid d).wp machine.surroundings asked (fun _ m e =>
      Progress old newDefs (done ++ [d]) rest m.services e.2 (touched ++ [d.name])) m e := by
  refine wp_bind_steady (steady_table m.services e.2) (plain_call rfl) ⟨rfl,since_refl _,trivial⟩
    fun _ m' e' logged => ?_
  refine wp_bind_removeService trivial ?_
  have cleared : At (m.services.erase pid) e.2 [] (fun _ => True) (withoutService m' pid) e' := by
    refine ⟨?_,logged.2⟩
    rw [← logged.1]
    rfl
  have only : ∀ p s, m.services.lookup p = some s → s.definition.name = d.name → p = pid :=
    fun p s there named => progress.unique p pid s sup there found (named.trans equal.symm)
  refine wp_then (wp_stopOne (stop_phases _ e.2 pid d.name) cleared) fun _ m' e' stopped => ?_
  refine wp_fresh_start distinct split progress ?_ ?_ stopped.2.1
  · intro p s
    rw [stopped.1,lookup_erase_iff]
    constructor
    · rintro ⟨other,there⟩
      exact ⟨there,fun named => other (only p s there named)⟩
    · rintro ⟨there,unlike⟩
      refine ⟨?_,there⟩
      rintro rfl
      rw [found] at there
      exact unlike (Option.some.inj there ▸ equal)
  · intro p s there named
    obtain rfl := only p s there named
    rw [found] at there
    cases there
    exact ⟨differs,equal ▸ stopped.2.2⟩

theorem wp_reconcileOne (distinct : (newDefs.map ServiceDef.name).Nodup)
    (split : newDefs = done ++ d :: rest)
    (progress : Progress old newDefs done (d::rest) m.services e.2 touched) :
    (reconcileOne d).wp machine.surroundings asked (fun changed m e =>
      Progress old newDefs (done ++ [d]) rest m.services e.2
        (if changed then touched ++ [d.name] else touched)) m e := by
  refine wp_bind_read trivial ?_
  refine wp_bind_entries (steady_table m.services e.2) visits ⟨rfl,since_refl _,trivial⟩
    fun visited e' visit held => ?_
  have progress := progress_since progress held.2.1
  split
  · rename_i pid sup found
    obtain ⟨there,equal⟩ := Services.find_visited visit found
    by_cases same : defsEqual sup.definition d = true
    · rw [if_pos same]
      exact progress_unchanged distinct split progress there ((defsEqual_iff equal).mp same)
    · rw [if_neg same]
      rw [defsEqual_iff equal] at same
      exact wp_then (wp_replace distinct split progress there equal same) fun _ m e after => after
  · rename_i absent
    have free := Services.tracks_eq_false.mp (Services.find_visited_none visit absent)
    refine wp_bind_steady (steady_table m.services e'.2) (plain_call rfl) ⟨rfl,since_refl _,trivial⟩
      fun _ m' e'' logged => ?_
    refine wp_then (wp_fresh_start distinct split progress ?_ ?_ logged.2.1) fun _ m e after => after
    · intro p s
      rw [logged.1]
      exact ⟨fun there => ⟨there,free p s there⟩,fun there => there.1⟩
    · exact fun p s there equal => absurd equal (free p s there)

theorem wp_reconcile (distinct : (newDefs.map ServiceDef.name).Nodup)
    (split : newDefs = done ++ rest)
    (progress : Progress old newDefs done rest m.services e.2 touched) :
    (reconcile touched rest).wp machine.surroundings asked (fun touched m e =>
      Progress old newDefs newDefs [] m.services e.2 touched) m e := by
  induction rest generalizing done touched m e with
  | nil =>
    rw [List.append_nil] at split
    subst split
    exact progress
  | cons d rest ih =>
    refine wp_then (wp_reconcileOne distinct split progress) fun changed m e after => ?_
    exact ih (by simp [split]) after

end Walk
end Reconciling

theorem reconciled_of_progress {old services : Services} {newDefs : List ServiceDef}
    {acts : List Act} {touched : List String}
    (progress : Progress old newDefs newDefs [] services acts touched) :
    Reconciled old services newDefs touched acts where
  exact_names name := by
    rw [Services.tracks_iff,List.mem_map]
    constructor
    · rintro ⟨pid,sup,found,rfl⟩
      rcases progress.source pid sup found with member | ⟨-,_,member,-⟩
      · exact ⟨_,member,rfl⟩
      · exact absurd member List.not_mem_nil
    · rintro ⟨d,member,rfl⟩
      obtain ⟨pid,sup,found,same⟩ := progress.ran d member
      exact ⟨pid,sup,found,same ▸ rfl⟩
  once := progress.unique
  defined pid sup found := by
    rcases progress.source pid sup found with member | ⟨-,_,member,-⟩
    · exact member
    · exact absurd member List.not_mem_nil
  kept := progress.kept
  stopped pid sup found absent := by
    rcases progress.stopped pid sup found absent with ⟨-,_,member,-⟩ | gone
    · exact absurd member List.not_mem_nil
    · exact gone
  started := progress.started
  touched_changed := progress.touched_changed

theorem wp_reloadServices {newDefs : List ServiceDef} {m : Memory} {k : Kernel}
    (distinct : (newDefs.map ServiceDef.name).Nodup) (unique : Unique m.services) :
    (reloadServices newDefs).wp machine.surroundings asked (fun touched m' e =>
      Reconciled m.services m'.services newDefs touched e.2) m (k,[]) := by
  refine wp_bind_read trivial ?_
  refine wp_bind_entries (steady_table m.services []) visits ⟨rfl,since_refl _,trivial⟩
    fun visited e visit held => ?_
  have removing : Removing m.services newDefs (removedPids newDefs visited) m.services e.2 :=
    removing_initial visit (since_started held.2.1)
  refine wp_then (wp_each (fun pids m' e => Removing m.services newDefs pids (Memory.services m') e.2)
    removing ?_) ?_
  · exact fun pid rest m' e left => wp_stopRemoved left
  · intro _ m' e left
    refine wp_mono (wp_reconcile distinct rfl (progress_initial unique left)) ?_
    exact fun touched m' e progress => reconciled_of_progress progress

/-- A reload whose starts succeed leaves exactly the new definitions running: the unchanged ones
untouched, everything else stopped, and the names it started returned in order. -/
theorem reload_reconciles (newDefs : List ServiceDef) (m : Memory) (k : Kernel)
    (distinct : (newDefs.map ServiceDef.name).Nodup) (unique : Unique m.services)
    {touched : List String} {m' : Memory} {e : Kernel × List Act}
    (run : Reaches machine.surroundings ⟨reloadServices newDefs,m,(k,[])⟩ ⟨.ret touched,m',e⟩) :
    Reconciled m.services m'.services newDefs touched e.2 := by
  have after := wp_returns run (wp_reloadServices distinct unique)
  exact after

section Example

def job : ServiceDef := { name := "job", path := "/usr/bin/job" }

def network : ServiceDef := { name := "network", path := "/usr/bin/network" }

def running : Memory :=
  { services := AList.insert 102 ⟨Names.display,[],3⟩ (AList.insert 101 ⟨job,[],2⟩
      (AList.insert 100 ⟨Names.shell,[1],1⟩ ∅)) }

def runningKernel : Kernel :=
  ((({} : Kernel).addChild 100 (.service "shell" true) fun _ => false).addChild 101 (.service "job" false)
    fun _ => false).addChild 102 (.service "display" true) fun _ => false

/-- A job with new arguments, the shell as it was, the display dropped and a network added. -/
theorem reload_reconciles_running : ∃ m' e, Reconciled running.services (Memory.services m')
    [{ job with args := ["--fast"] },Names.shell,network] ["job","network"] e := by
  have went : (drive machine (fun op m e => Kernel.obliging (fun _ => true) Config.default op m e.1)
      [.upTo (· == .waitpid (.only 102) true) 400,.stir (.exit 102 (some (.exited 0))),
        .upTo (· == .waitpid (.only 101) true) 400,.stir (.exit 101 (some (.signaled .sigterm))),
        .upTo (fun _ => false) 400]
      ⟨reloadServices [{ job with args := ["--fast"] },Names.shell,network],running,
        (runningKernel,[])⟩).bind State.result? = some ["job","network"] := by
    decide +kernel
  obtain ⟨m',e,run⟩ := drive_returns went
  exact ⟨m',e.2,reload_reconciles _ running runningKernel (by decide +kernel)
    (Names.unique_of_nodup (by decide +kernel)) run⟩

end Example
end MitosServices.Reload
