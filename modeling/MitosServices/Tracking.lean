import MitosServices.Footprint
import MitosServices.Names

/-! Which definitions the table of tracked services has after a boot, an exit and a reload, among
any surroundings where critical services start. -/
namespace MitosServices.Tracking
open Interaction Interaction.Program
open Names (Unique)

variable {Env : Type} {S : Surroundings Memory Op Op.Ans Env} {A : Option Op → Memory → Env → Prop}
  {full : Env → Prop} {whole : Prop} {m : Memory} {e : Env}

/-- Critical services start, and a run is judged only when the loop turns. While the surroundings
are `full`, every start succeeds, with a pid that is not in the table. -/
structure Starting (S : Surroundings Memory Op Op.Ans Env) (A : Option Op → Memory → Env → Prop)
    (full : Env → Prop) : Prop where
  visits : Visits S
  unasked : ∀ op m e, op ≠ some (.swap .rebootRequested) → A op m e
  critical : ∀ name command err m e e',
    ¬ S.replies (.spawn (.service name true) command) m e (.error err) e'
  moves : ∀ op m e e', S.moves op m e e' → full e → full e'
  replies : ∀ op m e r e', op.supervises = true → S.replies op m e r e' → full e → full e'
  succeeds : ∀ origin command err m e e', full e →
    ¬ S.replies (.spawn origin command) m e (.error err) e'
  fresh : ∀ origin command pid m e e', full e → S.replies (.spawn origin command) m e (.ok pid) e' →
    m.services.lookup pid = none

section Rules

def Holds (full : Env → Prop) (whole : Prop) (M : Memory → Prop) (m : Memory) (e : Env) : Prop :=
  M m ∧ (whole → full e)

theorem holds_mono {M N : Memory → Prop} (implies : ∀ m, M m → N m) (held : Holds full whole M m e) :
    Holds full whole N m e := ⟨implies m held.1,held.2⟩

theorem supervises_of_quiet {op : Op} (quiet : op.quiet = true) : op.supervises = true := by
  cases op with
  | log line => exact quiet
  | _ => first | rfl | contradiction

theorem holds_steady (starting : Starting S A full) (M : Memory → Prop) :
    Steady S A (Holds full whole M) where
  moves op m e e' moved held := ⟨held.1,fun all => starting.moves op m e e' moved (held.2 all)⟩
  replies op m e r e' quiet replied held :=
    ⟨held.1,fun all => starting.replies op m e r e' (supervises_of_quiet quiet) replied (held.2 all)⟩
  holds op m e mild _ := by
    refine starting.unasked op m e ?_
    rintro rfl
    exact absurd (mild _ rfl) (by decide)

theorem holds_replied {op : Op} {r : op.Ans} {e' : Env} {M : Memory → Prop} (starting : Starting S A full)
    (supervises : op.supervises = true) (replied : S.replies op m e r e')
    (held : Holds full whole M m e) : Holds full whole M m e' :=
  ⟨held.1,fun all => starting.replies op m e r e' supervises replied (held.2 all)⟩

theorem wp_stop (starting : Starting S A full) {M : Memory → Prop} (pid : Int) (name : String)
    (start : Holds full whole M m e) : (stopOne pid name).wp S A (fun _ => Holds full whole M) m e := by
  refine wp_stopOne (.uniform (holds_steady starting M) ?_ ?_) start
  · exact fun sig m e _ => starting.unasked _ m e (by simp)
  · exact fun status m e e' held replied => holds_replied starting rfl replied held

theorem start_phases (starting : Starting S A full) {M N : Memory → Prop} {d : ServiceDef}
    {times : List Nat}
    (tracked : ∀ pid t m, M m → (whole → m.services.lookup pid = none) →
      N (withService m pid ⟨d,times,t⟩))
    (missed : ¬ whole → ∀ m, M m → N m) :
    StartPhases S A d times (Holds full whole M)
      (fun pid => Holds full whole fun m => M m ∧ (whole → m.services.lookup pid = none))
      (Holds full whole fun m => M m ∧ ¬ whole ∧ d.critical = false) (fun _ _ _ => False)
      (Holds full whole N) where
  before_steady := holds_steady starting _
  spawned_steady _ := holds_steady starting _
  failed_steady := holds_steady starting _
  rescue_steady _ := ⟨fun _ _ _ _ _ held => held,fun _ _ _ _ _ _ _ held => held,fun _ _ _ _ held => held.elim⟩
  child command pid m e e' held replied := by
    refine ⟨⟨held.1,fun all => ?_⟩,(holds_replied starting rfl replied held).2⟩
    exact starting.fresh _ command pid m e e' (held.2 all) replied
  refused command err m e e' held replied := by
    have some_fail : ¬ whole := fun all => starting.succeeds _ command err m e e' (held.2 all) replied
    have ordinary : d.critical = false := by
      rw [← Bool.not_eq_true]
      intro critical
      rw [critical] at replied
      exact starting.critical _ command err m e e' replied
    exact ⟨⟨held.1,some_fail,ordinary⟩,fun all => absurd all some_fail⟩
  shell _ _ _ _ _ held critical _ := by
    have ordinary := held.1.2.2
    rw [critical] at ordinary
    contradiction
  noShell _ _ _ _ _ held critical _ := by
    have ordinary := held.1.2.2
    rw [critical] at ordinary
    contradiction
  tracked pid t m e held := ⟨tracked pid t m held.1.1 held.1.2,held.2⟩
  trackedShell _ _ _ _ held := held.elim
  missed m e held _ := ⟨missed held.1.2.1 m held.1.1,held.2⟩

theorem wp_start (starting : Starting S A full) {M N : Memory → Prop} {d : ServiceDef}
    {times : List Nat}
    (tracked : ∀ pid t m, M m → (whole → m.services.lookup pid = none) →
      N (withService m pid ⟨d,times,t⟩))
    (missed : ¬ whole → ∀ m, M m → N m) (start : Holds full whole M m e) :
    (spawnWithHistory d times).wp S A (fun _ => Holds full whole N) m e :=
  wp_spawnWithHistory (start_phases starting tracked missed) start

end Rules

section Reloading

/-- Where a reconciliation stands after the definitions in `done`: what is tracked is one of them
or has a name still to come, and if everything starts, all of them are tracked. -/
structure Progress (whole : Prop) (done rest : List ServiceDef) (services : Services) : Prop where
  unique : Unique services
  source : ∀ pid sup, services.lookup pid = some sup →
    sup.definition ∈ done ∨ ∃ d ∈ rest, sup.definition.name = d.name
  complete : whole → ∀ d ∈ done, ∃ pid sup, services.lookup pid = some sup ∧ sup.definition = d

variable {services : Services} {done rest newDefs : List ServiceDef} {d : ServiceDef} {pid : Int}
  {sup : Supervised}

/-- A service that runs as it is defined is left alone. -/
theorem progress_same (progress : Progress whole done (d::rest) services)
    (found : services.lookup pid = some sup) (same : sup.definition = d) :
    Progress whole (done ++ [d]) rest services where
  unique := progress.unique
  source p s there := by
    rcases progress.source p s there with before | ⟨d',member,equal⟩
    · exact .inl (List.mem_append_left _ before)
    · rcases List.mem_cons.mp member with rfl | later
      · have pids : p = pid := progress.unique p pid s sup there found (equal.trans (same ▸ rfl))
        subst pids
        rw [found] at there
        cases there
        exact .inl (List.mem_append_right _ (List.mem_singleton.mpr same))
      · exact .inr ⟨d',later,equal⟩
  complete all d' member := by
    rcases List.mem_append.mp member with before | last
    · exact progress.complete all d' before
    · exact ⟨pid,sup,found,same.trans (List.mem_singleton.mp last).symm⟩

/-- With its name untracked, nothing is known of a definition any more. -/
theorem progress_untracked (progress : Progress whole done (d::rest) services)
    (free : services.tracks d.name = false) : Progress whole done rest services where
  unique := progress.unique
  source p s there := by
    rcases progress.source p s there with before | ⟨d',member,equal⟩
    · exact .inl before
    · rcases List.mem_cons.mp member with rfl | later
      · exact absurd equal (Services.tracks_eq_false.mp free p s there)
      · exact .inr ⟨d',later,equal⟩
  complete := progress.complete

theorem progress_struck (progress : Progress whole done (d::rest) services)
    (distinct : whole → ((done ++ d::rest).map ServiceDef.name).Nodup)
    (found : services.lookup pid = some sup) (named : sup.definition.name = d.name) :
    Progress whole done (d::rest) (services.erase pid) where
  unique := Names.unique_erase progress.unique
  source p s there := progress.source p s (lookup_erase_iff.mp there).2
  complete all d' member := by
    obtain ⟨p,s,there,same⟩ := progress.complete all d' member
    refine ⟨p,s,lookup_erase_iff.mpr ⟨?_,there⟩,same⟩
    rintro rfl
    rw [found] at there
    cases there
    -- one of the definitions done has the name of the one to come
    have apart := distinct all
    rw [List.map_append,List.map_cons] at apart
    have disjoint := (List.nodup_append.mp apart).2.2
    exact disjoint d'.name (List.mem_map_of_mem member) d.name (.head _) (same ▸ named)

theorem progress_started {times : List Nat} {t : Nat} (progress : Progress whole done rest services)
    (free : services.tracks d.name = false) (fresh : whole → services.lookup pid = none) :
    Progress whole (done ++ [d]) rest (services.insert pid ⟨d,times,t⟩) where
  unique := Names.unique_insert progress.unique free
  source p s there := by
    rcases lookup_insert_iff.mp there with ⟨-,rfl⟩ | ⟨-,old⟩
    · exact .inl (List.mem_append_right _ (.head _))
    · exact (progress.source p s old).imp_left (List.mem_append_left _)
  complete all d' member := by
    rcases List.mem_append.mp member with before | last
    · obtain ⟨p,s,there,same⟩ := progress.complete all d' before
      refine ⟨p,s,lookup_insert_iff.mpr (.inr ⟨?_,there⟩),same⟩
      rintro rfl
      rw [fresh all] at there
      contradiction
    · exact ⟨pid,_,AList.lookup_insert _,(List.mem_singleton.mp last).symm⟩

theorem progress_missed (partly : ¬ whole) (progress : Progress whole done rest services) :
    Progress whole (done ++ [d]) rest services where
  unique := progress.unique
  source p s there := (progress.source p s there).imp_left (List.mem_append_left _)
  complete all := absurd all partly

theorem wp_start_progress (starting : Starting S A full)
    (start : Holds full whole (fun m => Progress whole done rest m.services ∧
      m.services.tracks d.name = false) m e) :
    (spawnWithHistory d []).wp S A
      (fun _ => Holds full whole fun m => Progress whole (done ++ [d]) rest m.services) m e := by
  refine wp_start starting ?_ ?_ start
  · intro pid t m held fresh
    exact progress_started held.1 held.2 fresh
  · intro partly m held
    exact progress_missed partly held.1

theorem wp_reconcileOne (starting : Starting S A full)
    (distinct : whole → ((done ++ d::rest).map ServiceDef.name).Nodup)
    (start : Holds full whole (fun m => Progress whole done (d::rest) m.services) m e) :
    (reconcileOne d).wp S A
      (fun _ => Holds full whole fun m => Progress whole (done ++ [d]) rest m.services) m e := by
  refine wp_bind_read (starting.unasked none m e (by simp)) ?_
  have here : Holds full whole (fun m' => m' = m) m e := ⟨rfl,start.2⟩
  refine wp_bind_entries (holds_steady starting _) starting.visits here fun visited e visit held => ?_
  have progress := start.1
  split
  · rename_i pid sup found
    obtain ⟨there,named⟩ := Services.find_visited visit found
    split
    · rename_i same
      exact ⟨progress_same progress there ((defsEqual_iff named).mp same),held.2⟩
    · refine wp_then (R := fun _ => Holds full whole fun m => Progress whole (done ++ [d]) rest m.services)
        ?_ fun _ m e after => after
      refine wp_bind_steady (holds_steady starting _) (plain_call rfl) held fun _ m' e held => ?_
      obtain ⟨rfl,filled⟩ := held
      refine wp_bind_removeService (starting.unasked none m' e (by simp)) ?_
      have free : (withoutService m' pid).services.tracks d.name = false :=
        named ▸ Names.tracks_erase_self progress.unique there
      have struck : Progress whole done rest (withoutService m' pid).services :=
        progress_untracked (progress_struck progress distinct there named) free
      have halted : Holds full whole (fun m => Progress whole done rest m.services ∧
          m.services.tracks d.name = false) (withoutService m' pid) e := ⟨⟨struck,free⟩,filled⟩
      refine wp_then (wp_stop starting pid d.name halted) fun _ m e stopped => ?_
      exact wp_start_progress starting stopped
  · rename_i absent
    have free := Services.find_visited_none visit absent
    have untracked : Holds full whole (fun m => Progress whole done rest m.services ∧
        m.services.tracks d.name = false) m e := ⟨⟨progress_untracked progress free,free⟩,held.2⟩
    refine wp_bind_steady (holds_steady starting _) (plain_call rfl) untracked fun _ m e logged => ?_
    exact wp_then (wp_start_progress starting logged) fun _ m e after => after

theorem wp_reconcile (starting : Starting S A full) {touched : List String}
    (distinct : whole → ((done ++ rest).map ServiceDef.name).Nodup)
    (start : Holds full whole (fun m => Progress whole done rest m.services) m e) :
    (reconcile touched rest).wp S A
      (fun _ => Holds full whole fun m => Progress whole (done ++ rest) [] m.services) m e := by
  induction rest generalizing done touched m e with
  | nil =>
    rw [List.append_nil]
    exact start
  | cons d rest ih =>
    have moved : done ++ d :: rest = (done ++ [d]) ++ rest := by simp
    refine wp_then (wp_reconcileOne starting distinct start) fun changed m e after => ?_
    rw [moved] at distinct ⊢
    exact ih distinct after

def Removing (newDefs : List ServiceDef) (pids : List Int) (services : Services) : Prop :=
  Unique services ∧ ∀ pid sup, services.lookup pid = some sup →
    pid ∈ pids ∨ ∃ d ∈ newDefs, sup.definition.name = d.name

theorem removing_initial {visited : List (Int × Supervised)} (visit : visited.Perm services.toList)
    (unique : Unique services) : Removing newDefs (removedPids newDefs visited) services := by
  refine ⟨unique,fun pid sup found => ?_⟩
  by_cases named : ∃ d ∈ newDefs, sup.definition.name = d.name
  · exact .inr named
  · refine .inl (List.mem_map.mpr ⟨(pid,sup),List.mem_filter.mpr ⟨?_,?_⟩,rfl⟩)
    · exact visit.mem_iff.mpr (Services.mem_toList.mpr found)
    · simp only [Bool.not_eq_true',List.any_eq_false,beq_iff_eq]
      exact fun d member equal => named ⟨d,member,equal.symm⟩

theorem wp_stopRemoved (starting : Starting S A full) {pids : List Int}
    (start : Holds full whole (fun m => Removing newDefs (pid::pids) m.services) m e) :
    (stopRemoved pid).wp S A
      (fun _ => Holds full whole fun m => Removing newDefs pids m.services) m e := by
  obtain ⟨⟨unique,left⟩,filled⟩ := start
  have struck : Holds full whole (fun m => Removing newDefs pids m.services) (withoutService m pid) e := by
    refine ⟨⟨Names.unique_erase unique,fun p s there => ?_⟩,filled⟩
    obtain ⟨other,there⟩ := lookup_erase_iff.mp there
    exact (left p s there).imp_left fun member => (List.mem_cons.mp member).resolve_left other
  refine wp_bind_removeService (starting.unasked none m e (by simp)) ?_
  cases m.services.lookup pid with
  | none => exact struck
  | some sup =>
    refine wp_bind_steady (holds_steady starting _) (plain_call rfl) struck fun _ m e logged => ?_
    refine wp_then (wp_stop starting pid _ logged) fun _ m e stopped => ?_
    exact wp_steady (holds_steady starting _) (plain_call rfl) stopped

/-- A reload leaves new definitions in the table and nothing else; if everything starts, all of them. -/
theorem wp_reloadServices (starting : Starting S A full) (newDefs : List ServiceDef)
    (distinct : whole → (newDefs.map ServiceDef.name).Nodup) (unique : Unique m.services)
    (filled : whole → full e) :
    (reloadServices newDefs).wp S A (fun _ m' e' =>
      Holds full whole (fun m => Progress whole newDefs [] m.services) m' e' ∧ OnlyServices m m') m e := by
  refine wp_onlyServices (reloadServices_supervises newDefs) ?_
  refine wp_bind_read (starting.unasked none m e (by simp)) ?_
  have here : Holds full whole (fun m' => m' = m) m e := ⟨rfl,filled⟩
  refine wp_bind_entries (holds_steady starting _) starting.visits here fun visited e visit held => ?_
  refine wp_then (wp_each
    (fun pids m e => Holds full whole (fun m => Removing newDefs pids m.services) m e)
    ⟨removing_initial visit unique,held.2⟩ ?_) ?_
  · exact fun pid rest m e removing => wp_stopRemoved starting removing
  · intro _ m e removed
    have begun : Holds full whole (fun m => Progress whole [] newDefs m.services) m e := by
      refine holds_mono (fun m removing => ?_) removed
      refine ⟨removing.1,fun p s there => .inr ?_,fun _ d member => absurd member List.not_mem_nil⟩
      exact (removing.2 p s there).resolve_left List.not_mem_nil
    have walked : (reconcile [] newDefs).wp S A
        (fun _ => Holds full whole fun m => Progress whole ([] ++ newDefs) [] m.services) m e :=
      wp_reconcile starting distinct begun
    exact walked

end Reloading

section Exits

def Sound (ok : ServiceDef → Prop) (services : Services) : Prop :=
  Unique services ∧ ∀ pid sup, services.lookup pid = some sup → ok sup.definition

variable {ok : ServiceDef → Prop}

theorem sound_erase {services : Services} {pid : Int} (sound : Sound ok services) :
    Sound ok (services.erase pid) :=
  ⟨Names.unique_erase sound.1,fun p s there => sound.2 p s (lookup_erase_iff.mp there).2⟩

theorem sound_insert {services : Services} {pid : Int} {sup : Supervised} (sound : Sound ok services)
    (free : services.tracks sup.definition.name = false) (good : ok sup.definition) :
    Sound ok (services.insert pid sup) := by
  refine ⟨Names.unique_insert sound.1 free,fun p s there => ?_⟩
  rcases lookup_insert_iff.mp there with ⟨-,rfl⟩ | ⟨-,old⟩
  · exact good
  · exact sound.2 p s old

theorem wp_start_sound (starting : Starting S A full) {d : ServiceDef} {times : List Nat}
    (sound : Sound ok m.services) (free : m.services.tracks d.name = false) (good : ok d) :
    (spawnWithHistory d times).wp S A (fun _ m _ => Sound ok m.services) m e := by
  have start : Holds full False (fun m => Sound ok m.services ∧ m.services.tracks d.name = false) m e :=
    ⟨⟨sound,free⟩,False.elim⟩
  refine wp_mono (wp_start (N := fun m => Sound ok m.services) starting ?_ ?_ start) ?_
  · exact fun pid t m held _ => sound_insert held.1 held.2 good
  · exact fun _ m held => held.1
  · exact fun _ m e held => held.1

/-- An exit is answered with a definition that was tracked before, or with none. -/
theorem wp_handleExit (starting : Starting S A full) (status : WaitStatus) (sound : Sound ok m.services) :
    (handleExit status).wp S A (fun _ m' _ => Sound ok m'.services ∧ OnlyServices m m') m e := by
  refine wp_onlyServices (handleExit_answersExit status) ?_
  cases status with
  | stillAlive => exact sound
  | other => exact sound
  | ended pid ending =>
    refine wp_bind_removeService (starting.unasked none m e (by simp)) ?_
    have kept : Sound ok (withoutService m pid).services := sound_erase sound
    cases found : m.services.lookup pid with
    | none => exact kept
    | some sup =>
      have free : (withoutService m pid).services.tracks sup.definition.name = false :=
        Names.tracks_erase_self sound.1 found
      have here : Holds full False (fun m' => m' = withoutService m pid) (withoutService m pid) e :=
        ⟨rfl,False.elim⟩
      refine wp_bind_perform (holds_steady starting _) here ?_ fun e _ e' held replied => ?_
      · exact fun m e _ => starting.unasked _ m e (by simp)
      have held : Holds full False (fun m' => m' = withoutService m pid) (withoutService m pid) e' :=
        ⟨held.1,False.elim⟩
      refine wp_bind_steady (holds_steady starting _) (plain_call rfl) held fun _ m' e held => ?_
      refine wp_bind_steady (holds_steady starting _) (plain_call rfl) held fun _ m' e held => ?_
      obtain ⟨rfl,-⟩ := held
      split
      · exact kept
      · split
        · have here : Holds full False (fun m' => m' = withoutService m pid) (withoutService m pid) e :=
            ⟨rfl,False.elim⟩
          refine wp_bind_steady (holds_steady starting _) (plain_call rfl) here fun t m' e held => ?_
          obtain ⟨rfl,-⟩ := held
          dsimp only
          split
          · refine (wp_bind _ _ _ _ _).mpr ?_
            refine wp_perform (P := fun _ => True) trivial (fun _ _ _ _ => trivial) ?_ ?_
            · exact fun e _ => starting.unasked _ _ e (by simp)
            · exact fun _ _ _ _ _ => kept
          · exact wp_then (wp_start_sound starting kept free (sound.2 pid sup found)) fun _ m e after => after
        · exact kept

end Exits

section Boot

/-- Where the boot stands after the services in `done`. -/
theorem wp_startEach (starting : Starting S A full) {configured spawned : List String}
    {done rest : List ServiceDef} (distinct : ((done ++ rest).map ServiceDef.name).Nodup)
    (sound : Sound (· ∈ done) m.services) :
    (startEach configured spawned rest).wp S A (fun _ m _ => Sound (· ∈ done ++ rest) m.services) m e := by
  induction rest generalizing done spawned m e with
  | nil =>
    rw [List.append_nil]
    exact sound
  | cons d rest ih =>
    have moved : done ++ d :: rest = (done ++ [d]) ++ rest := by simp
    have free : m.services.tracks d.name = false := by
      rw [Services.tracks_eq_false]
      intro pid sup found named
      rw [List.map_append,List.map_cons] at distinct
      have disjoint := (List.nodup_append.mp distinct).2.2
      exact disjoint _ (List.mem_map_of_mem (sound.2 pid sup found)) d.name (.head _) named
    have wider : ∀ {services : Services}, Sound (· ∈ done) services → Sound (· ∈ done ++ [d]) services :=
      fun sound => ⟨sound.1,fun pid sup found => List.mem_append_left _ (sound.2 pid sup found)⟩
    rw [moved] at distinct ⊢
    refine wp_then (R := fun _ m _ => Sound (· ∈ done ++ [d]) m.services) ?_ fun spawned m e after =>
      ih distinct after
    have start : Holds full False (fun m => Sound (· ∈ done) m.services ∧
        m.services.tracks d.name = false) m e := ⟨⟨sound,free⟩,False.elim⟩
    unfold startOne
    dsimp only
    split
    · exact wp_bind_steady (holds_steady starting _) (plain_call rfl) start fun _ m e held =>
        wider held.1.1
    · refine wp_bind_steady (holds_steady starting _) (uses_each fun dep _ => waitForReady_plain dep _) start
        fun _ m e held => ?_
      refine wp_then (wp_start_sound starting (wider held.1.1) held.1.2
        (List.mem_append_right _ (.head _))) fun _ m e after => ?_
      exact wp_bind_read (starting.unasked none m e (by simp)) after

/-- After the boot every tracked definition is a configured one, but for what it is started after. -/
theorem wp_spawnAll (starting : Starting S A full) {defs : List ServiceDef}
    (distinct : (defs.map ServiceDef.name).Nodup) (new : m.services = ∅) :
    (spawnAll defs).wp S A (fun _ m' _ =>
      Sound (fun d => ∃ d' ∈ defs, Alike d d') m'.services ∧ OnlyServices m m') m e := by
  refine wp_onlyServices (spawnAll_supervises defs) ?_
  have start : Holds full False (fun m => m.services = ∅) m e := ⟨new,False.elim⟩
  refine wp_bind_topologicalOrder (holds_steady starting _) start fun m e held => ?_
  have empty : Sound (· ∈ ([] : List ServiceDef)) m.services := by
    rw [held.1]
    exact ⟨Names.unique_empty,fun pid sup found => by simp at found⟩
  refine wp_mono (wp_startEach starting (startingOrder_distinct distinct) empty) fun _ m e sound =>
    ⟨sound.1,fun pid sup found => ?_⟩
  have member := (startingOrder_perm (effectiveAfter defs)).mem_iff.mp (sound.2 pid sup found)
  rw [effectiveAfter_eq distinct] at member
  obtain ⟨d,configured,same⟩ := List.mem_map.mp member
  exact ⟨d,configured,same ▸ rfl⟩

end Boot
end MitosServices.Tracking
