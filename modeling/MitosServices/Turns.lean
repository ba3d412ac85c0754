import Mathlib.Data.Fintype.EquivFin
import MitosServices.Interaction.Live
import MitosServices.Boot

/-! What becomes of each service at boot. A monitor keeps a record of the services handed to
spawn, of those skipped and of those waited for before they were either. -/
namespace MitosServices.Turns
open Interaction Interaction.Program
open Pids (originAt originAt_some)
open Boot (startedFrom startedAtBoot)

structure Record where
  handed : List String := []
  skipped : List String := []
  early : List String := []
deriving DecidableEq, Repr

def Record.settled (g : Record) (name : String) : Prop := name ∈ g.handed ∨ name ∈ g.skipped

instance (g : Record) (name : String) : Decidable (g.settled name) :=
  inferInstanceAs (Decidable (_ ∨ _))

def Record.wait (g : Record) (name : String) : Record :=
  if g.settled name then g else { g with early := g.early ++ [name] }

/-- What the record hears: a spawn, the line that skips a service, and both ways to tell that the
boot has been waiting. -/
def turns : Monitor Memory Op Op.Ans Kernel Event Record where
  event _ _ _ _ g := g
  reply
    | .spawn (.service name _) _, _, _, _, g => { g with handed := g.handed ++ [name] }
    | .log (.requiresMissing name _), _, _, _, g => { g with skipped := g.skipped ++ [name] }
    | .isReady name, _, _, _, g => g.wait name
    | .log (.readyTimedOut name), _, _, _, g => g.wait name
    | _, _, _, _, g => g

def watched : Machine Memory Op Op.Ans (Kernel × Record) Event := Kernel.machine.watched turns

def decided (ok : Bool → Bool) : Condition Memory Op Op.Ans (Kernel × Record) Event where
  event _ _ _ _ := true
  reply
    | .spawn (.service _ critical) _, _, _, child => child.isOk == ok critical
    | .spawn .rescue _, _, _, _ => false
    | _, _, _, _ => true

def Met (configured spawned : List String) (d : ServiceDef) : Prop :=
  ∀ r ∈ d.requires, r ∈ configured → r ∈ spawned

instance (configured spawned : List String) (d : ServiceDef) : Decidable (Met configured spawned d) :=
  inferInstanceAs (Decidable (∀ r ∈ d.requires, r ∈ configured → r ∈ spawned))

section Met
variable {configured spawned larger : List String} {d : ServiceDef} {xs ys : List ServiceDef}

theorem met_iff : (d.requires.filter fun r => configured.contains r && !spawned.contains r).isEmpty =
    true ↔ Met configured spawned d := by
  simp only [List.isEmpty_iff,List.filter_eq_nil_iff,Bool.and_eq_true,
    Bool.not_eq_true',List.contains_eq_mem,decide_eq_true_eq,decide_eq_false_iff_not,not_and,
    not_not,Met]

theorem met_mono (met : Met configured spawned d) (more : ∀ n ∈ spawned, n ∈ larger) :
    Met configured larger d :=
  fun r required known => more r (met r required known)

theorem startedFrom_cons_met (met : Met configured spawned d) :
    startedFrom configured spawned (d :: xs) =
      d :: startedFrom configured (spawned ++ [d.name]) xs := by
  rw [startedFrom,if_pos (met_iff.mpr met)]

theorem startedFrom_cons_unmet (unmet : ¬ Met configured spawned d) :
    startedFrom configured spawned (d :: xs) = startedFrom configured spawned xs := by
  rw [startedFrom,if_neg (fun empty => unmet (met_iff.mp empty))]

theorem startedFrom_append : startedFrom configured spawned (xs ++ ys) =
    startedFrom configured spawned xs ++ startedFrom configured
      (spawned ++ (startedFrom configured spawned xs).map ServiceDef.name) ys := by
  induction xs generalizing spawned with
  | nil => simp [startedFrom]
  | cons d xs ih =>
    by_cases met : Met configured spawned d
    · rw [List.cons_append,startedFrom_cons_met met,startedFrom_cons_met met,ih]
      simp
    · rw [List.cons_append,startedFrom_cons_unmet met,startedFrom_cons_unmet met,ih]

/-- What is started has all it requires among the started. -/
theorem startedFrom_met {started : ServiceDef} (member : started ∈ startedFrom configured spawned xs) :
    Met configured (spawned ++ (startedFrom configured spawned xs).map ServiceDef.name) started := by
  induction xs generalizing spawned with
  | nil => contradiction
  | cons d xs ih =>
    by_cases met : Met configured spawned d
    · rw [startedFrom_cons_met met] at member ⊢
      rcases List.mem_cons.mp member with rfl | later
      · exact met_mono met fun n known => List.mem_append_left _ known
      · refine met_mono (ih later) fun n known => ?_
        simpa using known
    · rw [startedFrom_cons_unmet met] at member ⊢
      exact ih member

end Met

section Rules
variable {S : Surroundings Memory Op Op.Ans (Kernel × Record)} {m : Memory} {e e' : Kernel × Record}

structure Watches (S : Surroundings Memory Op Op.Ans (Kernel × Record)) : Prop where
  moves : ∀ op m e e', S.moves op m e e' → e'.2 = e.2 ∧
    ∀ pid origin, originAt e.1 pid = some origin → originAt e'.1 pid = some origin
  replies : ∀ op m e r e', S.replies op m e r e' →
    Kernel.answer op m e.1 r = some e'.1 ∧ e'.2 = turns.reply op m e.1 r e.2

theorem watches_watched : Watches watched.surroundings where
  moves op m e e' moved := by
    obtain ⟨ev,stirred⟩ := moved
    obtain ⟨stirs,noted⟩ := Machine.watched_stir_iff.mp stirred
    exact ⟨noted,fun pid origin there => Pids.stir_origins stirs there⟩
  replies op m e r e' replied := Machine.watched_answer_iff.mp replied

theorem watches_under (C : Condition Memory Op Op.Ans (Kernel × Record) Event) :
    Watches (watched.under C).surroundings where
  moves op m e e' moved := by
    obtain ⟨ev,stirred⟩ := moved
    exact watches_watched.moves op m e e' ⟨ev,(Machine.under_stir_iff.mp stirred).2⟩
  replies op m e r e' replied :=
    watches_watched.replies op m e r e' (Machine.under_answer_iff.mp replied).2

abbrev asked (_ : Option Op) (_ : Memory) (_ : Kernel × Record) : Prop := True

theorem handed_quiet {op : Op} {r : op.Ans} {k : Kernel} {g : Record} (quiet : op.quiet = true) :
    (turns.reply op m k r g).handed = g.handed := by
  have waited : ∀ name, (g.wait name).handed = g.handed := by
    intro name
    unfold Record.wait
    split <;> rfl
  cases op with
  | spawn origin command => contradiction
  | isReady name => exact waited name
  | log line =>
    cases line with
    | readyTimedOut name => exact waited name
    | _ => rfl
  | _ => rfl

/-- A property of the memory, of what children were started as and of what was handed to spawn. -/
theorem steady_handed {P : Memory → Kernel × Record → Prop} (watches : Watches S)
    (grows : ∀ m e e', (∀ pid origin, originAt e.1 pid = some origin → originAt e'.1 pid = some origin) →
      e'.2.handed = e.2.handed → P m e → P m e') : Steady S asked P where
  moves op m e e' moved held := by
    obtain ⟨same,origins⟩ := watches.moves op m e e' moved
    exact grows m e e' origins (congrArg Record.handed same) held
  replies op m e r e' quiet replied held := by
    obtain ⟨answered,noted⟩ := watches.replies op m e r e' replied
    refine grows m e e' ?_ ?_ held
    · rw [Kernel.answer_quiet quiet answered]
      exact fun _ _ there => there
    · rw [noted]
      exact handed_quiet quiet
  holds _ _ _ _ _ := trivial

/-- A spawn that succeeds has a new child, one that fails changes no child. -/
theorem spawned_new (watches : Watches S) {origin : Origin} {command : Command} {pid : Int}
    (replied : S.replies (.spawn origin command) m e (.ok pid) e') :
    originAt e.1 pid = none ∧ originAt e'.1 pid = some origin ∧
      ∀ p o, originAt e.1 p = some o → originAt e'.1 p = some o := by
  obtain ⟨answered,-⟩ := watches.replies _ m e _ e' replied
  obtain ⟨unused,stepped⟩ := Kernel.answer_spawned answered
  rw [stepped]
  refine ⟨by simp [originAt,unused],?_,fun p o there => ?_⟩
  · exact originAt_some.mpr ⟨_,lookup_insert_iff.mpr (.inl ⟨rfl,rfl⟩),rfl⟩
  · obtain ⟨child,found,same⟩ := originAt_some.mp there
    refine originAt_some.mpr ⟨child,lookup_insert_iff.mpr (.inr ⟨?_,found⟩),same⟩
    rintro rfl
    rw [unused] at found
    contradiction

theorem unspawned_same (watches : Watches S) {origin : Origin} {command : Command} {err : String}
    (replied : S.replies (.spawn origin command) m e (.error err) e') : e'.1 = e.1 :=
  (Option.some.inj (watches.replies _ m e _ e' replied).1).symm

theorem handed_spawn (watches : Watches S) {name : String} {critical : Bool} {command : Command}
    {child : Except String Int}
    (replied : S.replies (.spawn (.service name critical) command) m e child e') :
    e'.2 = { e.2 with handed := e.2.handed ++ [name] } :=
  (watches.replies (.spawn (.service name critical) command) m e child e' replied).2

theorem rescue_unheard (watches : Watches S) {command : Command} {child : Except String Int}
    (replied : S.replies (.spawn .rescue command) m e child e') : e'.2 = e.2 :=
  (watches.replies (.spawn .rescue command) m e child e' replied).2

end Rules

section Decided
variable {ok : Bool → Bool} {m : Memory} {e e' : Kernel × Record} {ran : List ServiceDef} {d : ServiceDef}

abbrev deciding (ok : Bool → Bool) : Surroundings Memory Op Op.Ans (Kernel × Record) :=
  (watched.under (decided ok)).surroundings

theorem decided_spawn {name : String} {critical : Bool} {command : Command}
    {child : Except String Int}
    (replied : (deciding ok).replies (.spawn (.service name critical) command) m e child e') :
    child.isOk = ok critical :=
  beq_iff_eq.mp (Machine.under_answer_iff.mp replied).1

structure Ran (ran : List ServiceDef) (m : Memory) (e : Kernel × Record) : Prop where
  defined : ∀ pid sup, m.services.lookup pid = some sup → sup.definition ∈ ran ∧
    originAt e.1 pid = some (.service sup.definition.name sup.definition.critical)
  tracked : ∀ d ∈ ran, ∃ pid sup, m.services.lookup pid = some sup ∧ sup.definition = d

theorem ran_grows (origins : ∀ pid origin, originAt e.1 pid = some origin → originAt e'.1 pid = some origin)
    (held : Ran ran m e) : Ran ran m e' where
  defined pid sup found :=
    ⟨(held.defined pid sup found).1,origins pid _ (held.defined pid sup found).2⟩
  tracked := held.tracked

theorem ran_tracks {name : String} (held : Ran ran m e) :
    m.services.tracks name = true ↔ name ∈ ran.map ServiceDef.name := by
  rw [Services.tracks_iff,List.mem_map]
  constructor
  · rintro ⟨pid,sup,found,rfl⟩
    exact ⟨sup.definition,(held.defined pid sup found).1,rfl⟩
  · rintro ⟨d,member,rfl⟩
    obtain ⟨pid,sup,found,rfl⟩ := held.tracked d member
    exact ⟨pid,sup,found,rfl⟩

theorem ran_track {times : List Nat} {t : Nat} {pid : Int} (held : Ran ran m e)
    (free : m.services.lookup pid = none)
    (service : originAt e.1 pid = some (.service d.name d.critical)) :
    Ran (ran ++ [d]) (withService m pid ⟨d,times,t⟩) e where
  defined p sup found := by
    rcases lookup_insert_iff.mp found with ⟨rfl,rfl⟩ | ⟨-,before⟩
    · exact ⟨List.mem_append_right _ (List.mem_singleton_self _),service⟩
    · exact ⟨List.mem_append_left _ (held.defined p sup before).1,(held.defined p sup before).2⟩
  tracked d' member := by
    rcases List.mem_append.mp member with before | last
    · obtain ⟨p,sup,found,same⟩ := held.tracked d' before
      refine ⟨p,sup,lookup_insert_iff.mpr (.inr ⟨?_,found⟩),same⟩
      rintro rfl
      rw [free] at found
      contradiction
    · exact ⟨pid,_,lookup_insert_iff.mpr (.inl ⟨rfl,rfl⟩),(List.mem_singleton.mp last).symm⟩

def ranAfter (ok : Bool → Bool) (ran : List ServiceDef) (d : ServiceDef) : List ServiceDef :=
  if ok d.critical then ran ++ [d] else ran

def ranOnTurn (ok : Bool → Bool) (configured : List String) (ran : List ServiceDef) (d : ServiceDef) :
    List ServiceDef :=
  if Met configured (ran.map ServiceDef.name) d then ranAfter ok ran d else ran

theorem ranOnTurn_startedFrom (configured : List String) (rest : List ServiceDef) :
    ran ++ startedFrom configured (ran.map ServiceDef.name) ((d :: rest).filter fun d => ok d.critical) =
      ranOnTurn ok configured ran d ++ startedFrom configured
        ((ranOnTurn ok configured ran d).map ServiceDef.name) (rest.filter fun d => ok d.critical) := by
  unfold ranOnTurn ranAfter
  by_cases succeeds : ok d.critical = true
  · rw [List.filter_cons,if_pos succeeds]
    by_cases met : Met configured (ran.map ServiceDef.name) d
    · rw [startedFrom_cons_met met,if_pos met,if_pos succeeds]
      simp
    · rw [startedFrom_cons_unmet met,if_neg met]
  · rw [List.filter_cons,if_neg succeeds,if_neg succeeds,ite_self]

theorem ran_phases (rescues : ok true = true) (times : List Nat) (names : List String) :
    StartPhases (deciding ok) asked d times
      (fun m e => Ran ran m e ∧ e.2.handed = names)
      (fun pid m e => Ran ran m e ∧ m.services.lookup pid = none ∧
        originAt e.1 pid = some (.service d.name d.critical) ∧ ok d.critical = true ∧
        e.2.handed = names ++ [d.name])
      (fun m e => Ran ran m e ∧ ok d.critical = false ∧ e.2.handed = names ++ [d.name])
      (fun _ _ _ => False)
      (fun m e => Ran (ranAfter ok ran d) m e ∧ e.2.handed = names ++ [d.name]) where
  before_steady := steady_handed (watches_under _) fun m e e' origins same held =>
    ⟨ran_grows origins held.1,same.trans held.2⟩
  spawned_steady pid := steady_handed (watches_under _) fun m e e' origins same held =>
    ⟨ran_grows origins held.1,held.2.1,origins _ _ held.2.2.1,held.2.2.2.1,same.trans held.2.2.2.2⟩
  failed_steady := steady_handed (watches_under _) fun m e e' origins same held =>
    ⟨ran_grows origins held.1,held.2.1,same.trans held.2.2⟩
  rescue_steady _ := steady_handed (watches_under _) fun _ _ _ _ _ never => never
  child command pid m e e' held replied := by
    obtain ⟨unused,service,origins⟩ := spawned_new (watches_under _) replied
    have named := handed_spawn (watches_under _) replied
    refine ⟨ran_grows origins held.1,?_,service,(decided_spawn replied).symm,?_⟩
    · refine Option.eq_none_iff_forall_ne_some.mpr fun sup found => ?_
      rw [(held.1.defined pid sup found).2] at unused
      contradiction
    · rw [named,← held.2]
  refused command err m e e' held replied := by
    have same := unspawned_same (watches_under _) replied
    have named := handed_spawn (watches_under _) replied
    refine ⟨ran_grows (fun _ _ there => same ▸ there) held.1,(decided_spawn replied).symm,?_⟩
    rw [named,← held.2]
  shell command pid m e e' held critical replied := by
    rw [critical,rescues] at held
    exact absurd held.2.1 (by decide)
  noShell command err m e e' held critical replied := by
    rw [critical,rescues] at held
    exact absurd held.2.1 (by decide)
  tracked pid t m e held := by
    obtain ⟨ran,free,service,succeeds,named⟩ := held
    rw [ranAfter,if_pos succeeds]
    exact ⟨ran_track ran free service,named⟩
  trackedShell _ _ _ _ never := never.elim
  missed m e held _ := by
    rw [ranAfter,if_neg (by simp [held.2.1])]
    exact ⟨held.1,held.2.2⟩

/-- One turn when spawns are decided. -/
theorem wp_startOne_decided {configured spawned : List String} (rescues : ok true = true)
    (held : Ran ran m e) (up : ∀ n, n ∈ spawned ↔ n ∈ ran.map ServiceDef.name) :
    (startOne configured spawned d).wp (deciding ok) asked (fun spawned m e' =>
      Ran (ranOnTurn ok configured ran d) m e' ∧
      (∀ n, n ∈ spawned ↔ n ∈ (ranOnTurn ok configured ran d).map ServiceDef.name) ∧
      e'.2.handed = if Met configured (ran.map ServiceDef.name) d then e.2.handed ++ [d.name]
        else e.2.handed) m e := by
  have steady : Steady (deciding ok) asked fun m e' => Ran ran m e' ∧ e'.2.handed = e.2.handed :=
    steady_handed (watches_under _) fun m e e' origins same held =>
      ⟨ran_grows origins held.1,same.trans held.2⟩
  have same : Met configured spawned d ↔ Met configured (ran.map ServiceDef.name) d :=
    ⟨fun met => met_mono met fun n => (up n).mp,fun met => met_mono met fun n => (up n).mpr⟩
  unfold startOne ranOnTurn
  dsimp only
  by_cases met : Met configured spawned d
  · rw [met_iff.mpr met,if_pos (same.mp met),if_pos (same.mp met),if_neg (by simp)]
    refine wp_bind_steady steady (uses_each fun dep _ => waitForReady_plain dep _) ⟨held,rfl⟩
      fun _ m e' held => ?_
    refine wp_then (wp_spawnWithHistory (ran_phases rescues [] e.2.handed) held) fun _ m e' after => ?_
    refine wp_bind_read trivial ?_
    rw [wp_pure]
    refine ⟨after.1,fun n => ?_,after.2⟩
    have tracked := @ran_tracks _ _ _ d.name after.1
    unfold ranAfter at tracked ⊢
    by_cases succeeds : ok d.critical = true
    · rw [if_pos succeeds] at tracked ⊢
      rw [if_pos (tracked.mpr (by simp))]
      simp [up n]
    · rw [if_neg succeeds] at tracked ⊢
      split
      · rename_i there
        rw [List.mem_append,List.mem_singleton,up n]
        exact ⟨fun known => known.elim id fun same => same ▸ tracked.mp there,.inl⟩
      · exact up n
  · have missing := fun empty => met (met_iff.mp empty)
    rw [if_pos (by simpa using missing),if_neg (fun known => met (same.mpr known)),
      if_neg (fun known => met (same.mpr known))]
    refine wp_bind_steady steady (plain_call rfl) ⟨held,rfl⟩ fun _ m e' held => ?_
    exact ⟨held.1,up,held.2⟩

theorem wp_startEach_decided {configured spawned : List String} {rest : List ServiceDef}
    (rescues : ok true = true) (held : Ran ran m e)
    (up : ∀ n, n ∈ spawned ↔ n ∈ ran.map ServiceDef.name) :
    (startEach configured spawned rest).wp (deciding ok) asked (fun _ => Ran (ran ++
      startedFrom configured (ran.map ServiceDef.name) (rest.filter fun d => ok d.critical))) m e := by
  induction rest generalizing ran spawned m e with
  | nil =>
    rw [List.filter_nil,startedFrom,List.append_nil]
    exact held
  | cons d rest ih =>
    rw [ranOnTurn_startedFrom]
    exact wp_then (wp_startOne_decided rescues held up) fun spawned m e after => ih after.1 after.2.1

end Decided

section Ends

def boots : Op → Bool
  | .now | .sleep _ | .log _ | .resolveUid _ | .resolveGid _ | .listenFor _ _ _ | .forget _ | .isReady _
  | .createFor _ _ | .attach _ _ | .setScoreAdjust _ _ => true
  | _ => false

/-- Surroundings that leave no call of a boot without an answer, may call any service ready and
may start every critical service. -/
structure Answers (S : Surroundings Memory Op Op.Ans (Kernel × Record)) : Prop where
  some : ∀ op : Op, boots op = true → ∀ m e, ∃ r e', S.replies op m e r e'
  ready : ∀ name m e, ∃ e', S.replies (.isReady name) m e true e'
  starts : ∀ name critical command m e, ∃ child e', (critical = true → child.isOk = true) ∧
    S.replies (.spawn (.service name critical) command) m e child e'

variable {S : Surroundings Memory Op Op.Ans (Kernel × Record)}

theorem ends_call {op : Op} (answers : Answers S) (boot : boots op = true) : Ends S (call op) :=
  ends_perform fun m e => answers.some op boot m e

theorem ends_resolveWith {resolve : String → Code (Option Nat)} (inside : ∀ spec, Ends S (resolve spec))
    (spec : Option String) : Ends S (resolveWith resolve spec) := by
  cases spec with
  | none => exact ends_pure none
  | some spec => exact inside spec

theorem waitForReady_ends (answers : Answers S) (name : String) (timeout : Nat) :
    Ends S (waitForReady name timeout) := by
  refine ends_then (ends_call answers rfl) fun start => ends_then (ends_repeatFrom fun _ => ?_)
    fun ready => ends_provided (ends_call answers rfl)
  refine canEnd_then (ends_call answers rfl) fun t => ?_
  by_cases early : t < start + timeout
  · rw [if_pos early]
    have ready := @canEnd_perform Memory Op Op.Ans _ S (.isReady name) (fun r => r = true)
      fun m e => (answers.ready name m e).elim fun e' replied => ⟨true,e',rfl,replied⟩
    refine canEnd_bind ready fun r known => ?_
    rw [known]
    exact canEnd_pure rfl
  · rw [if_neg early]
    exact canEnd_pure rfl

theorem prepareCommand_ends (answers : Answers S) (d : ServiceDef) : Ends S (prepareCommand d) :=
  ends_then (ends_resolveWith (fun _ => ends_call answers rfl) _) fun _ =>
  ends_then (ends_provided (ends_call answers rfl)) fun _ =>
  ends_then (ends_resolveWith (fun _ => ends_call answers rfl) _) fun _ =>
  ends_then (ends_provided (ends_call answers rfl)) fun _ =>
  ends_then (ends_call answers rfl) fun _ =>
  ends_then (ends_call answers rfl) fun _ => ends_pure _

theorem track_ends (answers : Answers S) (pid : Int) (d : ServiceDef) (times : List Nat) :
    Ends S (track pid d times) :=
  ends_then (ends_call answers rfl) fun _ => ends_update _

theorem spawnWithHistory_ends (answers : Answers S) (d : ServiceDef) (times : List Nat) :
    Ends S (spawnWithHistory d times) := by
  refine ends_then (prepareCommand_ends answers d) fun command => ?_
  have child := @canEnd_perform Memory Op Op.Ans _ S (.spawn (.service d.name d.critical) command)
    (fun child => d.critical = true → child.isOk = true)
    fun m e => answers.starts d.name d.critical command m e
  refine ends_bind child fun child starts => ?_
  cases child with
  | ok pid =>
    exact ends_then (ends_call answers rfl) fun _ => ends_then (ends_call answers rfl) fun _ =>
      ends_then (ends_call answers rfl) fun _ =>
      ends_then (ends_each fun _ _ => ends_call answers rfl) fun _ => track_ends answers _ _ _
  | error err =>
    refine ends_then (ends_call answers rfl) fun _ => ?_
    cases critical : d.critical with
    | false => exact ends_pure ()
    | true => exact absurd (starts critical) (by simp [Except.isOk,Except.toBool])

theorem startOne_ends (answers : Answers S) (configured spawned : List String) (d : ServiceDef) :
    Ends S (startOne configured spawned d) := by
  unfold startOne
  dsimp only
  split
  · exact ends_then (ends_call answers rfl) fun _ => ends_pure _
  · exact ends_then (ends_each fun dep _ => waitForReady_ends answers dep _) fun _ =>
      ends_then (spawnWithHistory_ends answers d []) fun _ => ends_then ends_read fun _ => ends_pure _

theorem startEach_ends (answers : Answers S) (configured spawned : List String)
    (defs : List ServiceDef) : Ends S (startEach configured spawned defs) := by
  induction defs generalizing spawned with
  | nil => exact ends_pure ()
  | cons d rest ih => exact ends_then (startOne_ends answers configured spawned d) fun spawned => ih spawned

/-- A boot can come to its end. -/
theorem spawnAll_ends (answers : Answers S) (defs : List ServiceDef) : Ends S (spawnAll defs) := by
  refine ends_then ?_ fun ordered => startEach_ends answers _ _ ordered
  exact ends_then (ends_provided (ends_call answers rfl)) fun _ => ends_pure _

/-- There is always a pid that no child has. -/
theorem exists_unused (k : Kernel) : ∃ pid, k.children.lookup pid = none := by
  obtain ⟨pid,unused⟩ := Infinite.exists_notMem_finset k.children.keys.toFinset
  refine ⟨pid,AList.lookup_eq_none.mpr fun member => unused ?_⟩
  exact List.mem_toFinset.mpr member

theorem decided_answers {ok : Bool → Bool} {op : Op} {m : Memory} {e : Kernel × Record} {r : op.Ans}
    {k : Kernel} (answers : Kernel.answer op m e.1 r = some k)
    (allowed : (decided ok).reply op m e r = true) :
    ∃ e', (deciding ok).replies op m e r e' :=
  ⟨(k,turns.reply op m e.1 r e.2),Machine.under_answer_iff.mpr ⟨allowed,
    Machine.watched_answer_iff.mpr ⟨answers,rfl⟩⟩⟩

theorem answers_decided {ok : Bool → Bool} (rescues : ok true = true) : Answers (deciding ok) where
  some op boot m e := by
    cases op with
    | now => exact ⟨e.1.clock,decided_answers (k := e.1) (by simp [Kernel.answer]) rfl⟩
    | sleep duration => exact ⟨(),decided_answers rfl rfl⟩
    | log line => exact ⟨(),decided_answers rfl rfl⟩
    | resolveUid spec => exact ⟨none,decided_answers rfl rfl⟩
    | resolveGid spec => exact ⟨none,decided_answers rfl rfl⟩
    | listenFor name uid gid => exact ⟨none,decided_answers rfl rfl⟩
    | forget name => exact ⟨(),decided_answers rfl rfl⟩
    | isReady name => exact ⟨true,decided_answers rfl rfl⟩
    | createFor name limit => exact ⟨(),decided_answers rfl rfl⟩
    | attach name pid => exact ⟨(),decided_answers rfl rfl⟩
    | setScoreAdjust pid score => exact ⟨(),decided_answers rfl rfl⟩
    | _ => contradiction
  ready name m e := decided_answers rfl rfl
  starts name critical command m e := by
    cases will : ok critical with
    | true =>
      obtain ⟨pid,unused⟩ := exists_unused e.1
      have allowed : (decided ok).reply (.spawn (.service name critical) command) m e (.ok pid) = true := by
        simp [decided,will,Except.isOk,Except.toBool]
      have answered : Kernel.answer (.spawn (.service name critical) command) m e.1 (.ok pid) =
          some (e.1.addChild pid (.service name critical) e.1.mainMask) := by
        simp [Kernel.answer,unused]
      obtain ⟨e',replied⟩ := decided_answers answered allowed
      exact ⟨.ok pid,e',fun _ => rfl,replied⟩
    | false =>
      have allowed : (decided ok).reply (.spawn (.service name critical) command) m e (.error "") =
          true := by
        simp [decided,will,Except.isOk,Except.toBool]
      obtain ⟨e',replied⟩ := decided_answers (m := m) (e := e) (k := e.1) rfl allowed
      refine ⟨.error "",e',fun critical_ => ?_,replied⟩
      rw [critical_,rescues] at will
      contradiction

/-- A boot whose spawns are decided does end, and with what it has started in the table. -/
theorem decided_boot {ok : Bool → Bool} (rescues : ok true = true) (defs : List ServiceDef) :
    ∃ m' e', Reaches (deciding ok) ⟨spawnAll defs,{},({},{})⟩ ⟨.ret (),m',e'⟩ ∧
      Ran (startedFrom (defs.map ServiceDef.name) []
        ((startingOrder (effectiveAfter defs)).filter fun d => ok d.critical)) m' e' := by
  obtain ⟨_,m',e',run⟩ := spawnAll_ends (answers_decided rescues) defs {} ({},{})
  refine ⟨m',e',run,?_⟩
  have steady : Steady (deciding ok) asked fun m e => Ran [] m e :=
    steady_handed (watches_under _) fun m e e' origins same held => ran_grows origins held
  have empty : Ran [] ({} : Memory) (({} : Kernel),({} : Record)) := ⟨by simp,by simp⟩
  have booted : (spawnAll defs).wp (deciding ok) asked (fun _ => Ran (startedFrom (defs.map ServiceDef.name) []
      ((startingOrder (effectiveAfter defs)).filter fun d => ok d.critical))) {} ({},{}) := by
    refine wp_bind_topologicalOrder steady empty fun m e held => ?_
    exact wp_startEach_decided rescues held (by simp)
  have ran := wp_returns run booted
  exact ran

end Ends
end MitosServices.Turns
