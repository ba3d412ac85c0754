import MitosServices.Turns

/-! The way in that a boot leaves open: a critical service that fails to start is stood in for by
a rescue shell, while one that is skipped for what it requires is not. -/
namespace MitosServices.Console
open Interaction Interaction.Program
open Turns
open Pids (originAt)
open Boot (startedFrom)

def shellStarts : Condition Memory Op Op.Ans (Kernel × Record) Event where
  event _ _ _ _ := true
  reply
    | .spawn .rescue _, _, _, .error _ => false
    | _, _, _, _ => true

abbrev surroundings : Surroundings Memory Op Op.Ans (Kernel × Record) :=
  (watched.under shellStarts).surroundings

def Rescued (m : Memory) (k : Kernel) : Prop :=
  ∃ pid sup, m.services.lookup pid = some sup ∧ sup.definition = fallbackShell ∧
    originAt k pid = some .rescue

/-- Whatever the spawns of a boot come to, each critical service of the list is tracked after it,
or a rescue shell is. -/
def KeepsConsole (defs : List ServiceDef) : Prop :=
  ∀ m e m' e', Reaches surroundings ⟨spawnAll defs,m,e⟩ ⟨.ret (),m',e'⟩ →
    ∀ d ∈ defs, d.critical = true →
      (∃ pid sup, m'.services.lookup pid = some sup ∧ Alike sup.definition d) ∨ Rescued m' e'.1

/-- The critical services whose requirements among the configured are critical services that
come before them in the starting order, and themselves of that kind. -/
def selfReliant (defs : List ServiceDef) : List ServiceDef :=
  startedFrom (defs.map ServiceDef.name) []
    ((startingOrder (effectiveAfter defs)).filter fun d => d.critical)

section Held
variable {up : Prop} {m : Memory} {e e' : Kernel × Record} {ran : List ServiceDef} {d : ServiceDef}

def Tracked (d : ServiceDef) (m : Memory) (k : Kernel) : Prop :=
  ∃ pid sup, m.services.lookup pid = some sup ∧ sup.definition = d ∧ ∃ o, originAt k pid = some o

def Held (up : Prop) (ran : List ServiceDef) (m : Memory) (e : Kernel × Record) : Prop :=
  Rescued m e.1 ∨ up ∧ ∀ d ∈ ran, Tracked d m e.1

theorem rescued_grows {k k' : Kernel}
    (origins : ∀ pid origin, originAt k pid = some origin → originAt k' pid = some origin)
    (rescued : Rescued m k) : Rescued m k' := by
  obtain ⟨pid,sup,found,same,rescue⟩ := rescued
  exact ⟨pid,sup,found,same,origins pid _ rescue⟩

theorem tracked_grows {k k' : Kernel}
    (origins : ∀ pid origin, originAt k pid = some origin → originAt k' pid = some origin)
    (tracked : Tracked d m k) : Tracked d m k' := by
  obtain ⟨pid,sup,found,same,o,there⟩ := tracked
  exact ⟨pid,sup,found,same,o,origins pid o there⟩

theorem held_grows
    (origins : ∀ pid origin, originAt e.1 pid = some origin → originAt e'.1 pid = some origin)
    (held : Held up ran m e) : Held up ran m e' :=
  held.imp (rescued_grows origins) fun known => ⟨known.1,fun d member =>
    tracked_grows origins (known.2 d member)⟩

/-- A new child's entry takes no entry's place. -/
theorem lookup_kept {pid p : Int} {sup s : Supervised} {k : Kernel} {o : Origin}
    (unused : originAt k pid = none) (found : m.services.lookup p = some s)
    (there : originAt k p = some o) : (withService m pid sup).services.lookup p = some s := by
  refine lookup_insert_iff.mpr (.inr ⟨?_,found⟩)
  rintro rfl
  rw [unused] at there
  contradiction

theorem held_insert {pid : Int} {sup : Supervised} (unused : originAt e.1 pid = none)
    (origins : ∀ p o, originAt e.1 p = some o → originAt e'.1 p = some o)
    (held : Held up ran m e) : Held up ran (withService m pid sup) e' := by
  rcases held with ⟨p,s,found,same,rescue⟩ | ⟨known,tracked⟩
  · exact .inl ⟨p,s,lookup_kept unused found rescue,same,origins p _ rescue⟩
  · refine .inr ⟨known,fun d member => ?_⟩
    obtain ⟨p,s,found,same,o,there⟩ := tracked d member
    exact ⟨p,s,lookup_kept unused found there,same,o,origins p o there⟩

theorem held_append (held : Held up ran m e) (tracked : Tracked d m e.1) :
    Held up (ran ++ [d]) m e := by
  refine held.imp id fun known => ⟨known.1,fun d' member => ?_⟩
  rcases List.mem_append.mp member with before | last
  · exact known.2 d' before
  · exact List.mem_singleton.mp last ▸ tracked

theorem held_after (held : Held up (ran ++ [d]) m e) : Held up (ranAfter id ran d) m e := by
  unfold ranAfter
  split
  · exact held
  · exact held.imp id fun known => ⟨known.1,fun d' member => known.2 d' (by simp [member])⟩

theorem console_phases (times : List Nat) : StartPhases surroundings asked d times (Held up ran)
    (fun pid m e => ∀ sup, sup.definition = d → Held up (ran ++ [d]) (withService m pid sup) e)
    (Held up ran) (fun pid m e => ∀ t, Rescued (withService m pid ⟨fallbackShell,[],t⟩) e.1)
    (Held up (ranAfter id ran d)) where
  before_steady := steady_handed (watches_under _) fun m e e' origins _ held => held_grows origins held
  spawned_steady pid := steady_handed (watches_under _) fun m e e' origins _ held sup same =>
    held_grows origins (held sup same)
  failed_steady := steady_handed (watches_under _) fun m e e' origins _ held => held_grows origins held
  rescue_steady pid := steady_handed (watches_under _) fun m e e' origins _ held t =>
    rescued_grows origins (held t)
  child command pid m e e' held replied sup same := by
    obtain ⟨unused,service,origins⟩ := spawned_new (watches_under _) replied
    refine held_append (held_insert unused origins held) ?_
    exact ⟨pid,sup,lookup_insert_iff.mpr (.inl ⟨rfl,rfl⟩),same,_,service⟩
  refused command err m e e' held replied := by
    have same := unspawned_same (watches_under _) replied
    exact held_grows (fun _ _ there => same ▸ there) held
  shell command pid m e e' held critical replied t := by
    obtain ⟨unused,rescue,origins⟩ := spawned_new (watches_under _) replied
    exact ⟨pid,_,lookup_insert_iff.mpr (.inl ⟨rfl,rfl⟩),rfl,rescue⟩
  noShell command err m e e' held critical replied := by
    have allowed := (Machine.under_answer_iff.mp replied).1
    simp [shellStarts] at allowed
  tracked pid t m e held := held_after (held ⟨d,times,t⟩ rfl)
  trackedShell pid t m e held := .inl (held t)
  missed m e held uncritical := by
    rw [ranAfter,if_neg (by simp [uncritical])]
    exact held

end Held

section Run
variable {m : Memory} {e : Kernel × Record} {ran : List ServiceDef} {d : ServiceDef}
  {configured spawned : List String}

theorem held_steady {up : Prop} : Steady surroundings asked (Held up ran) :=
  steady_handed (watches_under _) fun _ _ _ origins _ held => held_grows origins held

/-- What has started after a turn is there whatever came of the spawn, or a rescue shell is. -/
theorem wp_startOne_console (held : Held (∀ d ∈ ran, d.name ∈ spawned) ran m e) :
    (startOne configured spawned d).wp surroundings asked (fun spawned m e =>
      Held (∀ d' ∈ ranOnTurn id configured ran d, d'.name ∈ spawned)
        (ranOnTurn id configured ran d) m e) m e := by
  unfold startOne
  dsimp only
  by_cases met : Met configured spawned d
  · rw [met_iff.mpr met,if_neg (by simp)]
    refine wp_bind_steady held_steady (uses_each fun dep _ => waitForReady_plain dep _) held
      fun _ m e held => ?_
    refine wp_then (wp_spawnWithHistory (console_phases []) held) fun _ m e after => ?_
    refine wp_bind_read trivial ?_
    rw [wp_pure]
    rcases after with rescued | ⟨up,tracked⟩
    · exact .inl rescued
    have within : ∀ d' ∈ ranOnTurn id configured ran d, d' ∈ ranAfter id ran d := by
      intro d' member
      unfold ranOnTurn at member
      split at member
      · exact member
      · unfold ranAfter
        split
        · exact List.mem_append_left _ member
        · exact member
    refine .inr ⟨fun d' member => ?_,fun d' member => tracked d' (within d' member)⟩
    have inside := within d' member
    obtain ⟨pid,sup,found,same,-⟩ := tracked d' inside
    have old_or_new : d' ∈ ran ∨ d' = d := by
      unfold ranAfter at inside
      split at inside
      · simpa using inside
      · exact .inl inside
    rcases old_or_new with old | rfl
    · split
      · exact List.mem_append_left _ (up d' old)
      · exact up d' old
    · have there : m.services.tracks d'.name = true :=
        Services.tracks_iff.mpr ⟨pid,sup,found,congrArg ServiceDef.name same⟩
      rw [if_pos there]
      exact List.mem_append_right _ (List.mem_singleton_self _)
  · have missing := fun empty => met (met_iff.mp empty)
    rw [if_pos (by simpa using missing)]
    refine wp_bind_steady held_steady (plain_call rfl) held fun _ m e held => ?_
    rw [wp_pure]
    rcases held with rescued | ⟨up,tracked⟩
    · exact .inl rescued
    have unmet : ¬ Met configured (ran.map ServiceDef.name) d := by
      intro known
      refine met (met_mono known fun n member => ?_)
      obtain ⟨d',inside,rfl⟩ := List.mem_map.mp member
      exact up d' inside
    rw [ranOnTurn,if_neg unmet]
    exact .inr ⟨up,tracked⟩

theorem wp_startEach_console {rest : List ServiceDef}
    (held : Held (∀ d ∈ ran, d.name ∈ spawned) ran m e) :
    (startEach configured spawned rest).wp surroundings asked (fun _ => Held True (ran ++
      startedFrom configured (ran.map ServiceDef.name) (rest.filter fun d => id d.critical))) m e := by
  induction rest generalizing ran spawned m e with
  | nil =>
    rw [List.filter_nil,startedFrom,List.append_nil]
    exact held.imp id fun known => ⟨trivial,known.2⟩
  | cons d rest ih =>
    rw [ranOnTurn_startedFrom]
    exact wp_then (wp_startOne_console held) fun spawned m e after => ih after

theorem wp_spawnAll_console (defs : List ServiceDef) (m : Memory) (e : Kernel × Record) :
    (spawnAll defs).wp surroundings asked (fun _ => Held True (selfReliant defs)) m e := by
  have start : Held (∀ d ∈ ([] : List ServiceDef), d.name ∈ ([] : List String)) [] m e :=
    .inr ⟨by simp,by simp⟩
  exact wp_bind_topologicalOrder held_steady start fun m e held => wp_startEach_console held

end Run

theorem decided_shellStarts (ok : Bool → Bool) : (decided ok).Within shellStarts where
  event _ _ _ _ _ := rfl
  reply op m e r allowed := by
    cases op with
    | spawn origin command =>
      cases origin with
      | rescue => contradiction
      | _ => rfl
    | _ => rfl

/-- The way in stays open just when each critical service is one of those that can do without the
others. -/
theorem keepsConsole_iff (defs : List ServiceDef) : KeepsConsole defs ↔
    ∀ d ∈ defs, d.critical = true → ∃ d' ∈ selfReliant defs, Alike d' d := by
  constructor
  · intro keeps d member critical
    obtain ⟨m,e,run,ran⟩ := @decided_boot id rfl defs
    have rescued_not : ¬ Rescued m e.1 := by
      rintro ⟨pid,sup,found,-,rescue⟩
      have service := (ran.defined pid sup found).2
      rw [rescue] at service
      cases service
    have kept := keeps {} ({},{}) m e (reaches_within (decided_shellStarts id) run) d member critical
    obtain ⟨pid,sup,found,alike⟩ := kept.resolve_right rescued_not
    exact ⟨sup.definition,(ran.defined pid sup found).1,alike⟩
  · intro reliant m e m' e' run d member critical
    obtain ⟨d',there,alike⟩ := reliant d member critical
    have held := wp_returns run (wp_spawnAll_console defs m e)
    rcases held with rescued | ⟨-,tracked⟩
    · exact .inr rescued
    · obtain ⟨pid,sup,found,same,-⟩ := tracked d' there
      exact .inl ⟨pid,sup,found,same ▸ alike⟩

section Runs

def network : ServiceDef := { name := "network", path := "/usr/bin/network" }

def login : ServiceDef :=
  { name := "login", path := "/usr/bin/login", critical := true, requires := ["network"] }

def stranded : Option (State Memory Op Op.Ans (Kernel × Record) Unit) :=
  drive (watched.under shellStarts)
    (fun op m e => Kernel.obliging (· != .service "network" false) Config.default op m e.1)
    [.upTo (fun _ => false) 200] ⟨spawnAll [network,login],{},({},{})⟩

theorem left_without_console : ¬ ∀ defs, KeepsConsole defs := by
  intro keeps
  have ended : stranded.any (fun t => t.program.returned && t.mem.services.entries.isEmpty) = true := by
    decide +kernel
  obtain ⟨⟨p,m,e⟩,went,bare⟩ := (Option.any_eq_true _ _).mp ended
  obtain ⟨returned,empty⟩ := Bool.and_eq_true_iff.mp bare
  cases p with
  | ret value =>
    have absent : ∀ pid, m.services.lookup pid = none := by
      intro pid
      have none : m.services.keys = [] := by rw [AList.keys,List.isEmpty_iff.mp empty]; rfl
      have unkeyed : pid ∉ m.services.keys := by simp [none]
      exact AList.lookup_eq_none.mpr unkeyed
    have kept := keeps [network,login] {} ({},{}) m e (drive_reaches went) login (by simp) rfl
    rcases kept with ⟨pid,sup,found,-⟩ | ⟨pid,sup,found,-⟩
    · rw [absent pid] at found
      contradiction
    · rw [absent pid] at found
      contradiction
  | _ => contradiction

end Runs
end MitosServices.Console
