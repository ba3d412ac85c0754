import MitosServices.Window
import MitosServices.Supervision
import MitosServices.Interaction.Live

/-! A service that is to be restarted: one exit, and all the exits from a fresh start on. Whatever
the surroundings are, only the clock and the spawn decide what the supervisor does. -/
namespace MitosServices.Respawn
open Interaction Interaction.Program Window

variable {Env Event : Type} {K : Machine Memory Op Op.Ans Env Event}

/-- One call of `handleExit`: its first reading of the clock and what became of its spawn. -/
structure Attempt where
  time : Option Nat := none
  spawned : Option Int := none
  failed : Bool := false
deriving DecidableEq

def observer : Monitor Memory Op Op.Ans Env Event Attempt where
  event _ _ _ _ g := g
  reply
    | .now, _, _, t, g => { g with time := some (g.time.getD t) }
    | .spawn _ _, _, _, .ok pid, g => { g with spawned := some pid }
    | .spawn _ _, _, _, .error _, g => { g with failed := true }
    | _, _, _, _, g => g

def aside : Op → Bool
  | .now | .spawn _ _ => false
  | _ => true

theorem aside_of_prepares {op : Op} (h : op.prepares = true) : aside op = true := by
  cases op with
  | log line => rfl
  | _ => first | rfl | contradiction

theorem aside_call {op : Op} (unheard : aside op = true) :
    (call op).Uses Eq fun op => aside op = true :=
  uses_perform unheard

theorem observer_deaf : (observer : Monitor Memory Op Op.Ans Env Event Attempt).Deaf
    fun op => aside op = true where
  event _ _ _ _ _ := rfl
  reply op _ _ _ _ allowed := by
    cases op with
    | now => contradiction
    | spawn origin command => contradiction
    | _ => rfl

abbrev around (K : Machine Memory Op Op.Ans Env Event) :
    Surroundings Memory Op Op.Ans (Env × Attempt) := (K.watched observer).surroundings

inductive Answered (sup : Supervised) (services : Services) : Attempt → Outcome → Services → Prop
  | gaveUp (t : Nat) (spent : maxRestartsInWindow ≤ (recent backoffWindow t sup.restartTimes).length) :
      Answered sup services ⟨some t,none,false⟩ (.gaveUp sup.definition.name) services
  | respawned (t started : Nat) (pid : Int)
      (left : (recent backoffWindow t sup.restartTimes).length < maxRestartsInWindow) :
      Answered sup services ⟨some t,some pid,false⟩ .continue
        (services.insert pid ⟨sup.definition,recent backoffWindow t sup.restartTimes ++ [t],started⟩)
  | lost (t : Nat) (left : (recent backoffWindow t sup.restartTimes).length < maxRestartsInWindow) :
      Answered sup services ⟨some t,none,true⟩ .continue services

section Once
variable {m : Memory} {e : Env × Attempt} {sup : Supervised}

def any (_ : Option Op) (_ : Memory) (_ : Env × Attempt) : Prop := True

theorem wp_bind_aside {α β : Type} {p : Code α} {f : α → Code β} {Q : β → Memory → Env × Attempt → Prop}
    (uses : p.Uses Eq fun op => aside op = true)
    (rest : ∀ a k, (f a).wp (around K) any Q m (k,e.2)) : (p >>= f).wp (around K) any Q m e := by
  have frame : (around K).Frame any (fun m m' => m' = m) (fun op => aside op = true)
      fun m' e' => m' = m ∧ e'.2 = e.2 :=
    @Machine.watched_frame _ _ _ _ _ _ K _ _ _ _ (fun m => m) _ _ observer_deaf fun _ _ _ _ _ => trivial
  apply wp_bind_frame frame (uses_mono uses (fun _ _ same => same.symm) fun _ allowed => allowed) ⟨rfl,rfl⟩
  rintro a _ ⟨k,g⟩ ⟨rfl,rfl⟩
  exact rest a k

theorem wp_track {pid : Int} {d : ServiceDef} {times : List Nat}
    {Q : Unit → Memory → Env × Attempt → Prop}
    (tracked : ∀ started k, Q () (withService m pid ⟨d,times,started⟩)
      (k,{ e.2 with time := some (e.2.time.getD started) })) :
    (track pid d times).wp (around K) any Q m e := by
  apply wp_bind_noted observer_deaf (fun _ => trivial)
  intro _ started k _
  exact ⟨trivial,tracked started k⟩

theorem wp_started {pid : Int} {d : ServiceDef} {times : List Nat}
    {Q : Unit → Memory → Env × Attempt → Prop}
    (tracked : ∀ started k, Q () (withService m pid ⟨d,times,started⟩)
      (k,{ e.2 with time := some (e.2.time.getD started) })) :
    (started d times pid).wp (around K) any Q m e := by
  apply wp_bind_aside (aside_call rfl)
  intro _ k
  apply wp_bind_aside (aside_call rfl)
  intro _ k
  apply wp_bind_aside (aside_call rfl)
  intro _ k
  apply wp_bind_aside (uses_each fun _ _ => aside_call rfl)
  intro _ k
  exact wp_track tracked

/-- The start of a service that is not critical: it is tracked, or nothing is. -/
theorem wp_spawnWithHistory {d : ServiceDef} {times : List Nat} (ordinary : d.critical = false)
    {Q : Unit → Memory → Env × Attempt → Prop}
    (tracked : ∀ pid started k, Q () (withService m pid ⟨d,times,started⟩)
      (k,{ e.2 with spawned := some pid, time := some (e.2.time.getD started) }))
    (missed : ∀ k, Q () m (k,{ e.2 with failed := true })) :
    (spawnWithHistory d times).wp (around K) any Q m e := by
  apply wp_bind_aside (uses_mono (prepareCommand_prepares d) (fun _ _ same => same)
    fun _ => aside_of_prepares)
  intro command k
  apply wp_bind_noted observer_deaf (fun _ => trivial)
  intro _ child k _
  cases child with
  | ok pid => exact wp_started (tracked pid)
  | error err =>
    apply wp_bind_aside (aside_call rfl)
    intro _ k
    rw [wp_provided,if_neg (by simp [ordinary])]
    exact missed k

theorem wp_restart (ordinary : sup.definition.critical = false) (k : Env) :
    (restart sup).wp (around K) any
      (fun outcome m' e => Answered sup m.services e.2 outcome m'.services) m (k,{}) := by
  apply wp_bind_noted observer_deaf (fun _ => trivial)
  intro _ t k _
  have length : (recent backoffWindow t sup.restartTimes ++ [t]).length =
      (recent backoffWindow t sup.restartTimes).length + 1 := List.length_append
  dsimp only
  split
  · rename_i exceeded
    apply wp_bind_aside (aside_call rfl)
    intro _ k
    have spent : maxRestartsInWindow < (recent backoffWindow t sup.restartTimes ++ [t]).length := exceeded
    exact .gaveUp t (by omega)
  · rename_i under
    have left : ¬ maxRestartsInWindow < (recent backoffWindow t sup.restartTimes ++ [t]).length := under
    refine (wp_bind _ _ _ _ _).mpr (wp_spawnWithHistory ordinary ?_ ?_)
    · intro pid started k
      exact .respawned t started pid (by omega)
    · intro k
      exact .lost t (by omega)

/-- The exit of a tracked service that is not critical and is to be restarted. -/
theorem wp_handleExit {pid : Int} {ending : Ending} (found : m.services.lookup pid = some sup)
    (ordinary : sup.definition.critical = false) (policy : sup.definition.restart.restarts ending = true)
    (k : Env) : (handleExit (.ended pid ending)).wp (around K) any
      (fun outcome m' e => Answered sup (m.services.erase pid) e.2 outcome m'.services) m (k,{}) := by
  apply wp_bind_removeService trivial
  rw [found]
  apply wp_bind_aside (aside_call rfl)
  intro _ k
  apply wp_bind_aside (aside_call rfl)
  intro _ k
  apply wp_bind_aside (aside_call rfl)
  intro _ k
  rw [if_neg (by simp [ordinary]),if_pos policy]
  exact wp_restart ordinary k

end Once

section Silence
variable {m m' : Memory} {k : Env} {e : Env × Attempt} {pid : Int} {ending : Ending} {sup : Supervised}
  {outcome : Outcome}

/-- The service is tracked again or given up just when its respawn succeeds, if there is one, or
another instance is tracked under its name. -/
theorem resupervised_iff (found : m.services.lookup pid = some sup)
    (ordinary : sup.definition.critical = false) (policy : sup.definition.restart.restarts ending = true)
    (run : Reaches (around K) ⟨handleExit (.ended pid ending),m,(k,{})⟩ ⟨.ret outcome,m',e⟩) :
    m'.services.tracks sup.definition.name = true ∨ outcome = .gaveUp sup.definition.name ↔
      e.2.failed = false ∨ Services.tracks (m.services.erase pid) sup.definition.name = true := by
  have answered := wp_returns run (wp_handleExit found ordinary policy k)
  generalize e.2 = attempt,m'.services = services at answered
  cases answered with
  | gaveUp t spent => simp
  | respawned t started pid' left =>
    have tracked : Services.tracks ((m.services.erase pid).insert pid'
        ⟨sup.definition,recent backoffWindow t sup.restartTimes ++ [t],started⟩)
        sup.definition.name = true :=
      Services.tracks_iff.mpr ⟨pid',_,AList.lookup_insert _,rfl⟩
    simp [tracked]
  | lost t left => simp

def network : ServiceDef where
  name := "network"
  path := "/sbin/net"
  restart := .always

def networkUp (pid : Int) : Memory where
  services := AList.insert pid ⟨network,[],0⟩ ∅

def networkExit (starts : Bool) : Option (State Memory Op Op.Ans (Kernel × Attempt) Outcome) :=
  drive (Kernel.machine.watched observer) (fun op m e => Kernel.obliging (fun _ => starts) Config.default op m e.1)
    [.upTo (fun _ => false) 40] ⟨handleExit (.ended 7 (.exited 1)),networkUp 7,({},{})⟩

theorem resupervised_iff_network : ∃ m' e, Reaches (around Kernel.machine)
    ⟨handleExit (.ended 7 (.exited 1)),networkUp 7,({},{})⟩ ⟨.ret .continue,m',e⟩ ∧
    m'.services.tracks "network" = true := by
  have went : (networkExit true).map (fun t => (t.result?,t.env.2.failed)) =
      some (some .continue,false) := by decide +kernel
  obtain ⟨t,driven,seen⟩ := Option.map_eq_some_iff.mp went
  obtain ⟨result,succeeded⟩ := Prod.mk.inj seen
  have run := drive_returned driven result
  have found : (networkUp 7).services.lookup 7 = some ⟨network,[],0⟩ := by decide
  rcases (resupervised_iff found rfl rfl run).mpr (.inl succeeded) with tracked | gaveUp
  · exact ⟨t.mem,t.env,run,tracked⟩
  · contradiction

/-- The respawn fails: nobody is told, and nothing is tracked. -/
theorem dropped_silently : ¬ ∀ (m m' : Memory) (k : Kernel) (e : Kernel × Attempt) (pid : Int)
    (ending : Ending) (sup : Supervised) (outcome : Outcome), m.services.lookup pid = some sup →
    sup.definition.critical = false → sup.definition.restart.restarts ending = true →
    Reaches (around Kernel.machine) ⟨handleExit (.ended pid ending),m,(k,{})⟩ ⟨.ret outcome,m',e⟩ →
    m'.services.tracks sup.definition.name = true ∨ outcome = .gaveUp sup.definition.name := by
  intro claim
  have went : (networkExit false).map (fun t => (t.result?,t.mem.services.tracks "network")) =
      some (some .continue,false) := by decide +kernel
  obtain ⟨t,driven,seen⟩ := Option.map_eq_some_iff.mp went
  obtain ⟨result,untracked⟩ := Prod.mk.inj seen
  have run := drive_returned driven result
  have found : (networkUp 7).services.lookup 7 = some ⟨network,[],0⟩ := by decide
  rcases claim _ _ _ _ _ _ _ _ found rfl rfl run with tracked | gaveUp
  · rw [show t.mem.services.tracks network.name = false from untracked] at tracked
    contradiction
  · contradiction

end Silence
end MitosServices.Respawn
