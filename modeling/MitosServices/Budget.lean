import MitosServices.Respawn

/-! The restart budget of a service over all its exits, from a fresh start on. What the supervisor
keeps of the earlier restarts is pruned at each of them, and still decides as the whole list would. -/
namespace MitosServices.Budget
open Interaction Interaction.Program Window Respawn

variable {Env Event : Type} {K : Machine Memory Op Op.Ans Env Event}

structure Exit where
  pid : Int
  time : Nat
  outcome : Outcome
  next : Option Int

def restarts (exits : List Exit) : List Nat := (exits.filter fun x => x.next.isSome).map Exit.time

/-- The exits of a service from a fresh start on, newest first, the table after the last of them and
the current instance. In between anything may happen to the table, but to the entry of this instance. -/
inductive Chain (K : Machine Memory Op Op.Ans Env Event) (d : ServiceDef) :
    List Exit → Services → Option Int → Prop
  | fresh {services : Services} {pid : Int} {started : Nat}
      (there : services.lookup pid = some ⟨d,[],started⟩) : Chain K d [] services (some pid)
  | meanwhile {exits : List Exit} {services services' : Services} {pid : Int}
      (before : Chain K d exits services (some pid)) (kept : services'.lookup pid = services.lookup pid) :
      Chain K d exits services' (some pid)
  | exit {exits : List Exit} {m m' : Memory} {pid : Int} {ending : Ending} {k : Env}
      {e : Env × Attempt} {outcome : Outcome} {t : Nat} (before : Chain K d exits m.services (some pid))
      (policy : d.restart.restarts ending = true)
      (run : Reaches (around K) ⟨handleExit (.ended pid ending),m,(k,{})⟩ ⟨.ret outcome,m',e⟩)
      (succeeded : e.2.failed = false) (read : e.2.time = some t) (later : ∀ x ∈ exits, x.time ≤ t) :
      Chain K d (⟨pid,t,outcome,e.2.spawned⟩ :: exits) m'.services e.2.spawned

/-- An exit is answered by a restart if fewer than five earlier ones are recent, and given up otherwise. -/
def Judged (d : ServiceDef) (x : Exit) (earlier : List Exit) : Prop :=
  if (recent backoffWindow x.time (restarts earlier)).length < maxRestartsInWindow then
    x.outcome = .continue ∧ x.next.isSome
  else x.outcome = .gaveUp d.name ∧ x.next = none

def AllJudged (d : ServiceDef) (exits : List Exit) : Prop :=
  ∀ newer x earlier, exits = newer ++ x :: earlier → Judged d x earlier

section Kept
variable {d : ServiceDef} {exits : List Exit} {services : Services} {t : Nat} {times : List Nat}

theorem restarts_cons (x : Exit) :
    restarts (x :: exits) = if x.next.isSome then x.time :: restarts exits else restarts exits := by
  simp only [restarts,List.filter_cons]
  split <;> simp

theorem mem_restarts {s : Nat} (member : s ∈ restarts exits) : ∃ x ∈ exits, x.time = s := by
  obtain ⟨x,kept,same⟩ := List.mem_map.mp member
  exact ⟨x,(List.mem_filter.mp kept).1,same⟩

theorem allJudged_cons {x : Exit} (judged : Judged d x exits) (all : AllJudged d exits) :
    AllJudged d (x :: exits) := by
  intro newer y earlier split
  cases newer with
  | nil =>
    obtain ⟨rfl,rfl⟩ := List.cons.inj split
    exact judged
  | cons z newer => exact all newer y earlier (List.cons.inj split).2

/-- What is kept of the restarts: those that may still be recent, oldest first, and five at most. -/
structure Remembers (exits : List Exit) (times : List Nat) : Prop where
  few : times.length ≤ maxRestartsInWindow
  ordered : times.Pairwise (· ≤ ·)
  known : ∀ s ∈ times, ∃ x ∈ exits, x.time = s
  recalls : ∀ t, (∀ x ∈ exits, x.time ≤ t) →
    recent backoffWindow t times = (recent backoffWindow t (restarts exits)).reverse

theorem remembers_nil : Remembers [] [] where
  few := Nat.zero_le _
  ordered := .nil
  known _ member := absurd member List.not_mem_nil
  recalls _ _ := rfl

theorem remembers_cons {pid next : Int} {outcome : Outcome} (remembers : Remembers exits times)
    (later : ∀ x ∈ exits, x.time ≤ t) (left : (recent backoffWindow t times).length < maxRestartsInWindow) :
    Remembers (⟨pid,t,outcome,some next⟩ :: exits) (recent backoffWindow t times ++ [t]) := by
  constructor
  · rw [List.length_append,List.length_singleton]
    exact left
  · apply List.pairwise_append.mpr
    refine ⟨remembers.ordered.sublist recent_sublist,List.pairwise_singleton _ _,?_⟩
    intro s member t' here
    obtain rfl := List.mem_singleton.mp here
    obtain ⟨x,there,rfl⟩ := remembers.known s (recent_sublist.subset member)
    exact later x there
  · intro s member
    rcases List.mem_append.mp member with before | here
    · obtain ⟨x,there,same⟩ := remembers.known s (recent_sublist.subset before)
      exact ⟨x,List.mem_cons_of_mem _ there,same⟩
    · exact ⟨_,List.mem_cons_self,(List.mem_singleton.mp here).symm⟩
  · intro t' latest
    have whole := remembers.recalls t' fun x there => latest x (List.mem_cons_of_mem _ there)
    have after : t ≤ t' := latest _ List.mem_cons_self
    have added : restarts (⟨pid,t,outcome,some next⟩ :: exits) = [t] ++ restarts exits :=
      (restarts_cons _).trans (if_pos rfl)
    rw [recent_append,recent_recent after,whole,added,recent_append,List.reverse_append]
    congr 1
    unfold recent
    by_cases inside : t' - t < backoffWindow <;> simp [inside]

end Kept

section Runs
variable {d : ServiceDef} {exits : List Exit} {services : Services} {current : Option Int}

/-- The current instance with what is kept for it; or the service has been given up and is gone. -/
def Stands (d : ServiceDef) (exits : List Exit) (services : Services) : Option Int → Prop
  | some pid => ∃ times started, services.lookup pid = some ⟨d,times,started⟩ ∧ Remembers exits times
  | none => ∃ x earlier, exits = x :: earlier ∧ x.outcome = .gaveUp d.name ∧ services.lookup x.pid = none

structure Sound (d : ServiceDef) (exits : List Exit) (services : Services) (current : Option Int) : Prop where
  paced : Paced backoffWindow maxRestartsInWindow (restarts exits)
  judged : AllJudged d exits
  stands : Stands d exits services current

theorem sound_exit {m m' : Memory} {pid : Int} {times : List Nat} {started t : Nat} {attempt : Attempt}
    {outcome : Outcome} (paced : Paced backoffWindow maxRestartsInWindow (restarts exits))
    (judged : AllJudged d exits) (remembers : Remembers exits times)
    (answered : Answered ⟨d,times,started⟩ (m.services.erase pid) attempt outcome m'.services)
    (succeeded : attempt.failed = false) (read : attempt.time = some t)
    (later : ∀ x ∈ exits, x.time ≤ t) :
    Sound d (⟨pid,t,outcome,attempt.spawned⟩ :: exits) m'.services attempt.spawned := by
  have whole := congrArg List.length (remembers.recalls t later)
  rw [List.length_reverse] at whole
  generalize table : m'.services = services at answered
  cases answered with
  | gaveUp t' spent =>
    obtain rfl : t' = t := Option.some.inj read
    rw [whole] at spent
    constructor
    · rw [restarts_cons]
      exact paced
    · apply allJudged_cons _ judged
      unfold Judged
      rw [if_neg (Nat.not_lt.mpr spent)]
      exact ⟨rfl,rfl⟩
    · exact ⟨_,exits,rfl,rfl,AList.lookup_erase _ _⟩
  | respawned t' started' next left =>
    obtain rfl : t' = t := Option.some.inj read
    constructor
    · rw [restarts_cons]
      refine ⟨?_,whole ▸ left,paced⟩
      intro s member
      obtain ⟨x,there,rfl⟩ := mem_restarts member
      exact later x there
    · apply allJudged_cons _ judged
      unfold Judged
      rw [if_pos (whole ▸ left)]
      exact ⟨rfl,rfl⟩
    · exact ⟨_,started',AList.lookup_insert _,remembers_cons remembers later left⟩
  | lost t' left => contradiction

theorem sound_of_chain (ordinary : d.critical = false) (chain : Chain K d exits services current) :
    Sound d exits services current := by
  induction chain with
  | fresh there =>
    constructor
    · exact trivial
    · intro newer x earlier split
      cases newer <;> contradiction
    · exact ⟨[],_,there,remembers_nil⟩
  | meanwhile _ kept ih =>
    refine ⟨ih.paced,ih.judged,?_⟩
    obtain ⟨times,started,there,remembers⟩ := ih.stands
    exact ⟨times,started,kept.trans there,remembers⟩
  | @exit exits m m' pid ending k e outcome t before policy run succeeded read later ih =>
    obtain ⟨times,started,there,remembers⟩ := ih.stands
    have answered := wp_returns run (wp_handleExit there ordinary policy k)
    exact sound_exit ih.paced ih.judged remembers answered succeeded read later

/-- The budget: each exit is answered by a restart just if fewer than five earlier restarts are
less than ten seconds old; so no window of ten seconds has more than five, and no more are kept. -/
theorem budget_kept (ordinary : d.critical = false) (chain : Chain K d exits services current) :
    (∀ newer x earlier, exits = newer ++ x :: earlier →
      (x.outcome = .continue ∧ x.next.isSome ↔
        (recent backoffWindow x.time (restarts earlier)).length < maxRestartsInWindow) ∧
      (x.outcome = .gaveUp d.name ∧ x.next = none ↔
        ¬ (recent backoffWindow x.time (restarts earlier)).length < maxRestartsInWindow)) ∧
    (∀ start, (within backoffWindow start (restarts exits)).length ≤ maxRestartsInWindow) ∧
    match current with
    | some pid => ∃ times started, services.lookup pid = some ⟨d,times,started⟩ ∧
        times.length ≤ maxRestartsInWindow ∧ times.Pairwise (· ≤ ·)
    | none => ∃ x earlier, exits = x :: earlier ∧ x.outcome = .gaveUp d.name ∧
        services.lookup x.pid = none := by
  have sound := sound_of_chain ordinary chain
  refine ⟨?_,fun start => within_length_le sound.paced start,?_⟩
  · intro newer x earlier split
    have judged := sound.judged newer x earlier split
    unfold Judged at judged
    split at judged
    · rename_i left
      simp [judged.1,judged.2,left]
    · rename_i spent
      simp [judged.1,judged.2,spent]
  · cases current with
    | some pid =>
      obtain ⟨times,started,there,remembers⟩ := sound.stands
      exact ⟨times,started,there,remembers.few,remembers.ordered⟩
    | none => exact sound.stands

end Runs

section Repeated

/-- The network, time after time: its exits so far, and what they have left. -/
structure Story where
  exits : List Exit
  mem : Memory
  kernel : Kernel
  current : Option Int

/-- It runs for one more second, exits and is handled. -/
def Story.handled (s : Story) (pid : Int) : Option (State Memory Op Op.Ans (Kernel × Attempt) Outcome) :=
  drive (Kernel.machine.watched observer) (fun op m e => Kernel.obliging (fun _ => true) Config.default op m e.1)
    [.upTo (fun op => op matches .now) 40,.stir (.tick (fromSecs 1)),.upTo (fun _ => false) 40]
    ⟨handleExit (.ended pid (.exited 1)),s.mem,(s.kernel,{})⟩

def Story.exit (s : Story) : Option Story :=
  s.current.bind fun pid => (s.handled pid).bind fun t => t.result?.bind fun outcome =>
    t.env.2.time.bind fun time =>
      if t.env.2.failed = false ∧ ∀ x ∈ s.exits, x.time ≤ time then
        some ⟨⟨pid,time,outcome,t.env.2.spawned⟩ :: s.exits,t.mem,t.env.1,t.env.2.spawned⟩
      else none

def exits : Nat → Option Story
  | 0 => some ⟨[],networkUp 7,{},some 7⟩
  | n+1 => (exits n).bind Story.exit

theorem chain_exit {s s' : Story} (before : Chain Kernel.machine network s.exits s.mem.services s.current)
    (went : s.exit = some s') : Chain Kernel.machine network s'.exits s'.mem.services s'.current := by
  obtain ⟨past,mem,kernel,current⟩ := s
  simp only [Story.exit,Option.bind_eq_some_iff] at went
  obtain ⟨pid,rfl,t,driven,outcome,result,time,read,kept⟩ := went
  split at kept
  · rename_i fits
    obtain ⟨succeeded,later⟩ := fits
    cases Option.some.inj kept
    exact .exit before rfl (drive_returned driven result) succeeded read later
  · contradiction

theorem chain_exits {n : Nat} {s : Story} (went : exits n = some s) :
    Chain Kernel.machine network s.exits s.mem.services s.current := by
  induction n generalizing s with
  | zero =>
    cases Option.some.inj went
    have up : (networkUp 7).services.lookup 7 = some ⟨network,[],0⟩ := by decide
    exact .fresh up
  | succ n ih =>
    obtain ⟨before,past,last⟩ := Option.bind_eq_some_iff.mp went
    exact chain_exit (ih past) last

/-- Six exits, one each second: the first five are answered by a restart, the sixth gives the network up. -/
theorem budget_kept_network : ∃ exits services,
    Chain Kernel.machine network exits services none ∧
    exits.map (fun x => (x.time,x.outcome)) =
      (fromSecs 6,.gaveUp "network") :: [5,4,3,2,1].map (fun i => (fromSecs i,.continue)) ∧
    ∀ start, (within backoffWindow start (restarts exits)).length ≤ maxRestartsInWindow := by
  have went : (exits 6).map (fun s => (s.exits.map (fun x => (x.time,x.outcome)),s.current)) =
      some ((fromSecs 6,.gaveUp "network") :: [5,4,3,2,1].map (fun i => (fromSecs i,.continue)),none) := by
    decide +kernel
  obtain ⟨s,run,seen⟩ := Option.map_eq_some_iff.mp went
  obtain ⟨times,gone⟩ := Prod.mk.inj seen
  have chain := chain_exits run
  rw [gone] at chain
  obtain ⟨-,paced,-⟩ := budget_kept rfl chain
  exact ⟨s.exits,s.mem.services,chain,times,paced⟩

end Repeated
end MitosServices.Budget
