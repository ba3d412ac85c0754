import MitosServices.Turns

/-! Waiting for readiness at boot. The starting order knows nothing of `after_ready`, so a service
may be waited for before its own turn has come. -/
namespace MitosServices.Readiness
open Interaction Interaction.Program
open Turns
open Boot (startedFrom startedAtBoot)

/-- No service of the list is waited for before it has been handed to spawn or skipped. -/
def WaitsInOrder (defs : List ServiceDef) : Prop :=
  ∀ m k t, Reaches watched.surroundings ⟨spawnAll defs,m,(k,{})⟩ t →
    ∀ name ∈ defs.map ServiceDef.name, name ∉ t.env.2.early

/-- A service that finds all it requires among what can have been started before it comes after
every service of the list that it is to wait for. -/
def InOrder (names : List String) (order : List ServiceDef) : Prop :=
  ∀ before d after, order = before ++ d :: after →
    Met names ((startedFrom names [] before).map ServiceDef.name) d →
    ∀ dep ∈ d.afterReady, dep ∈ names → dep ∈ before.map ServiceDef.name

section Record
variable {g : Record} {n name : String}

theorem wait_handed : (g.wait name).handed = g.handed := by
  unfold Record.wait
  split <;> rfl

theorem wait_skipped : (g.wait name).skipped = g.skipped := by
  unfold Record.wait
  split <;> rfl

theorem wait_settled : (g.wait name).settled n ↔ g.settled n := by
  unfold Record.settled
  rw [wait_handed,wait_skipped]

theorem mem_wait_early : n ∈ (g.wait name).early ↔ n ∈ g.early ∨ n = name ∧ ¬ g.settled name := by
  unfold Record.wait
  split
  · rename_i settled
    simp [settled]
  · rename_i unsettled
    simp [unsettled]

theorem reply_besides {op : Op} {m : Memory} {k : Kernel} {r : op.Ans} (besides : op.besides = true) :
    turns.reply op m k r g = g := by
  cases op with
  | log line => cases line <;> first | rfl | contradiction
  | _ => first | rfl | contradiction

theorem reply_awaits {op : Op} {m : Memory} {k : Kernel} {r : op.Ans}
    (awaits : op.awaits name = true) :
    turns.reply op m k r g = g ∨ turns.reply op m k r g = g.wait name := by
  cases op with
  | log line =>
    obtain rfl : line = .readyTimedOut name := beq_iff_eq.mp awaits
    exact .inr rfl
  | isReady n =>
    obtain rfl : n = name := beq_iff_eq.mp awaits
    exact .inr rfl
  | _ => first | exact .inl rfl | contradiction

end Record

section Rules
variable {S : Surroundings Memory Op Op.Ans (Kernel × Record)}
  {A : Option Op → Memory → Kernel × Record → Prop} {m : Memory} {e : Kernel × Record} {g : Record}

/-- What the calls in `ok` keep of the record, any program that makes no others keeps. -/
theorem record_frame {P : Record → Prop} {ok : Op → Prop} (watches : Watches S)
    (keeps : ∀ op m k r g, ok op → P g → P (turns.reply op m k r g))
    (holds : ∀ op m e, P e.2 → A op m e) :
    S.Frame A (fun _ _ => True) ok fun _ e => P e.2 where
  updates _ _ _ _ before := before
  moves op m e e' _ moved before := by
    rw [(watches.moves op m e e' moved).1]
    exact before
  replies op m e r e' allowed replied before := by
    rw [(watches.replies op m e r e' replied).2]
    exact keeps op m e.1 r e.2 allowed before
  holds op m e _ before := holds op m e before

theorem wp_bind_heard {op : Op} {β : Type} {f : op.Ans → Code β}
    {Q : β → Memory → Kernel × Record → Prop} (watches : Watches S)
    (holds : ∀ e', e'.2 = e.2 → A (some op) m e')
    (rest : ∀ k r e', e'.2 = turns.reply op m k r e.2 → (f r).wp S A Q m e') :
    (call op >>= f).wp S A Q m e := by
  refine (wp_bind _ _ _ _ _).mpr (wp_perform (P := fun e' => e'.2 = e.2) rfl ?_ holds ?_)
  · exact fun e₁ e₂ moved same => (watches.moves op m e₁ e₂ moved).1.trans same
  · intro e₁ r e₂ same replied
    refine rest e₁.1 r e₂ ?_
    rw [(watches.replies op m e₁ r e₂ replied).2,same]

theorem wp_bind_order {β : Type} {defs : List ServiceDef} {f : List ServiceDef → Code β}
    {Q : β → Memory → Kernel × Record → Prop} (watches : Watches S)
    (holds : ∀ op e', e'.2 = e.2 → A op m e')
    (rest : ∀ e', e'.2 = e.2 → (f (startingOrder defs)).wp S A Q m e') :
    (topologicalOrder defs >>= f).wp S A Q m e := by
  refine (wp_bind _ _ _ _ _).mpr ((wp_bind _ _ _ _ _).mpr ?_)
  rw [wp_provided]
  split
  · refine wp_perform (P := fun e' => e'.2 = e.2) rfl ?_ (fun e' same => holds _ e' same) ?_
    · exact fun e₁ e₂ moved same => (watches.moves _ m e₁ e₂ moved).1.trans same
    · intro e₁ _ e₂ same replied
      have heard := (watches.replies _ m e₁ _ e₂ replied).2
      exact rest e₂ (heard.trans same)
  · exact rest e rfl

theorem beside_frame (watches : Watches S) (holds : ∀ op m e, e.2 = g → A op m e) :
    S.Frame A (fun _ _ => True) (fun op => op.besides = true) fun _ e => e.2 = g :=
  record_frame watches (P := fun g' => g' = g)
    (fun _ _ _ _ _ besides same => (reply_besides besides).trans same) holds

/-- A start hands its service to spawn and notes nothing else. -/
theorem wp_spawnWithHistory_record {d : ServiceDef} {times : List Nat} (watches : Watches S)
    (before : ∀ op m e, e.2 = g → A op m e)
    (after : ∀ op m e, e.2 = { g with handed := g.handed ++ [d.name] } → A op m e) (start : e.2 = g) :
    (spawnWithHistory d times).wp S A (fun _ _ e => e.2 = { g with handed := g.handed ++ [d.name] })
      m e := by
  have follows : ∀ {p : Code Unit}, Following p →
      p.Uses (fun _ _ => True) fun op => op.besides = true :=
    fun uses => uses_mono uses (fun _ _ _ => trivial) fun _ allowed => allowed
  have frame := beside_frame watches after
  have prepares := uses_mono (prepareCommand_besides d) (fun _ _ _ => trivial) fun _ allowed => allowed
  refine wp_bind_frame (beside_frame watches before) prepares start fun command m e prepared => ?_
  refine wp_bind_heard watches (fun e' same => before _ m e' (same.trans prepared)) ?_
  intro k child e' heard
  have handed : e'.2 = { g with handed := g.handed ++ [d.name] } := by
    rw [heard,prepared]
    rfl
  cases child with
  | ok pid => exact wp_frame frame (follows (started_follows d times pid)) handed
  | error err =>
    refine wp_bind_frame frame (uses_perform rfl) handed fun _ m e logged => ?_
    rw [wp_provided]
    split
    · refine wp_bind_heard watches (fun e' same => after _ m e' (same.trans logged)) ?_
      intro k shell e' heard
      have unheard : e'.2 = { g with handed := g.handed ++ [d.name] } := heard.trans logged
      cases shell with
      | ok pid => exact wp_frame frame (follows (rescued_follows pid)) unheard
      | error err => exact unheard
    · exact logged

end Rules

section Timely
variable {m : Memory} {e : Kernel × Record} {g : Record} {names spawned : List String}
  {done rest : List ServiceDef} {d : ServiceDef}

def timely (names : List String) (_ : Option Op) (_ : Memory) (e : Kernel × Record) : Prop :=
  ∀ n ∈ names, n ∉ e.2.early

structure Standing (names : List String) (done : List ServiceDef) (spawned : List String) (g : Record) :
    Prop where
  spawned_started : ∀ n ∈ spawned, n ∈ (startedFrom names [] done).map ServiceDef.name
  settled : ∀ n ∈ done.map ServiceDef.name, g.settled n
  timely : ∀ n ∈ names, n ∉ g.early

theorem standing_wait {dep : String} (known : dep ∈ names → dep ∈ done.map ServiceDef.name)
    (standing : Standing names done spawned g) : Standing names done spawned (g.wait dep) where
  spawned_started := standing.spawned_started
  settled n member := wait_settled.mpr (standing.settled n member)
  timely n listed early := by
    rcases mem_wait_early.mp early with before | ⟨rfl,unsettled⟩
    · exact standing.timely n listed before
    · exact unsettled (standing.settled n (known listed))

theorem started_more {n : String} (member : n ∈ (startedFrom names [] done).map ServiceDef.name) :
    n ∈ (startedFrom names [] (done ++ [d])).map ServiceDef.name := by
  rw [startedFrom_append,List.map_append]
  exact List.mem_append_left _ member

theorem started_met (met : Met names ((startedFrom names [] done).map ServiceDef.name) d) :
    d.name ∈ (startedFrom names [] (done ++ [d])).map ServiceDef.name := by
  have last : Met names ([] ++ (startedFrom names [] done).map ServiceDef.name) d := met
  rw [startedFrom_append,startedFrom_cons_met last]
  simp

/-- One turn: the service waits only for what has had its turn, and has then had its own. -/
theorem wp_startOne_timely (inOrder : Met names ((startedFrom names [] done).map ServiceDef.name) d →
      ∀ dep ∈ d.afterReady, dep ∈ names → dep ∈ done.map ServiceDef.name)
    (standing : Standing names done spawned e.2) :
    (startOne names spawned d).wp watched.surroundings (timely names) (fun spawned' _ e' =>
      Standing names (done ++ [d]) spawned' e'.2) m e := by
  unfold startOne
  dsimp only
  by_cases met : Met names spawned d
  · have best := met_mono met standing.spawned_started
    rw [met_iff.mpr met,if_neg (by simp)]
    have frame : watched.surroundings.Frame (timely names) (fun _ _ => True)
        (fun op => ∃ dep ∈ d.afterReady, op.awaits dep = true) fun _ e => Standing names done spawned e.2 := by
      refine record_frame watches_watched ?_ fun op m e standing => standing.timely
      rintro op m k r g ⟨dep,member,awaits⟩ standing
      rcases reply_awaits awaits with same | waited
      · rw [same]
        exact standing
      · rw [waited]
        exact standing_wait (inOrder best dep member) standing
    have waits : ∀ dep ∈ d.afterReady, (waitForReady dep readyWaitTimeout).Uses (fun _ _ => True)
        fun op => ∃ dep ∈ d.afterReady, op.awaits dep = true :=
      fun dep member => uses_mono (waitForReady_awaits dep _) (fun _ _ _ => trivial)
        fun op awaits => ⟨dep,member,awaits⟩
    refine wp_bind_frame frame (uses_each waits) standing fun _ m e₁ standing => ?_
    have handed : (spawnWithHistory d []).wp watched.surroundings (timely names)
        (fun _ _ e' => e'.2 = { e₁.2 with handed := e₁.2.handed ++ [d.name] }) m e₁ := by
      refine wp_spawnWithHistory_record watches_watched (g := e₁.2) ?_ ?_ rfl
      · intro op m e same
        rw [timely,same]
        exact standing.timely
      · intro op m e same
        rw [timely,same]
        exact standing.timely
    refine wp_then handed fun _ m e' after => ?_
    have settled : ∀ n ∈ (done ++ [d]).map ServiceDef.name, e'.2.settled n := by
      intro n member
      rw [after]
      rw [List.map_append,List.mem_append] at member
      rcases member with before | last
      · exact (standing.settled n before).imp (List.mem_append_left _) id
      · exact .inl (List.mem_append_right _ (by simpa using last))
    have early : ∀ n ∈ names, n ∉ e'.2.early := by
      rw [after]
      exact standing.timely
    refine wp_bind_read early ?_
    rw [wp_pure]
    refine ⟨fun n member => ?_,settled,early⟩
    split at member
    · rcases List.mem_append.mp member with before | last
      · exact started_more (standing.spawned_started n before)
      · rw [List.mem_singleton.mp last]
        exact started_met best
    · exact started_more (standing.spawned_started n member)
  · have missing := fun empty => met (met_iff.mp empty)
    rw [if_pos (by simpa using missing)]
    refine wp_bind_heard watches_watched (fun e' same => ?_) fun k _ e' heard => ?_
    · rw [timely,same]
      exact standing.timely
    · rw [wp_pure]
      refine ⟨fun n member => started_more (standing.spawned_started n member),fun n member => ?_,?_⟩
      · rw [heard]
        rw [List.map_append,List.mem_append] at member
        rcases member with before | last
        · exact (standing.settled n before).imp id (List.mem_append_left _)
        · exact .inr (List.mem_append_right _ (by simpa using last))
      · rw [heard]
        exact standing.timely

theorem wp_startEach_timely (inOrder : InOrder names (done ++ rest))
    (standing : Standing names done spawned e.2) :
    (startEach names spawned rest).wp watched.surroundings (timely names)
      (fun _ _ e' => ∀ n ∈ names, n ∉ e'.2.early) m e := by
  induction rest generalizing done spawned m e with
  | nil => exact standing.timely
  | cons d rest ih =>
    have turn := wp_startOne_timely (m := m) (inOrder done d rest rfl) standing
    refine wp_then turn fun spawned' m e' after => ih ?_ after
    rw [List.append_assoc]
    exact inOrder

theorem wp_spawnAll_timely {defs : List ServiceDef} {k : Kernel}
    (inOrder : InOrder (defs.map ServiceDef.name) (startingOrder (effectiveAfter defs))) :
    (spawnAll defs).wp watched.surroundings (timely (defs.map ServiceDef.name))
      (fun _ _ e => ∀ n ∈ defs.map ServiceDef.name, n ∉ e.2.early) m (k,{}) := by
  have empty : ∀ e : Kernel × Record, e.2 = {} → ∀ n ∈ defs.map ServiceDef.name, n ∉ e.2.early := by
    intro e same
    rw [same]
    exact fun _ _ => List.not_mem_nil
  refine wp_bind_order watches_watched (fun op e' same => empty e' same) fun e' same => ?_
  refine @wp_startEach_timely m e' _ [] [] _ inOrder ?_
  rw [same]
  exact ⟨by simp,by simp,by simp⟩

end Timely

section Early
variable {ok : Bool → Bool} {m : Memory} {e : Kernel × Record} {names spawned : List String}
  {done rest : List ServiceDef} {d : ServiceDef} {name : String}

def Settles (name : String) (op : Op) : Prop :=
  ∀ m k r (g : Record) n, (turns.reply op m k r g).settled n → g.settled n ∨ n = name

theorem settles_besides {op : Op} (besides : op.besides = true) : Settles name op := by
  intro m k r g n settled
  rw [reply_besides besides] at settled
  exact .inl settled

theorem settles_awaits {dep : String} {op : Op} (awaits : op.awaits dep = true) : Settles name op := by
  intro m k r g n settled
  rcases reply_awaits awaits (m := m) (k := k) (r := r) (g := g) with same | waited
  · rw [same] at settled
    exact .inl settled
  · rw [waited] at settled
    exact .inl (wait_settled.mp settled)

theorem settles_spawn {critical : Bool} {command : Command} :
    Settles name (.spawn (.service name critical) command) := by
  rintro m k r g n (handed | skipped)
  · rcases List.mem_append.mp handed with before | last
    · exact .inl (.inl before)
    · exact .inr (List.mem_singleton.mp last)
  · exact .inl (.inr skipped)

theorem settles_skip {missing : List String} : Settles name (.log (.requiresMissing name missing)) := by
  rintro m k r g n (handed | skipped)
  · exact .inl (.inl handed)
  · rcases List.mem_append.mp skipped with before | last
    · exact .inl (.inr before)
    · exact .inr (List.mem_singleton.mp last)

/-- A turn settles the service whose turn it is. -/
theorem startOne_settles (configured spawned : List String) (d : ServiceDef) :
    (startOne configured spawned d).Uses (fun _ _ => True) (Settles d.name) := by
  have beside : ∀ {α : Type} {p : Code α} {upd : Memory → Memory → Prop},
      p.Uses upd (fun op => op.besides = true) → p.Uses (fun _ _ => True) (Settles d.name) :=
    fun uses => uses_mono uses (fun _ _ _ => trivial) fun _ => settles_besides
  unfold startOne
  dsimp only
  split
  · exact uses_bind (uses_perform settles_skip) fun _ => uses_pure _
  · have waits : ∀ dep ∈ d.afterReady, (waitForReady dep readyWaitTimeout).Uses (fun _ _ => True)
        (Settles d.name) :=
      fun dep _ => uses_mono (waitForReady_awaits dep _) (fun _ _ _ => trivial) fun _ => settles_awaits
    refine uses_bind (uses_each waits) fun _ => uses_bind ?_ fun _ =>
      uses_bind (uses_read fun _ => trivial) fun _ => uses_pure _
    refine uses_bind (beside (prepareCommand_besides d)) fun command => ?_
    refine uses_bind (uses_perform settles_spawn) fun child => ?_
    cases child with
    | ok pid => exact beside (started_follows d [] pid)
    | error err =>
      refine uses_bind (uses_perform (settles_besides rfl)) fun _ => uses_provided ?_
      refine uses_bind (uses_perform fun _ _ _ _ _ settled => .inl settled) fun shell => ?_
      cases shell with
      | ok pid => exact beside (rescued_follows pid)
      | error err => exact uses_pure ()

/-- A wait for a service that has not had its turn is noted. -/
theorem wp_waitForReady_early {timeout : Nat} (unsettled : ¬ e.2.settled name) :
    (waitForReady name timeout).wp (deciding ok) asked (fun _ _ e' => name ∈ e'.2.early) m e := by
  have watches := watches_under (decided ok)
  have noted : ∀ g : Record, ¬ g.settled name → name ∈ (g.wait name).early :=
    fun g unsettled => mem_wait_early.mpr (.inr ⟨rfl,unsettled⟩)
  have idle : (deciding ok).Frame asked (fun _ _ => True) (fun op => op = .now ∨ ∃ t, op = .sleep t)
      fun _ e => ¬ e.2.settled name := by
    refine record_frame watches (P := fun g => ¬ g.settled name) ?_ fun _ _ _ _ => trivial
    rintro op m k r g (rfl | ⟨t,rfl⟩) before
    · exact before
    · exact before
  refine wp_bind_frame idle (uses_perform (.inl rfl)) unsettled fun start m e unsettled => ?_
  refine wp_then (R := fun ready _ e => if ready then name ∈ e.2.early else ¬ e.2.settled name) ?_ ?_
  · refine wp_repeatFrom (fun _ _ e => ¬ e.2.settled name) unsettled (fun _ _ _ _ => trivial) ?_
    intro _ m e unsettled
    refine wp_bind_frame idle (uses_perform (.inl rfl)) unsettled fun t m e unsettled => ?_
    split
    · refine wp_bind_heard watches (fun _ _ => trivial) fun k ready e' heard => ?_
      have waited : e'.2 = e.2.wait name := heard
      cases ready with
      | true =>
        rw [if_pos rfl,wp_pure,waited]
        exact noted e.2 unsettled
      | false =>
        have still : ¬ e'.2.settled name := by
          rw [waited,wait_settled]
          exact unsettled
        exact wp_bind_frame idle (uses_perform (.inr ⟨_,rfl⟩)) still fun _ _ _ still => still
    · exact unsettled
  · intro ready m e after
    cases ready with
    | true => exact after
    | false =>
      rw [Bool.not_false]
      refine wp_perform (P := fun e' => e'.2 = e.2) rfl ?_ (fun _ _ => trivial) ?_
      · exact fun e₁ e₂ moved same => (watches.moves _ m e₁ e₂ moved).1.trans same
      · intro e₁ _ e₂ same replied
        have waited := (watches.replies _ m e₁ _ e₂ replied).2
        rw [same] at waited
        have heard : e₂.2 = e.2.wait name := waited
        rw [heard]
        exact noted e.2 after

/-- What has been noted stays noted. -/
theorem wp_early_stays {α : Type} (p : Code α) (noted : name ∈ e.2.early) :
    p.wp (deciding ok) asked (fun _ _ e' => name ∈ e'.2.early) m e := by
  refine wp_frame (record_frame (watches_under _) (P := fun g => name ∈ g.early) ?_
    fun _ _ _ _ => trivial) (uses_any p) noted
  intro op m k r g _ before
  have waited : ∀ n, name ∈ (g.wait n).early := fun n => mem_wait_early.mpr (.inl before)
  cases op with
  | spawn origin command => cases origin <;> exact before
  | isReady n => exact waited n
  | log line =>
    cases line with
    | readyTimedOut n => exact waited n
    | _ => exact before
  | _ => exact before

theorem wp_startOne_early {dep : String} (met : Met names spawned d) (member : dep ∈ d.afterReady)
    (unsettled : ¬ e.2.settled dep) :
    (startOne names spawned d).wp (deciding ok) asked (fun _ _ e' => dep ∈ e'.2.early) m e := by
  unfold startOne
  dsimp only
  rw [met_iff.mpr met,if_neg (by simp)]
  refine wp_then (R := fun _ _ e => dep ∈ e.2.early) ?_ fun _ m e noted => wp_early_stays _ noted
  have waits : (each d.afterReady fun dep => waitForReady dep readyWaitTimeout).wp (deciding ok) asked
      (fun _ _ e => dep ∈ e.2.early ∨ dep ∈ ([] : List String) ∧ ¬ e.2.settled dep) m e := by
    refine wp_each (fun left _ (e : Kernel × Record) => dep ∈ e.2.early ∨ dep ∈ left ∧ ¬ e.2.settled dep)
      (.inr ⟨member,unsettled⟩) ?_
    rintro x left m e (noted | ⟨inside,unsettled⟩)
    · exact wp_mono (wp_early_stays _ noted) fun _ _ _ noted => .inl noted
    · rcases List.mem_cons.mp inside with rfl | later
      · exact wp_mono (wp_waitForReady_early unsettled) fun _ _ _ noted => .inl noted
      · have still : (waitForReady x readyWaitTimeout).wp (deciding ok) asked
            (fun _ _ e => ¬ e.2.settled dep) m e := by
          have frame : (deciding ok).Frame asked (fun _ _ => True) (fun op => op.awaits x = true)
              fun _ e => ¬ e.2.settled dep := by
            refine record_frame (watches_under _) (P := fun g => ¬ g.settled dep) ?_ fun _ _ _ _ => trivial
            intro op m k r g awaits before
            rcases reply_awaits awaits (m := m) (k := k) (r := r) (g := g) with same | waited
            · rw [same]
              exact before
            · rw [waited,wait_settled]
              exact before
          have waits := uses_mono (waitForReady_awaits x readyWaitTimeout) (fun _ _ _ => trivial)
            fun _ allowed => allowed
          exact wp_frame frame waits unsettled
        exact wp_mono still fun _ _ _ still => .inr ⟨later,still⟩
  refine wp_mono waits fun _ _ e after => ?_
  rcases after with noted | ⟨none,-⟩
  · exact noted
  · contradiction

/-- When every spawn succeeds, a service that is out of order is seen to wait. -/
theorem wp_startEach_early {before after : List ServiceDef} {dep : String}
    (met : Met names ((startedFrom names [] (done ++ before)).map ServiceDef.name) d)
    (member : dep ∈ d.afterReady) (late : dep ∉ (done ++ before).map ServiceDef.name)
    (ran : Ran (startedFrom names [] done) m e)
    (up : ∀ n, n ∈ spawned ↔ n ∈ (startedFrom names [] done).map ServiceDef.name)
    (settled : ∀ n, e.2.settled n → n ∈ done.map ServiceDef.name) :
    (startEach names spawned (before ++ d :: after)).wp (deciding fun _ => true) asked
      (fun _ _ e' => dep ∈ e'.2.early) m e := by
  induction before generalizing done spawned m e with
  | nil =>
    rw [List.append_nil] at met late
    have given : Met names spawned d := met_mono met fun n => (up n).mpr
    have unsettled : ¬ e.2.settled dep := fun early => late (settled dep early)
    exact wp_then (wp_startOne_early given member unsettled) fun _ m e noted => wp_early_stays _ noted
  | cons first before ih =>
    have frame : (deciding fun _ => true).Frame asked (fun _ _ => True) (Settles first.name)
        fun _ e => ∀ n, e.2.settled n → n ∈ (done ++ [first]).map ServiceDef.name := by
      refine record_frame (watches_under _)
        (P := fun g => ∀ n, g.settled n → n ∈ (done ++ [first]).map ServiceDef.name) ?_
        fun _ _ _ _ => trivial
      intro op m k r g settles bounded n now
      rcases settles m k r g n now with earlier | rfl
      · exact bounded n earlier
      · simp
    have bounded : ∀ n, e.2.settled n → n ∈ (done ++ [first]).map ServiceDef.name := by
      intro n now
      rw [List.map_append]
      exact List.mem_append_left _ (settled n now)
    have reached : ranOnTurn (fun _ => true) names (startedFrom names [] done) first =
        startedFrom names [] (done ++ [first]) := by
      have turned := @ranOnTurn_startedFrom (fun _ => true) (startedFrom names [] done) first names []
      rw [List.filter_true,List.filter_nil,startedFrom,List.append_nil] at turned
      rw [← turned,startedFrom_append,List.nil_append]
    have turn : (startOne names spawned first).wp (deciding fun _ => true) asked (fun spawned' m e' =>
        Ran (startedFrom names [] (done ++ [first])) m e' ∧
        ∀ n, n ∈ spawned' ↔ n ∈ (startedFrom names [] (done ++ [first])).map ServiceDef.name) m e := by
      rw [← reached]
      exact wp_mono (wp_startOne_decided rfl ran up) fun _ _ _ after => ⟨after.1,after.2.1⟩
    have both := wp_and turn (wp_frame frame (startOne_settles names spawned first) bounded)
    refine wp_then (wp_weaken both (fun _ _ _ _ => trivial) fun _ _ _ after => after) ?_
    rintro spawned' m e ⟨⟨ran,up⟩,settled⟩
    have split : done ++ first :: before = (done ++ [first]) ++ before := by simp
    rw [split] at met late
    exact ih met late ran up settled

end Early

/-- The boot waits for no service before its turn just when every service that can be started is in
order with those it waits for. -/
theorem waitsInOrder_iff (defs : List ServiceDef) : WaitsInOrder defs ↔
    InOrder (defs.map ServiceDef.name) (startingOrder (effectiveAfter defs)) := by
  constructor
  · intro waits before d after placed met dep member listed
    by_contra late
    have answers : Answers (deciding fun _ => true) := answers_decided rfl
    obtain ⟨_,m,e,run⟩ := spawnAll_ends answers defs {} ({},{})
    have early : (spawnAll defs).wp (deciding fun _ => true) asked (fun _ _ e => dep ∈ e.2.early) {}
        ({},{}) := by
      refine wp_bind_order (watches_under _) (fun _ _ _ => trivial) fun e same => ?_
      rw [placed]
      refine @wp_startEach_early _ e _ [] [] d before after dep met member late ⟨?_,?_⟩ ?_ ?_
      · simp
      · simp [startedFrom]
      · simp [startedFrom]
      · rw [same]
        simp [Record.settled]
    have noted := wp_returns run early
    exact waits {} {} _ (reaches_of_under run) dep listed noted
  · intro inOrder m k t run
    exact wp_everywhere run (wp_spawnAll_timely inOrder) fun _ _ _ held => held

section Runs

def Related (defs : List ServiceDef) (earlier later : String) : Prop :=
  (∃ d ∈ defs, d.name = later ∧ earlier ∈ d.after ++ d.afterReady ++ d.requires ++ d.wants) ∨
    ∃ d ∈ defs, d.name = earlier ∧ later ∈ d.before

def Acyclic (defs : List ServiceDef) : Prop :=
  ∀ name, ¬ Relation.TransGen (Related defs) name name

def web : ServiceDef := { name := "web", path := "/usr/bin/web", afterReady := ["db"] }

def db : ServiceDef := { name := "db", path := "/usr/bin/db" }

def stalled : Option (State Memory Op Op.Ans (Kernel × Record) Unit) :=
  drive watched (fun op m e => Kernel.obliging (fun _ => true) Config.default op m e.1)
    [.upTo (fun _ => false) 200] ⟨spawnAll [web,db],{},({},{})⟩

theorem waits_before_its_turn : ¬ ∀ defs : List ServiceDef, (defs.map ServiceDef.name).Nodup →
    Acyclic defs → WaitsInOrder defs := by
  intro claim
  have early : stalled.any (fun t => t.env.2.early.contains "db") = true := by
    decide +kernel
  obtain ⟨t,went,noted⟩ := (Option.any_eq_true _ _).mp early
  have related : ∀ earlier later, Related [web,db] earlier later → earlier = "db" ∧ later = "web" := by
    intro earlier later relation
    rcases relation with ⟨d,member,rfl,inside⟩ | ⟨d,member,-,inside⟩
    · rcases List.mem_pair.mp member with rfl | rfl
      · exact ⟨List.mem_singleton.mp inside,rfl⟩
      · exact absurd inside List.not_mem_nil
    · rcases List.mem_pair.mp member with rfl | rfl
      · exact absurd inside List.not_mem_nil
      · exact absurd inside List.not_mem_nil
  have acyclic : Acyclic [web,db] := by
    intro name cycle
    have ends : name = "db" ∧ name = "web" := by
      obtain ⟨next,first,-⟩ := Relation.TransGen.head'_iff.mp cycle
      obtain ⟨last,-,final⟩ := Relation.TransGen.tail'_iff.mp cycle
      exact ⟨(related _ _ first).1,(related _ _ final).2⟩
    exact absurd (ends.1.symm.trans ends.2) (by decide)
  have waits := claim [web,db] (by decide) acyclic {} {} t (drive_reaches went) "db" (by decide)
  exact waits (List.contains_iff_mem.mp noted)

end Runs
end MitosServices.Readiness
