import MitosServices.Footprint

/-! The three tables of pids and the children behind them. Every entry stands for a child of its
own kind, except at the one pid that has been reaped and is still to be struck from its table. -/
namespace MitosServices.Pids
open Interaction Interaction.Program

inductive Kind
  | service
  | timer
  | app
  | orphan
deriving DecidableEq, Repr

def kind : Origin → Kind
  | .service _ _ => .service
  | .rescue => .service
  | .timer _ => .timer
  | .app _ => .app
  | .orphan => .orphan

def kindAt (k : Kernel) (pid : Int) : Option Kind :=
  (k.children.lookup pid).map fun child => kind child.origin

def originAt (k : Kernel) (pid : Int) : Option Origin :=
  (k.children.lookup pid).map Child.origin

def pendingAt (m : Memory) (pid : Int) : Option String :=
  m.timers.bind fun s => s.pending.lookup pid

/-- The tables agree with the children but for the pid in `hole`. The registry of apps is only
spoken of when `strict`; a pid that is back in use before its last exit is dispatched may be
pending and listed at once. -/
structure Ledger (strict : Bool) (hole : Option Int) (m : Memory) (k : Kernel) : Prop where
  services : ∀ pid sup, m.services.lookup pid = some sup → hole ≠ some pid →
    kindAt k pid = some .service
  pending : ∀ pid name, pendingAt m pid = some name → hole ≠ some pid → kindAt k pid = some .timer
  services_pending : ∀ pid sup, m.services.lookup pid = some sup → pendingAt m pid = none
  apps : strict = true → ∀ pid info, k.apps.lookup pid = some info → hole ≠ some pid →
    kindAt k pid = some .app
  services_apps : strict = true → ∀ pid sup, m.services.lookup pid = some sup →
    k.apps.lookup pid = none
  pending_apps : strict = true → ∀ pid name info, pendingAt m pid = some name →
    k.apps.lookup pid = some info → hole = some pid ∧ kindAt k pid = some .app

section Kinds
variable {k k' : Kernel} {pid p : Int} {origin : Origin} {mask : Mask} {κ : Kind}

theorem kindAt_some : kindAt k pid = some κ ↔
    ∃ child, k.children.lookup pid = some child ∧ kind child.origin = κ := Option.map_eq_some_iff

theorem originAt_some : originAt k pid = some origin ↔
    ∃ child, k.children.lookup pid = some child ∧ child.origin = origin := Option.map_eq_some_iff

theorem kindAt_none : kindAt k pid = none ↔ k.children.lookup pid = none := Option.map_eq_none_iff

theorem kindAt_addChild_self : kindAt (k.addChild pid origin mask) pid = some (kind origin) :=
  kindAt_some.mpr ⟨_,lookup_insert_iff.mpr (.inl ⟨rfl,rfl⟩),rfl⟩

theorem kindAt_addChild_ne (other : p ≠ pid) :
    kindAt (k.addChild pid origin mask) p = kindAt k p := by
  unfold kindAt Kernel.addChild
  rw [AList.lookup_insert_ne other]

theorem kindAt_addChild (fresh : kindAt k pid = none) (there : kindAt k p = some κ) :
    kindAt (k.addChild pid origin mask) p = some κ := by
  rw [kindAt_addChild_ne,there]
  rintro rfl
  rw [fresh] at there
  contradiction

theorem kindAt_reap_ne (other : p ≠ pid) : kindAt (k.reap pid) p = kindAt k p := by
  unfold kindAt Kernel.reap
  rw [AList.lookup_erase_ne other]

/-- No event takes a child away or changes what it was started as. -/
theorem stir_origins {ev : Event} {op : Op} {m : Memory} (moved : Kernel.stir ev op m k = some k')
    (there : originAt k p = some origin) : originAt k' p = some origin := by
  obtain ⟨child,found,rfl⟩ := originAt_some.mp there
  have other : ∀ q new, k.children.lookup q = none → k'.children = k.children.insert q new →
      originAt k' p = some child.origin := by
    intro q new fresh changed
    rw [originAt_some,changed]
    refine ⟨child,lookup_insert_iff.mpr (.inr ⟨?_,found⟩),rfl⟩
    rintro rfl
    rw [found] at fresh
    contradiction
  rcases Kernel.stir_children moved with ⟨unchanged,-⟩ | ⟨q,old,ending,-,before,-,changed⟩ |
    ⟨q,-,fresh,changed⟩ | ⟨info,-,-,fresh,changed⟩
  · rw [originAt_some,unchanged]
    exact ⟨child,found,rfl⟩
  · rw [originAt_some,changed]
    by_cases equal : p = q
    · subst equal
      rw [found] at before
      cases before
      exact ⟨_,lookup_insert_iff.mpr (.inl ⟨rfl,rfl⟩),rfl⟩
    · exact ⟨child,lookup_insert_iff.mpr (.inr ⟨equal,found⟩),rfl⟩
  · exact other q _ fresh changed
  · exact other info.pid _ fresh changed

/-- No event takes a child away or changes its kind. -/
theorem stir_kinds {ev : Event} {op : Op} {m : Memory} (moved : Kernel.stir ev op m k = some k')
    (there : kindAt k p = some κ) : kindAt k' p = some κ := by
  obtain ⟨child,found,rfl⟩ := kindAt_some.mp there
  have kept := stir_origins moved (originAt_some.mpr ⟨child,found,rfl⟩)
  obtain ⟨child',found',same⟩ := originAt_some.mp kept
  exact kindAt_some.mpr ⟨child',found',congrArg kind same⟩

/-- The registry only changes when an app that was launched is registered. -/
theorem stir_apps {ev : Event} {op : Op} {m : Memory} (moved : Kernel.stir ev op m k = some k') :
    k'.apps = k.apps ∨
      ∃ info, ev = .register ∧ k.ipc = .launched info ∧ k'.apps = k.apps.insert info.pid info := by
  cases Kernel.stir_cases moved with
  | @register info launched => exact .inr ⟨info,rfl,launched,rfl⟩
  | _ => exact .inl rfl

end Kinds

section Steps
variable {strict : Bool} {hole : Option Int} {m m' : Memory} {k k' : Kernel} {pid : Int}

/-- Events keep the ledger, as long as an app is registered while it is still a child, and not
on the pid of a service whose exit is being dispatched. -/
theorem ledger_stir {ev : Event} {op : Op} (ledger : Ledger strict hole m k)
    (registered : strict = true → ev = .register → ∀ info, k.ipc = .launched info →
      kindAt k info.pid = some .app ∧
        (hole = some info.pid → m.services.lookup info.pid = none))
    (moved : Kernel.stir ev op m k = some k') : Ledger strict hole m k' := by
  have kinds := fun p kind (there : kindAt k p = some kind) => stir_kinds moved there
  refine ⟨?_,?_,ledger.services_pending,?_,?_,?_⟩
  · exact fun p sup there outside => kinds p _ (ledger.services p sup there outside)
  · exact fun p name there outside => kinds p _ (ledger.pending p name there outside)
  · intro isStrict p info there outside
    rcases stir_apps moved with apps | ⟨new,event,launched,apps⟩
    · exact kinds p _ (ledger.apps isStrict p info (apps ▸ there) outside)
    · rw [apps] at there
      rcases lookup_insert_iff.mp there with ⟨rfl,-⟩ | ⟨-,old⟩
      · exact kinds _ _ (registered isStrict event new launched).1
      · exact kinds p _ (ledger.apps isStrict p info old outside)
  · intro isStrict p sup there
    rcases stir_apps moved with apps | ⟨new,event,launched,apps⟩
    · exact apps ▸ ledger.services_apps isStrict p sup there
    · obtain ⟨app,untracked⟩ := registered isStrict event new launched
      rw [apps,AList.lookup_insert_ne]
      · exact ledger.services_apps isStrict p sup there
      · rintro rfl
        by_cases inside : hole = some new.pid
        · rw [untracked inside] at there
          contradiction
        · rw [ledger.services _ sup there inside] at app
          contradiction
  · intro isStrict p name info there listed
    rcases stir_apps moved with apps | ⟨new,event,launched,apps⟩
    · obtain ⟨inside,app⟩ := ledger.pending_apps isStrict p name info there (apps ▸ listed)
      exact ⟨inside,kinds p _ app⟩
    · rw [apps] at listed
      rcases lookup_insert_iff.mp listed with ⟨rfl,-⟩ | ⟨-,old⟩
      · obtain ⟨app,-⟩ := registered isStrict event new launched
        refine ⟨?_,kinds _ _ app⟩
        by_contra outside
        rw [ledger.pending _ name there outside] at app
        contradiction
      · obtain ⟨inside,app⟩ := ledger.pending_apps isStrict p name info there old
        exact ⟨inside,kinds p _ app⟩

theorem ledger_addChild {origin : Origin} {mask : Mask} (ledger : Ledger strict hole m k)
    (fresh : kindAt k pid = none) : Ledger strict hole m (k.addChild pid origin mask) where
  services p sup there outside := kindAt_addChild fresh (ledger.services p sup there outside)
  pending p name there outside := kindAt_addChild fresh (ledger.pending p name there outside)
  services_pending := ledger.services_pending
  apps isStrict p info there outside :=
    kindAt_addChild fresh (ledger.apps isStrict p info there outside)
  services_apps := ledger.services_apps
  pending_apps isStrict p name info there listed := by
    obtain ⟨inside,app⟩ := ledger.pending_apps isStrict p name info there listed
    exact ⟨inside,kindAt_addChild fresh app⟩

theorem apart_of_whole (ledger : Ledger strict none m k) (isStrict : strict = true) {name : String}
    (there : pendingAt m pid = some name) : k.apps.lookup pid = none := by
  refine Option.eq_none_iff_forall_ne_some.mpr fun info listed => ?_
  have inside := (ledger.pending_apps isStrict pid name info there listed).1
  contradiction

/-- A reap opens the hole. -/
theorem ledger_reap (ledger : Ledger strict none m k) : Ledger strict (some pid) m (k.reap pid) where
  services p sup there outside := by
    rw [kindAt_reap_ne fun same => outside (congrArg some same.symm)]
    exact ledger.services p sup there (by simp)
  pending p name there outside := by
    rw [kindAt_reap_ne fun same => outside (congrArg some same.symm)]
    exact ledger.pending p name there (by simp)
  services_pending := ledger.services_pending
  apps isStrict p info there outside := by
    rw [kindAt_reap_ne fun same => outside (congrArg some same.symm)]
    exact ledger.apps isStrict p info there (by simp)
  services_apps := ledger.services_apps
  pending_apps isStrict p name info there listed := by
    have absent := apart_of_whole ledger isStrict there
    exact absurd (absent.symm.trans listed) (by simp)

/-- The reap of a service already struck from the table opens no hole. -/
theorem ledger_reap_untracked (ledger : Ledger strict none m k)
    (service : kindAt k pid = some .service) (untracked : m.services.lookup pid = none) :
    Ledger strict none m (k.reap pid) where
  services p sup there _ := by
    rw [kindAt_reap_ne]
    · exact ledger.services p sup there (by simp)
    · rintro rfl
      rw [untracked] at there
      contradiction
  pending p name there _ := by
    have timer := ledger.pending p name there (by simp)
    rw [kindAt_reap_ne,timer]
    rintro rfl
    rw [service] at timer
    contradiction
  services_pending := ledger.services_pending
  apps isStrict p info there _ := by
    have app := ledger.apps isStrict p info there (by simp)
    rw [kindAt_reap_ne,app]
    rintro rfl
    rw [service] at app
    contradiction
  services_apps := ledger.services_apps
  pending_apps isStrict p name info there listed := by
    have absent := apart_of_whole ledger isStrict there
    exact absurd (absent.symm.trans listed) (by simp)

/-- Once no table has the reaped pid, but for an app launched on it since, the ledger is whole. -/
theorem ledger_close (ledger : Ledger strict (some pid) m k) (untracked : m.services.lookup pid = none)
    (idle : pendingAt m pid = none)
    (again : strict = true → ∀ info, k.apps.lookup pid = some info → kindAt k pid = some .app) :
    Ledger strict none m k where
  services p sup there _ := by
    refine ledger.services p sup there fun same => ?_
    cases same
    rw [untracked] at there
    contradiction
  pending p name there _ := by
    refine ledger.pending p name there fun same => ?_
    cases same
    rw [idle] at there
    contradiction
  services_pending := ledger.services_pending
  apps isStrict p info there _ := by
    by_cases same : p = pid
    · subst same
      exact again isStrict info there
    · exact ledger.apps isStrict p info there fun equal => same (Option.some.inj equal).symm
  services_apps := ledger.services_apps
  pending_apps isStrict p name info there listed := by
    obtain ⟨inside,-⟩ := ledger.pending_apps isStrict p name info there listed
    cases inside
    rw [idle] at there
    contradiction

theorem ledger_untrack (ledger : Ledger strict hole m k) :
    Ledger strict hole (withoutService m pid) k where
  services p sup there outside := ledger.services p sup (lookup_erase_iff.mp there).2 outside
  pending := ledger.pending
  services_pending p sup there := ledger.services_pending p sup (lookup_erase_iff.mp there).2
  apps := ledger.apps
  services_apps isStrict p sup there :=
    ledger.services_apps isStrict p sup (lookup_erase_iff.mp there).2
  pending_apps := ledger.pending_apps

theorem ledger_track {sup : Supervised} (ledger : Ledger strict none m k)
    (service : kindAt k pid = some .service) : Ledger strict none (withService m pid sup) k where
  services p s there outside := by
    rcases lookup_insert_iff.mp there with ⟨rfl,-⟩ | ⟨-,old⟩
    · exact service
    · exact ledger.services p s old outside
  pending := ledger.pending
  services_pending p s there := by
    rcases lookup_insert_iff.mp there with ⟨rfl,-⟩ | ⟨-,old⟩
    · refine Option.eq_none_iff_forall_ne_some.mpr fun name timer => ?_
      have other := ledger.pending p name timer (by simp)
      rw [service] at other
      contradiction
    · exact ledger.services_pending p s old
  apps := ledger.apps
  services_apps isStrict p s there := by
    rcases lookup_insert_iff.mp there with ⟨rfl,-⟩ | ⟨-,old⟩
    · refine Option.eq_none_iff_forall_ne_some.mpr fun info listed => ?_
      have other := ledger.apps isStrict p info listed (by simp)
      rw [service] at other
      contradiction
    · exact ledger.services_apps isStrict p s old
  pending_apps := ledger.pending_apps

/-- Memory that differs in nothing the ledger speaks of. -/
theorem ledger_memory (ledger : Ledger strict hole m k) (services : m'.services = m.services)
    (pending : ∀ p, pendingAt m' p = pendingAt m p) : Ledger strict hole m' k where
  services p sup there := ledger.services p sup (services ▸ there)
  pending p name there := ledger.pending p name (pending p ▸ there)
  services_pending p sup there := pending p ▸ ledger.services_pending p sup (services ▸ there)
  apps := ledger.apps
  services_apps isStrict p sup there := ledger.services_apps isStrict p sup (services ▸ there)
  pending_apps isStrict p name info there :=
    ledger.pending_apps isStrict p name info (pending p ▸ there)

/-- A timer's run enters its table. -/
theorem ledger_pend (ledger : Ledger strict none m k) (timer : kindAt k pid = some .timer)
    (services : m'.services = m.services)
    (pending : ∀ p n, pendingAt m' p = some n → p = pid ∨ pendingAt m p = some n) :
    Ledger strict none m' k where
  services p sup there := ledger.services p sup (services ▸ there)
  pending p n there outside := by
    rcases pending p n there with rfl | old
    · exact timer
    · exact ledger.pending p n old outside
  services_pending p sup there := by
    refine Option.eq_none_iff_forall_ne_some.mpr fun n now => ?_
    have service := ledger.services p sup (services ▸ there) (by simp)
    rcases pending p n now with rfl | old
    · rw [service] at timer
      contradiction
    · rw [ledger.services_pending p sup (services ▸ there)] at old
      contradiction
  apps := ledger.apps
  services_apps isStrict p sup there := ledger.services_apps isStrict p sup (services ▸ there)
  pending_apps isStrict p n info there listed := by
    rcases pending p n there with rfl | old
    · have other := ledger.apps isStrict p info listed (by simp)
      rw [timer] at other
      contradiction
    · exact ledger.pending_apps isStrict p n info old listed

/-- A timer's run leaves its table. -/
theorem ledger_unpend (ledger : Ledger strict hole m k) (services : m'.services = m.services)
    (pending : ∀ p n, pendingAt m' p = some n → pendingAt m p = some n) :
    Ledger strict hole m' k where
  services p sup there := ledger.services p sup (services ▸ there)
  pending p n there := ledger.pending p n (pending p n there)
  services_pending p sup there := by
    refine Option.eq_none_iff_forall_ne_some.mpr fun n now => ?_
    have before := ledger.services_pending p sup (services ▸ there)
    rw [pending p n now] at before
    contradiction
  apps := ledger.apps
  services_apps isStrict p sup there := ledger.services_apps isStrict p sup (services ▸ there)
  pending_apps isStrict p n info there :=
    ledger.pending_apps isStrict p n info (pending p n there)

/-- Surroundings that differ in nothing the ledger speaks of. -/
theorem ledger_kernel (ledger : Ledger strict hole m k) (children : k'.children = k.children)
    (apps : k'.apps = k.apps) : Ledger strict hole m k' := by
  have kinds : ∀ p, kindAt k' p = kindAt k p := by
    intro p
    unfold kindAt
    rw [children]
  constructor
  · exact fun p sup there outside => (kinds p).trans (ledger.services p sup there outside)
  · exact fun p name there outside => (kinds p).trans (ledger.pending p name there outside)
  · exact ledger.services_pending
  · exact fun isStrict p info there outside =>
      (kinds p).trans (ledger.apps isStrict p info (apps ▸ there) outside)
  · exact fun isStrict p sup there => apps ▸ ledger.services_apps isStrict p sup there
  · intro isStrict p name info there listed
    rw [kinds]
    exact ledger.pending_apps isStrict p name info there (apps ▸ listed)

theorem ledger_unlist (ledger : Ledger strict hole m k) :
    Ledger strict hole m { k with apps := k.apps.erase pid } where
  services := ledger.services
  pending := ledger.pending
  services_pending := ledger.services_pending
  apps isStrict p info there := ledger.apps isStrict p info (lookup_erase_iff.mp there).2
  services_apps isStrict p sup there := by
    refine Option.eq_none_iff_forall_ne_some.mpr fun info now => ?_
    have before := ledger.services_apps isStrict p sup there
    rw [(lookup_erase_iff.mp now).2] at before
    contradiction
  pending_apps isStrict p n info there now :=
    ledger.pending_apps isStrict p n info there (lookup_erase_iff.mp now).2

end Steps
end MitosServices.Pids
