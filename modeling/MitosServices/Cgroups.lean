import MitosServices.Apps
import MitosServices.Paths
import MitosServices.Units

/-! The cgroup of each service and app is a directory under a root, named by joining paths. A name
that is more than one plain piece, or is `apps`, may lead to a directory with others in it. -/
namespace MitosServices.Cgroups

def cgroupRoot : String := "/sys/fs/cgroup/mitos-init"

def dirUnder (root name : String) : List Char := Paths.join root.toList name.toList

abbrev Hierarchy := List (Int × Paths.Dir)

def mount : Paths.Dir := ["sys".toList,"fs".toList,"cgroup".toList]

/-- Only a cgroup below the mount point has a `cgroup.kill`. -/
def killable (dir : Paths.Dir) : Bool := mount.isPrefixOf dir && dir != mount

def attachUnder (root name : String) (pid : Int) (h : Hierarchy) : Hierarchy :=
  (pid,Paths.resolve (dirUnder root name)) :: h.filter fun entry => entry.1 != pid

def killAndRemoveUnder (root name : String) (h : Hierarchy) : Hierarchy :=
  let dir := Paths.resolve (dirUnder root name)
  if killable dir then h.filter fun entry => !dir.isPrefixOf entry.2 else h

section Ids

theorem mem_toDigits {n : Nat} {c : Char} (member : c ∈ Nat.toDigits 16 n) :
    ∃ d < 16, c = d.digitChar := by
  induction n using Nat.strong_induction_on with
  | _ n ih =>
    by_cases small : n < 16
    · rw [Nat.toDigits_of_lt_base small,List.mem_singleton] at member
      exact ⟨n,small,member⟩
    · rw [Nat.toDigits_of_base_le (by omega) (by omega),List.mem_append,List.mem_singleton] at member
      cases member with
      | inl early => exact ih (n / 16) (by omega) early
      | inr last => exact ⟨n % 16,by omega,last⟩

theorem toDigits_inj {n k : Nat} (same : Nat.toDigits 16 n = Nat.toDigits 16 k) : n = k := by
  have digit_inj : ∀ a < 16, ∀ b < 16, Nat.digitChar a = Nat.digitChar b → a = b := by decide
  induction n using Nat.strong_induction_on generalizing k with
  | _ n ih =>
    by_cases small : n < 16 <;> by_cases small' : k < 16
    · rw [Nat.toDigits_of_lt_base small,Nat.toDigits_of_lt_base small'] at same
      exact digit_inj n small k small' (List.cons.inj same).1
    · have lengths := congrArg List.length same
      have positive : 0 < (Nat.toDigits 16 (k / 16)).length := Nat.length_toDigits_pos
      rw [Nat.toDigits_of_lt_base small,Nat.toDigits_of_base_le (by omega) (by omega),
        List.length_append] at lengths
      simp only [List.length_singleton] at lengths
      omega
    · have lengths := congrArg List.length same
      have positive : 0 < (Nat.toDigits 16 (n / 16)).length := Nat.length_toDigits_pos
      rw [Nat.toDigits_of_lt_base small',Nat.toDigits_of_base_le (by omega) (by omega),
        List.length_append] at lengths
      simp only [List.length_singleton] at lengths
      omega
    · rw [Nat.toDigits_of_base_le (by omega) (by omega),
        Nat.toDigits_of_base_le (b := 16) (n := k) (by omega) (by omega)] at same
      obtain ⟨early,last⟩ := List.append_inj' same rfl
      have quotient := ih (n / 16) (by omega) early
      have remainder := digit_inj (n % 16) (by omega) (k % 16) (by omega) (List.cons.inj last).1
      omega

theorem notMem_lowerHex {n : Nat} {c : Char} (other : ∀ d < 16, Nat.digitChar d ≠ c) :
    c ∉ (Apps.lowerHex n).toList := by
  intro member
  rw [Apps.lowerHex,String.toList_ofList] at member
  obtain ⟨d,small,same⟩ := mem_toDigits member
  exact other d small same.symm

theorem appId_toList (now seq : Nat) : (Apps.appId now seq).toList =
    "app-".toList ++ ((Apps.lowerHex now).toList ++ '-' :: (Apps.lowerHex seq).toList) := by
  simp [Apps.appId,toString]

theorem lowerHex_inj {n k : Nat} (same : (Apps.lowerHex n).toList = (Apps.lowerHex k).toList) :
    n = k := by
  rw [Apps.lowerHex,Apps.lowerHex,String.toList_ofList,String.toList_ofList] at same
  exact toDigits_inj same

/-- Apps launched at different times or with different numbers have different ids. -/
theorem appId_inj {now seq now' seq' : Nat}
    (same : (Apps.appId now seq).toList = (Apps.appId now' seq').toList) :
    now = now' ∧ seq = seq' := by
  have dashless (n : Nat) : '-' ∉ (Apps.lowerHex n).toList := notMem_lowerHex (by decide)
  rw [appId_toList,appId_toList] at same
  have cut := congrArg (Text.splitOnce '-') (List.append_cancel_left same)
  rw [Text.splitOnce_append (dashless now),Text.splitOnce_append (dashless now')] at cut
  have halves := Prod.ext_iff.mp (Option.some.inj cut)
  exact ⟨lowerHex_inj halves.1,lowerHex_inj halves.2⟩

theorem appId_plain (now seq : Nat) : Paths.Plain (Apps.appId now seq).toList := by
  have slashless (n : Nat) : '/' ∉ (Apps.lowerHex n).toList := notMem_lowerHex (by decide)
  rw [appId_toList]
  constructor
  · simp
  · simp [slashless]
  · simp
  · simp

end Ids

/-- Whose cgroup it is: a service's, or that of the app launched at `now` as number `seq`. -/
inductive Owner
  | service (name : String)
  | app (now seq : Nat)
deriving DecidableEq, Repr

namespace Owner

def root : Owner → String
  | .service _ => cgroupRoot
  | .app _ _ => Apps.appsCgroupRoot

def name : Owner → String
  | .service name => name
  | .app now seq => Apps.appId now seq

def cgroup (owner : Owner) : Paths.Dir := Paths.resolve (dirUnder owner.root owner.name)

def tearDown (owner : Owner) (h : Hierarchy) : Hierarchy :=
  killAndRemoveUnder owner.root owner.name h

end Owner

/-- No teardown is at or above the cgroup of another, so none kills a process of another. -/
structure KeptApart (owners : List Owner) : Prop where
  apart : ∀ a ∈ owners, ∀ b ∈ owners, a ≠ b → ¬ a.cgroup <+: b.cgroup
  spares : ∀ a ∈ owners, ∀ b ∈ owners, a ≠ b → ∀ h, ∀ entry ∈ h, b.cgroup <+: entry.2 →
    entry ∈ a.tearDown h

theorem mem_tearDown {owner : Owner} {h : Hierarchy} {entry : Int × Paths.Dir} (member : entry ∈ h)
    (outside : ¬ owner.cgroup <+: entry.2) : entry ∈ owner.tearDown h := by
  unfold Owner.tearDown killAndRemoveUnder
  dsimp only
  split
  · have low : (Paths.resolve (dirUnder owner.root owner.name)).isPrefixOf entry.2 = false := by
      rw [Bool.eq_false_iff,ne_eq,List.isPrefixOf_iff_prefix]
      exact outside
    rw [List.mem_filter,low]
    exact ⟨member,rfl⟩
  · exact member

theorem keptApart_iff_apart {owners : List Owner} : KeptApart owners ↔
    ∀ a ∈ owners, ∀ b ∈ owners, a ≠ b → ¬ a.cgroup <+: b.cgroup := by
  constructor
  · intro kept
    exact kept.apart
  · intro apart
    refine ⟨apart,?_⟩
    intro a memberA b memberB other h entry member inside
    apply mem_tearDown member
    intro above
    cases List.prefix_or_prefix_of_prefix above inside with
    | inl left => exact apart a memberA b memberB other left
    | inr right => exact apart b memberB a memberA other.symm right

section Places

def services : Paths.Dir := mount ++ ["mitos-init".toList]

/-- Where a name leads, piece by piece: an absolute one from the top, any other from the services'
root. -/
def place (name : String) : Paths.Dir :=
  Paths.follow (if Paths.isAbsolute name.toList then [] else services) name.toList

def appPlace (now seq : Nat) : Paths.Dir := services ++ ["apps".toList,(Apps.appId now seq).toList]

theorem cgroup_service (name : String) : (Owner.service name).cgroup = place name := by
  have root : Paths.resolve cgroupRoot.toList = services := by decide +kernel
  have joined : (Owner.service name).cgroup =
      Paths.resolve (Paths.join cgroupRoot.toList name.toList) := rfl
  rw [joined,Paths.resolve_join,root,place]
  split <;> rfl

theorem cgroup_app (now seq : Nat) : (Owner.app now seq).cgroup = appPlace now seq := by
  have root : Paths.resolve Apps.appsCgroupRoot.toList = services ++ ["apps".toList] := by
    decide +kernel
  have joined : (Owner.app now seq).cgroup =
      Paths.resolve (Paths.join Apps.appsCgroupRoot.toList (Apps.appId now seq).toList) := rfl
  rw [joined,Paths.resolve_join_plain (appId_plain now seq),root,appPlace,List.append_assoc]
  rfl

/-- No app's cgroup is at or above another's. -/
theorem apps_apart {now seq now' seq' : Nat} (other : (now,seq) ≠ (now',seq')) :
    ¬ appPlace now seq <+: appPlace now' seq' := by
  intro above
  have same := above.eq_of_length (by simp only [appPlace,List.length_append,List.length_cons])
  have ids := (List.cons.inj (List.cons.inj (List.append_cancel_left same)).2).1
  obtain ⟨rfl,rfl⟩ := appId_inj ids
  exact other rfl

end Places

def owners (names : List String) (apps : List (Nat × Nat)) : List Owner :=
  names.map .service ++ apps.map fun app => .app app.1 app.2

/-- A service as one of the two parsers accepts it. -/
inductive Accepted (d : ServiceDef) : Prop
  | inline (rest : List Char) (accepted : Config.parseService rest = .ok d)
  | unit (path : String) (file text : List Char) (named : file ≠ []) (solid : '/' ∉ file)
      (accepted : Units.parseUnit path (some (Units.fileStem file)) text = .ok d)

/-- Exactly then is every teardown confined: no name leads to the place of another, or above it,
nor does one lead to an app's place, above it or into it. -/
theorem keptApart_iff (names : List String) (apps : List (Nat × Nat)) :
    KeptApart (owners names apps) ↔
      (∀ a ∈ names, ∀ b ∈ names, a ≠ b → ¬ place a <+: place b) ∧
      ∀ a ∈ names, ∀ app ∈ apps, ¬ place a <+: appPlace app.1 app.2 ∧
        ¬ appPlace app.1 app.2 <+: place a := by
  rw [keptApart_iff_apart]
  constructor
  · intro apart
    constructor
    · intro a memberA b memberB other
      have separate := apart (.service a) (by simp [owners,memberA]) (.service b)
        (by simp [owners,memberB]) (by simp [other])
      rwa [cgroup_service,cgroup_service] at separate
    · intro a memberA app memberApp
      have listedA : Owner.service a ∈ owners names apps := by simp [owners,memberA]
      have listedApp : Owner.app app.1 app.2 ∈ owners names apps := by
        simp only [owners,List.mem_append,List.mem_map]
        exact .inr ⟨app,memberApp,rfl⟩
      have above := apart _ listedA _ listedApp (by simp)
      have below := apart _ listedApp _ listedA (by simp)
      rw [cgroup_service,cgroup_app] at above below
      exact ⟨above,below⟩
  · intro separate a memberA b memberB other
    simp only [owners,List.mem_append,List.mem_map] at memberA memberB
    rcases memberA with ⟨a,memberA,rfl⟩ | ⟨a,memberA,rfl⟩
    · rcases memberB with ⟨b,memberB,rfl⟩ | ⟨b,memberB,rfl⟩
      · rw [cgroup_service,cgroup_service]
        exact separate.1 a memberA b memberB fun same => other (same ▸ rfl)
      · rw [cgroup_service,cgroup_app]
        exact (separate.2 a memberA b memberB).1
    · rcases memberB with ⟨b,memberB,rfl⟩ | ⟨b,memberB,rfl⟩
      · rw [cgroup_service,cgroup_app]
        exact (separate.2 b memberB a memberA).2
      · rw [cgroup_app,cgroup_app]
        apply apps_apart
        intro same
        obtain ⟨now,seq⟩ := Prod.ext_iff.mp same
        exact other (by rw [now,seq])

theorem place_plain {name : String} (plain : Paths.Plain name.toList) :
    place name = services ++ [name.toList] := by
  rw [place,Paths.not_isAbsolute_of_plain plain,if_neg Bool.false_ne_true,Paths.follow_plain plain]

/-- Among names of one plain piece only `apps` is in the way, and only while there are apps. -/
theorem keptApart_plain_iff {names : List String} {apps : List (Nat × Nat)}
    (plain : ∀ name ∈ names, Paths.Plain name.toList) :
    KeptApart (owners names apps) ↔ "apps" ∉ names ∨ apps = [] := by
  rw [keptApart_iff]
  constructor
  · intro separate
    by_contra both
    obtain ⟨named,launched⟩ := not_or.mp both
    obtain ⟨app,memberApp⟩ := List.exists_mem_of_ne_nil apps launched
    apply (separate.2 "apps" (not_not.mp named) app memberApp).1
    rw [place_plain (plain "apps" (not_not.mp named))]
    exact ⟨[(Apps.appId app.1 app.2).toList],by rw [appPlace,List.append_assoc]; rfl⟩
  · intro free
    constructor
    · intro a memberA b memberB other above
      rw [place_plain (plain a memberA),place_plain (plain b memberB)] at above
      have same := above.eq_of_length (by simp)
      have names := (List.cons.inj (List.append_cancel_left same)).1
      exact other (String.toList_inj.mp names)
    · intro a memberA app memberApp
      rw [place_plain (plain a memberA),appPlace]
      constructor
      · intro above
        have first := (List.cons_prefix_cons.mp ((List.prefix_append_right_inj services).mp above)).1
        have named : a = "apps" := String.toList_inj.mp first
        cases free with
        | inl absent => exact absent (named ▸ memberA)
        | inr none => exact absurd memberApp (by simp [none])
      · intro below
        have lengths := below.length_le
        simp only [List.length_append,List.length_cons,List.length_nil] at lengths
        omega

/-- A service called `apps` takes every app with it. -/
theorem kills_all_apps : ¬ ∀ (defs : List ServiceDef) (apps : List (Nat × Nat)),
    (∀ d ∈ defs, Accepted d) → (defs.map ServiceDef.name).Nodup → (apps.map Prod.snd).Nodup →
      KeptApart (owners (defs.map ServiceDef.name) apps) := by
  intro claim
  let d : ServiceDef := {
    name := "apps"
    path := "/usr/bin/updater"
    restart := .onFailure
    target := "multi-user" }
  have accepted : Accepted d := .inline "apps path=/usr/bin/updater".toList (by decide +kernel)
  have kept := claim [d] [(0,1)] (by simpa using accepted) (by simp) (by simp)
  have above : place "apps" <+: appPlace 0 1 := by decide +kernel
  exact ((keptApart_iff _ _).mp kept).2 "apps" (by simp [d]) (0,1) (by simp) |>.1 above

end MitosServices.Cgroups
