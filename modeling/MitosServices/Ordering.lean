import MitosServices.Calls

/-! The starting order at boot: `before=`, `requires=` and `wants=` folded into `after`, then
Kahn's algorithm. -/
namespace MitosServices

def pushMissing (after : List String) (dep : String) : List String :=
  if after.contains dep then after else after ++ [dep]

def foldRequiresWants (d : ServiceDef) : ServiceDef :=
  { d with after := (d.requires ++ d.wants).foldl pushMissing d.after }

def injectAfter (target source : String) : List ServiceDef → List ServiceDef
  | [] => []
  | d :: rest =>
    if d.name == target then { d with after := pushMissing d.after source } :: rest
    else d :: injectAfter target source rest

def beforePairs (defs : List ServiceDef) : List (String × String) :=
  defs.flatMap fun d => d.before.map fun target => (target,d.name)

def effectiveAfter (defs : List ServiceDef) : List ServiceDef :=
  (beforePairs defs).foldl (fun result pair => injectAfter pair.1 pair.2 result)
    (defs.map foldRequiresWants)

def readyToPlace (names placed : List String) (d : ServiceDef) : Bool :=
  d.after.all fun dep => placed.contains dep || !names.contains dep

/-- Places the first ready service, one a turn; what is left when none is ready comes second. -/
def place (names : List String) : Nat → List ServiceDef → List String → List ServiceDef →
    List ServiceDef × List ServiceDef
  | 0, remaining, _, ordered => (ordered,remaining)
  | fuel+1, remaining, placed, ordered =>
    match remaining.find? (readyToPlace names placed) with
    | some d => place names fuel (remaining.eraseP (readyToPlace names placed)) (d.name :: placed)
        (ordered ++ [d])
    | none => (ordered,remaining)

def placeAll (defs : List ServiceDef) : List ServiceDef × List ServiceDef :=
  place (defs.map ServiceDef.name) defs.length defs [] []

def startingOrder (defs : List ServiceDef) : List ServiceDef :=
  (placeAll defs).1 ++ (placeAll defs).2

/-- One definition, but for what it is started after: the boot folds the other relations into
`after`. -/
def Alike (a b : ServiceDef) : Prop := { a with after := b.after } = b

section Names

theorem injectAfter_names (target source : String) (defs : List ServiceDef) :
    (injectAfter target source defs).map ServiceDef.name = defs.map ServiceDef.name := by
  induction defs with
  | nil => rfl
  | cons d rest ih =>
    unfold injectAfter
    split
    · rfl
    · rw [List.map_cons,List.map_cons,ih]

theorem effectiveAfter_names (defs : List ServiceDef) :
    (effectiveAfter defs).map ServiceDef.name = defs.map ServiceDef.name := by
  unfold effectiveAfter
  have folded : (defs.map foldRequiresWants).map ServiceDef.name = defs.map ServiceDef.name := by
    rw [List.map_map]
    rfl
  rw [← folded]
  generalize defs.map foldRequiresWants = result
  induction beforePairs defs generalizing result with
  | nil => rfl
  | cons pair pairs ih => exact (ih _).trans (injectAfter_names pair.1 pair.2 result)

theorem place_perm (names : List String) (fuel : Nat) (remaining : List ServiceDef)
    (placed : List String) (ordered : List ServiceDef) :
    ((place names fuel remaining placed ordered).1 ++
      (place names fuel remaining placed ordered).2).Perm (ordered ++ remaining) := by
  induction fuel generalizing remaining placed ordered with
  | zero => exact .refl _
  | succ fuel ih =>
    unfold place
    split
    · rename_i d found
      obtain ⟨ready,before,rest,split,early⟩ := List.find?_eq_some_iff_append.mp found
      have removed : remaining.eraseP (readyToPlace names placed) = before ++ rest := by
        rw [split,List.eraseP_append_right _ (by simpa using early),List.eraseP_cons_of_pos ready]
      refine (ih _ _ _).trans ?_
      rw [removed,split,List.append_assoc]
      have middle : (d :: (before ++ rest)).Perm (before ++ d :: rest) := List.perm_middle.symm
      exact middle.append_left ordered
    · exact .refl _

/-- Every service has exactly one place in the starting order. -/
theorem startingOrder_perm (defs : List ServiceDef) : (startingOrder defs).Perm defs :=
  place_perm _ _ _ _ _

theorem startingOrder_names (defs : List ServiceDef) :
    ((startingOrder (effectiveAfter defs)).map ServiceDef.name).Perm (defs.map ServiceDef.name) := by
  have permuted := (startingOrder_perm (effectiveAfter defs)).map ServiceDef.name
  rwa [effectiveAfter_names] at permuted

theorem startingOrder_distinct {defs : List ServiceDef} (distinct : (defs.map ServiceDef.name).Nodup) :
    ((startingOrder (effectiveAfter defs)).map ServiceDef.name).Nodup :=
  (startingOrder_names defs).nodup_iff.mpr distinct

end Names

section Folded

theorem length_pushMissing (after : List String) (dep : String) :
    after.length ≤ (pushMissing after dep).length := by
  unfold pushMissing
  split
  · exact Nat.le_refl _
  · simp

theorem length_foldl_pushMissing (added after : List String) :
    after.length ≤ (added.foldl pushMissing after).length := by
  induction added generalizing after with
  | nil => exact Nat.le_refl _
  | cons dep rest ih => exact Nat.le_trans (length_pushMissing after dep) (ih _)

/-- Folding dependencies in changes nothing just when all of them are there. -/
theorem foldl_pushMissing_eq_iff {added after : List String} :
    added.foldl pushMissing after = after ↔ ∀ dep ∈ added, dep ∈ after := by
  induction added with
  | nil => simp
  | cons dep rest ih =>
    rw [List.foldl_cons,List.forall_mem_cons]
    by_cases there : dep ∈ after
    · have same : pushMissing after dep = after := if_pos (List.contains_iff_mem.mpr there)
      rw [same,ih]
      simp [there]
    · have longer : pushMissing after dep = after ++ [dep] := by
        refine if_neg ?_
        rw [List.contains_iff_mem]
        exact there
      constructor
      · intro equal
        have grown := length_foldl_pushMissing rest (pushMissing after dep)
        rw [equal,longer,List.length_append,List.length_singleton] at grown
        omega
      · exact fun all => absurd all.1 there

def foldedInto (defs : List ServiceDef) (d : ServiceDef) : List String :=
  d.requires ++ d.wants ++
    ((beforePairs defs).filter fun pair => pair.1 == d.name).map Prod.snd

def folded (defs : List ServiceDef) (d : ServiceDef) : ServiceDef :=
  { d with after := (foldedInto defs d).foldl pushMissing d.after }

theorem injectAfter_map {target source : String} {defs : List ServiceDef} {f : ServiceDef → List String}
    (distinct : (defs.map ServiceDef.name).Nodup) :
    injectAfter target source (defs.map fun d => { d with after := f d }) =
      defs.map fun d =>
        { d with after := if d.name == target then pushMissing (f d) source else f d } := by
  induction defs with
  | nil => rfl
  | cons d rest ih =>
    obtain ⟨absent,distinct⟩ := List.nodup_cons.mp distinct
    rw [List.map_cons,List.map_cons,injectAfter]
    by_cases here : d.name == target
    · rw [if_pos here,if_pos here]
      congr 1
      refine List.map_congr_left fun d' member => ?_
      have other : ¬ (d'.name == target) = true := by
        rw [beq_iff_eq]
        intro same
        exact absent ((same.trans (beq_iff_eq.mp here).symm) ▸ List.mem_map_of_mem member)
      rw [if_neg other]
    · rw [if_neg here,if_neg here,ih distinct]

/-- `effective_after` changes every `after` list on its own. -/
theorem effectiveAfter_eq {defs : List ServiceDef} (distinct : (defs.map ServiceDef.name).Nodup) :
    effectiveAfter defs = defs.map (folded defs) := by
  have inject : ∀ (pairs : List (String × String)) (f : ServiceDef → List String),
      pairs.foldl (fun result pair => injectAfter pair.1 pair.2 result)
        (defs.map fun d => { d with after := f d }) =
      defs.map fun d => { d with
        after := ((pairs.filter fun pair => pair.1 == d.name).map Prod.snd).foldl pushMissing (f d) } := by
    intro pairs
    induction pairs with
    | nil => exact fun _ => rfl
    | cons pair pairs ih =>
      intro f
      rw [List.foldl_cons,injectAfter_map distinct,ih]
      refine List.map_congr_left fun d _ => ?_
      by_cases here : d.name = pair.1
      · simp [here]
      · have other : ¬ pair.1 = d.name := fun same => here same.symm
        simp [here,other]
  have start := inject (beforePairs defs) fun d => (d.requires ++ d.wants).foldl pushMissing d.after
  refine start.trans (List.map_congr_left fun d _ => ?_)
  rw [folded,foldedInto,List.foldl_append (l := d.requires ++ d.wants)]

theorem mem_foldl_pushMissing {added after : List String} {dep : String} :
    dep ∈ added.foldl pushMissing after ↔ dep ∈ after ∨ dep ∈ added := by
  induction added generalizing after with
  | nil => simp
  | cons first rest ih =>
    have pushed : dep ∈ pushMissing after first ↔ dep ∈ after ∨ dep = first := by
      unfold pushMissing
      split
      · rename_i there
        have listed := List.contains_iff_mem.mp there
        exact ⟨.inl,fun either => either.elim id fun same => same ▸ listed⟩
      · rw [List.mem_append,List.mem_singleton]
    rw [List.foldl_cons,ih,pushed,List.mem_cons,or_assoc]

theorem mem_foldedInto {defs : List ServiceDef} {d : ServiceDef} {dep : String} :
    dep ∈ foldedInto defs d ↔ dep ∈ d.requires ++ d.wants ∨
      ∃ other ∈ defs, d.name ∈ other.before ∧ other.name = dep := by
  simp only [foldedInto,List.mem_append (s := d.requires ++ d.wants),beforePairs,List.mem_map,List.mem_filter,
    List.mem_flatMap,beq_iff_eq]
  constructor
  · rintro (direct | ⟨_,⟨⟨other,member,target,before,rfl⟩,same⟩,rfl⟩)
    · exact .inl direct
    · exact .inr ⟨other,member,same ▸ before,rfl⟩
  · rintro (direct | ⟨other,member,before,rfl⟩)
    · exact .inl direct
    · exact .inr ⟨_,⟨⟨other,member,d.name,before,rfl⟩,rfl⟩,rfl⟩

def Settled (defs : List ServiceDef) (d : ServiceDef) : Prop :=
  (∀ dep ∈ d.requires ++ d.wants, dep ∈ d.after) ∧
    ∀ other ∈ defs, d.name ∈ other.before → other.name ∈ d.after

theorem folded_eq_iff {defs : List ServiceDef} {d : ServiceDef} : folded defs d = d ↔ Settled defs d := by
  have after_only : folded defs d = d ↔ (foldedInto defs d).foldl pushMissing d.after = d.after := by
    constructor
    · exact fun same => congrArg ServiceDef.after same
    · intro same
      rw [folded,same]
  rw [after_only,foldl_pushMissing_eq_iff]
  simp only [mem_foldedInto]
  constructor
  · intro all
    refine ⟨fun dep member => all dep (.inl member),fun other member before => ?_⟩
    exact all other.name (.inr ⟨other,member,before,rfl⟩)
  · rintro ⟨direct,early⟩ dep (member | ⟨other,member,before,rfl⟩)
    · exact direct dep member
    · exact early other member before

end Folded

def topologicalOrder (defs : List ServiceDef) : Code (List ServiceDef) := do
  Interaction.Program.provided (!(placeAll defs).2.isEmpty)
    (log (.cycle ((placeAll defs).2.map ServiceDef.name)))
  pure (startingOrder defs)

end MitosServices
