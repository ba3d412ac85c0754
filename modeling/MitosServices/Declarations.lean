import MitosServices.Bootable

/-! Services declared inline and in unit files, merged into one list: names are compared when units
are added, and the built-in service is chosen before there are any. -/
namespace MitosServices.Config

def firstOfEach : List ServiceDef → List ServiceDef
  | [] => []
  | d :: ds => d :: (firstOfEach ds).filter fun s => s.name ≠ d.name

/-- What a merged list is to be: every name that is declared, once and as it is declared first, and
the built-in service if there is none. -/
structure MergesFirst (declarations merged : List ServiceDef) : Prop where
  distinct : (merged.map ServiceDef.name).Nodup
  ordered : declarations ≠ [] → merged.Sublist declarations
  members : declarations ≠ [] → ∀ d, d ∈ merged ↔ FirstNamed [] declarations d
  firsts : merged = if declarations = [] then default.services else firstOfEach declarations

section FirstOfEach
variable {d : ServiceDef} {ds base extra : List ServiceDef}

theorem firstOfEach_sublist (ds : List ServiceDef) : (firstOfEach ds).Sublist ds := by
  induction ds with
  | nil => exact List.Sublist.refl []
  | cons d ds ih => exact (List.filter_sublist.trans ih).cons_cons d

theorem firstOfEach_distinct (ds : List ServiceDef) : ((firstOfEach ds).map ServiceDef.name).Nodup := by
  induction ds with
  | nil => exact List.nodup_nil
  | cons d ds ih =>
    rw [firstOfEach,List.map_cons,List.nodup_cons]
    constructor
    · simp
    · exact ih.sublist (List.filter_sublist.map _)

theorem firstOfEach_eq_iff : firstOfEach ds = ds ↔ (ds.map ServiceDef.name).Nodup := by
  constructor
  · intro same
    rw [← same]
    exact firstOfEach_distinct ds
  · intro distinct
    induction ds with
    | nil => rfl
    | cons d ds ih =>
      rw [List.map_cons,List.nodup_cons] at distinct
      rw [firstOfEach,ih distinct.2,List.filter_eq_self.mpr]
      intro s member
      have other : s.name ≠ d.name := fun same => distinct.1 (same ▸ List.mem_map_of_mem member)
      simpa using other

def untaken (taken : List String) (ds : List ServiceDef) : List ServiceDef :=
  ds.filter fun s => s.name ∉ taken

theorem untaken_cons {taken : List String} : untaken taken (firstOfEach (d :: ds)) =
    if d.name ∈ taken then untaken taken (firstOfEach ds)
    else d :: untaken (taken ++ [d.name]) (firstOfEach ds) := by
  rw [firstOfEach,untaken,List.filter_cons,List.filter_filter]
  split
  · rename_i free
    rw [if_neg (of_decide_eq_true free)]
    congr 1
    apply List.filter_congr
    intro s _
    simp [not_or]
  · rename_i shadowed
    have shadowed : d.name ∈ taken := by simpa using shadowed
    rw [if_pos shadowed]
    apply List.filter_congr
    intro s _
    simp only [decide_not,Bool.and_eq_left_iff_imp,Bool.not_eq_true',decide_eq_false_iff_not]
    exact fun free same => free (same ▸ shadowed)

theorem firstOfEach_append (base extra : List ServiceDef) : firstOfEach (base ++ extra) =
    firstOfEach base ++ untaken (base.map ServiceDef.name) (firstOfEach extra) := by
  induction base with
  | nil => exact (List.filter_eq_self.mpr (by simp)).symm
  | cons d base ih =>
    rw [List.cons_append,firstOfEach,ih,List.filter_append,firstOfEach,List.cons_append]
    congr 2
    rw [untaken,untaken,List.filter_filter]
    apply List.filter_congr
    intro s _
    simp [not_or]

theorem mergeServices_eq (base extra : List ServiceDef) : mergeServices base extra =
    base ++ untaken (base.map ServiceDef.name) (firstOfEach extra) := by
  induction extra generalizing base with
  | nil => simp [mergeServices,firstOfEach,untaken]
  | cons d extra ih =>
    have shadowed_iff : (base.any fun s => s.name == d.name) = true ↔ d.name ∈ base.map ServiceDef.name := by
      simp
    rw [mergeServices,untaken_cons]
    split
    · rename_i shadowed
      rw [ih,if_pos (shadowed_iff.mp shadowed)]
    · rename_i free
      rw [ih,if_neg fun shadowed => free (shadowed_iff.mpr shadowed),List.append_assoc,List.map_append]
      rfl

/-- What is kept of a name is what nothing before it has the name of. -/
theorem mem_firstOfEach_iff : d ∈ firstOfEach ds ↔ FirstNamed [] ds d := by
  have whole : mergeServices [] ds = firstOfEach ds := by
    rw [mergeServices_eq,List.nil_append,untaken,List.filter_eq_self]
    simp
  rw [← whole,mem_mergeServices_iff]
  simp

end FirstOfEach

section Merged

def declarations (text : List Char) (units : List ServiceDef) : List ServiceDef :=
  declared (some text) ++ units

def merged (text : List Char) (units : List ServiceDef) : List ServiceDef :=
  mergeServices (parse text).services units

theorem parse_services (text : List Char) : (parse text).services =
    if declared (some text) = [] then default.services else declared (some text) := by
  have read := loadOrDefault_services (some text)
  simp only [List.isEmpty_iff] at read
  exact read

/-- To be merged right is to be the list that is asked for: that one has no name twice. -/
theorem mergesFirst_of_eq {declarations merged : List ServiceDef}
    (firsts : merged = if declarations = [] then default.services else firstOfEach declarations) :
    MergesFirst declarations merged where
  distinct := by
    rw [firsts]
    split
    · decide
    · exact firstOfEach_distinct _
  ordered some_declared := by
    rw [firsts,if_neg some_declared]
    exact firstOfEach_sublist _
  members some_declared d := by
    rw [firsts,if_neg some_declared]
    exact mem_firstOfEach_iff
  firsts := firsts

/-- The built-in service takes the place of the first unit only by being the same. -/
theorem builtin_first_iff {d : ServiceDef} {units : List ServiceDef} :
    mergeServices default.services (d :: units) = firstOfEach (d :: units) ↔ default.services = [d] := by
  rw [mergeServices_eq]
  constructor
  · intro same
    have first := congrArg (List.take 1) same
    simpa [default,firstOfEach] using first
  · intro only
    rw [only,firstOfEach,List.singleton_append,untaken,List.filter_cons_of_neg (by simp),List.filter_filter]
    congr 1
    apply List.filter_congr
    simp

/-- A list is merged as it should be exactly if no two lines declare one name and the built-in
service is not chosen over a unit. -/
theorem mergesFirst_iff (text : List Char) (units : List ServiceDef) :
    MergesFirst (declarations text units) (merged text units) ↔
      ((declared (some text)).map ServiceDef.name).Nodup ∧
        (declared (some text) = [] → units = [] ∨ units.head? = default.services.head?) := by
  rw [declarations,merged,parse_services]
  by_cases inline : declared (some text) = []
  · simp only [inline,if_true,List.nil_append,List.map_nil,List.nodup_nil,true_and,forall_const]
    cases units with
    | nil => exact iff_of_true (mergesFirst_of_eq rfl) (.inl rfl)
    | cons d units =>
      have chosen : (d :: units).head? = default.services.head? ↔ default.services = [d] := by
        simp [default,eq_comm]
      rw [chosen]
      constructor
      · intro merges
        exact .inr (builtin_first_iff.mp merges.firsts)
      · rintro (none | same)
        · contradiction
        · exact mergesFirst_of_eq (builtin_first_iff.mpr same)
  · have some_declared : declared (some text) ++ units ≠ [] := List.append_ne_nil_of_left_ne_nil inline units
    rw [if_neg inline,mergeServices_eq]
    simp only [inline,false_implies,and_true]
    rw [← firstOfEach_eq_iff]
    constructor
    · intro merges
      have firsts := merges.firsts
      rw [if_neg some_declared,firstOfEach_append] at firsts
      exact (List.append_cancel_right firsts).symm
    · intro distinct
      apply mergesFirst_of_eq
      rw [if_neg some_declared,firstOfEach_append,distinct]

def mail : ServiceDef := { name := "mail", path := "/bin/mail", target := "multi-user" }

/-- Two lines for one name declare two services, and the built-in one joins a unit. -/
theorem merges_otherwise :
    ¬ MergesFirst (declarations "service db path=/a\nservice db path=/b\n".toList [])
      (merged "service db path=/a\nservice db path=/b\n".toList []) ∧
    ¬ MergesFirst (declarations [] [mail]) (merged [] [mail]) := by
  constructor
  · intro merges
    exact absurd merges.distinct (by decide +kernel)
  · intro merges
    exact absurd merges.firsts (by decide +kernel)

end Merged
end MitosServices.Config
