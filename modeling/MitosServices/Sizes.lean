import MitosServices.InitConf

/-! Sizes of memory: a number of bytes, or of the power of 1024 that a suffix stands for. -/
namespace MitosServices.Cgroups
open Text

def suffixes : List (String × Nat) :=
  [("",1),("K",1024),("Ki",1024),("M",1024^2),("Mi",1024^2),("G",1024^3),("Gi",1024^3)]

def Sized (s : List Char) (n mult : Nat) : Prop :=
  ∃ number between suffix, Numeral number n ∧ Blank between ∧ (suffix,mult) ∈ suffixes ∧
    trim s = number ++ between ++ suffix.toList

/-- `parse_size` where products are checked: no result stands for the panic. -/
def parseSizeChecked (s : List Char) : Option (Option Nat) :=
  let (number,mult) := sizeSuffix (trim s)
  match parseUnsigned 64 (trim number) with
  | some n => if n * mult < 2^64 then some (some (n * mult)) else none
  | none => some none

/-- A size is read exactly, whether products are checked or not. -/
structure ReadsExactly (s : List Char) : Prop where
  unchecked : ∀ v, parseSize s = some v ↔ ∃ n mult, Sized s n mult ∧ n * mult < 2^64 ∧ v = n * mult
  checked : parseSizeChecked s = some (parseSize s)

section Suffixes
variable {s front number between : List Char} {suffix : String} {n mult v : Nat}

theorem sizeSuffix_split (s : List Char) :
    ∃ suffix, (suffix,(sizeSuffix s).2) ∈ suffixes ∧ s = (sizeSuffix s).1 ++ suffix.toList := by
  have cut : ∀ {long short : String} {number : List Char},
      (stripSuffix long.toList s).or (stripSuffix short.toList s) = some number →
        s = number ++ long.toList ∨ s = number ++ short.toList := by
    intro long short number stripped
    rcases Option.or_eq_some_iff.mp stripped with there | ⟨-,there⟩
    · exact .inl (stripSuffix_some there)
    · exact .inr (stripSuffix_some there)
  unfold sizeSuffix
  dsimp only
  split
  · rename_i stripped
    obtain split | split := cut stripped
    · exact ⟨"Ki",by simp [suffixes],split⟩
    · exact ⟨"K",by simp [suffixes],split⟩
  · split
    · rename_i stripped
      obtain split | split := cut stripped
      · exact ⟨"Mi",by simp [suffixes],split⟩
      · exact ⟨"M",by simp [suffixes],split⟩
    · split
      · rename_i stripped
        obtain split | split := cut stripped
        · exact ⟨"Gi",by simp [suffixes],split⟩
        · exact ⟨"G",by simp [suffixes],split⟩
      · exact ⟨"",by simp [suffixes],by simp⟩

/-- What ends in a digit or in white space ends in no part of a suffix. -/
theorem sizeSuffix_append (listed : (suffix,mult) ∈ suffixes)
    (plain : ∀ c ∈ front.getLast?, c ∉ ['K','M','G','i']) :
    sizeSuffix (front ++ suffix.toList) = (front,mult) := by
  have uncut : ∀ (start : List Char) (c : Char), c ∈ ['K','M','G','i'] →
      stripSuffix (start ++ [c]) front = none :=
    fun start c member => stripSuffix_eq_none fun last => plain c last member
  simp only [suffixes,List.mem_cons,List.not_mem_nil,or_false,Prod.mk.injEq] at listed
  rcases listed with ⟨rfl,rfl⟩ | others
  · have ki := uncut ['K'] 'i' (by decide)
    have k := uncut [] 'K' (by decide)
    have mi := uncut ['M'] 'i' (by decide)
    have m := uncut [] 'M' (by decide)
    have gi := uncut ['G'] 'i' (by decide)
    have g := uncut [] 'G' (by decide)
    simp only [List.cons_append,List.nil_append] at ki k mi m gi g
    simp [sizeSuffix,ki,k,mi,m,gi,g]
  · rcases others with ⟨rfl,rfl⟩ | ⟨rfl,rfl⟩ | ⟨rfl,rfl⟩ | ⟨rfl,rfl⟩ | ⟨rfl,rfl⟩ | ⟨rfl,rfl⟩ <;>
      simp [sizeSuffix,stripSuffix,stripPrefix]

theorem plain_append (numeral : Numeral front n) (blank : Blank between) :
    ∀ c ∈ (front ++ between).getLast?, c ∉ ['K','M','G','i'] := by
  intro c member suffixed
  have solid : isWhitespace c = false ∧ c.isDigit = false := by
    simp only [List.mem_cons,List.not_mem_nil,or_false] at suffixed
    rcases suffixed with rfl | rfl | rfl | rfl <;> decide
  rcases List.eq_nil_or_concat' between with rfl | ⟨before,last,rfl⟩
  · rw [List.append_nil] at member
    exact absurd (numeral.last c member) (by simp [solid.2])
  · rw [← List.append_assoc,List.getLast?_concat] at member
    obtain rfl : last = c := Option.some.inj member
    exact absurd (blank last (by simp)) (by simp [solid.1])

/-- What the source cuts off and trims is what the grammar says. -/
theorem sized_iff : Sized s n mult ↔
    ∃ number, sizeSuffix (trim s) = (number,mult) ∧ Numeral (trim number) n := by
  constructor
  · rintro ⟨number,between,suffix,numeral,blank,listed,whole⟩
    refine ⟨number ++ between,?_,?_⟩
    · rw [whole]
      exact sizeSuffix_append listed (plain_append numeral blank)
    · have padded : trim ([] ++ number ++ between) = number :=
        trim_padded (fun _ member => nomatch member) numeral.solid.word blank
      rw [List.nil_append] at padded
      exact padded.symm ▸ numeral
  · rintro ⟨number,cut,numeral⟩
    obtain ⟨suffix,listed,whole⟩ := sizeSuffix_split (trim s)
    rw [cut] at listed whole
    obtain ⟨before,after,blank,blankEnd,split⟩ := trim_split number
    -- a trimmed text does not start with white space
    have none_before : before = [] := by
      cases before with
      | nil => rfl
      | cons c before =>
        have first : c ∈ (trim s).head? := by
          rw [whole,split]
          rfl
        exact absurd (blank c List.mem_cons_self) (by simp [first_trim s c first])
    refine ⟨trim number,after,suffix,numeral,blankEnd,listed,?_⟩
    rw [none_before,List.nil_append] at split
    rw [whole,← split]

/-- The exact answer of the source, in its words. -/
theorem parseSize_eq_some_iff : parseSize s = some v ↔
    ∃ n mult, Sized s n mult ∧ n < 2^64 ∧ v = n * mult % 2^64 := by
  rw [parseSize,Option.map_eq_some_iff]
  constructor
  · rintro ⟨n,read,rfl⟩
    obtain ⟨numeral,fits⟩ := parseUnsigned_eq_some_iff.mp read
    exact ⟨n,_,sized_iff.mpr ⟨_,rfl,numeral⟩,fits,rfl⟩
  · rintro ⟨n,mult,sized,fits,rfl⟩
    obtain ⟨number,cut,numeral⟩ := sized_iff.mp sized
    rw [cut]
    exact ⟨n,parseUnsigned_eq_some_iff.mpr ⟨numeral,fits⟩,rfl⟩

theorem parseSizeChecked_eq_none_iff : parseSizeChecked s = none ↔
    ∃ n mult, Sized s n mult ∧ n < 2^64 ∧ 2^64 ≤ n * mult := by
  constructor
  · intro panics
    rcases cut : sizeSuffix (trim s) with ⟨number,mult⟩
    rw [parseSizeChecked,cut] at panics
    dsimp only at panics
    split at panics
    · rename_i n read
      obtain ⟨numeral,fits⟩ := parseUnsigned_eq_some_iff.mp read
      refine ⟨n,mult,sized_iff.mpr ⟨number,cut,numeral⟩,fits,?_⟩
      by_contra small
      rw [if_pos (Nat.lt_of_not_le small)] at panics
      contradiction
    · contradiction
  · rintro ⟨n,mult,sized,fits,large⟩
    obtain ⟨number,cut,numeral⟩ := sized_iff.mp sized
    simp only [parseSizeChecked,cut,parseUnsigned_eq_some_iff.mpr ⟨numeral,fits⟩]
    exact if_neg (Nat.not_lt_of_le large)

theorem mult_pos (listed : (suffix,mult) ∈ suffixes) : 0 < mult := by
  simp only [suffixes,List.mem_cons,List.not_mem_nil,or_false,Prod.mk.injEq] at listed
  omega

/-- A size is read exactly unless its number fits in 64 bits and the product does not. -/
theorem readsExactly_iff (s : List Char) :
    ReadsExactly s ↔ ∀ n mult, Sized s n mult → n < 2^64 → n * mult < 2^64 := by
  constructor
  · intro exact n mult sized fits
    by_contra wraps
    have panics : parseSizeChecked s = none :=
      parseSizeChecked_eq_none_iff.mpr ⟨n,mult,sized,fits,Nat.le_of_not_lt wraps⟩
    rw [exact.checked] at panics
    contradiction
  · intro fit
    constructor
    · intro v
      rw [parseSize_eq_some_iff]
      constructor
      · rintro ⟨n,mult,sized,fits,rfl⟩
        have small := fit n mult sized fits
        exact ⟨n,mult,sized,small,Nat.mod_eq_of_lt small⟩
      · rintro ⟨n,mult,sized,small,rfl⟩
        refine ⟨n,mult,sized,?_,(Nat.mod_eq_of_lt small).symm⟩
        obtain ⟨_,_,_,_,_,listed,_⟩ := sized
        exact Nat.lt_of_le_of_lt (Nat.le_mul_of_pos_right n (mult_pos listed)) small
    · rcases cut : sizeSuffix (trim s) with ⟨number,mult⟩
      rw [parseSizeChecked,parseSize,cut]
      dsimp only
      cases read : parseUnsigned 64 (trim number) with
      | none => rfl
      | some n =>
        obtain ⟨numeral,fits⟩ := parseUnsigned_eq_some_iff.mp read
        have small := fit n mult (sized_iff.mpr ⟨number,cut,numeral⟩) fits
        simp only [Option.map_some,Nat.mod_eq_of_lt small]
        exact if_pos small

/-- 2^34 times 2^30 bytes come out as none at all. -/
theorem limit_wraps : parseSize "17179869184G".toList = some 0 ∧
    parseSizeChecked "17179869184G".toList = none ∧ ¬ ReadsExactly "17179869184G".toList := by
  have panics : parseSizeChecked "17179869184G".toList = none := by decide
  refine ⟨by decide,panics,?_⟩
  intro exact
  rw [exact.checked] at panics
  contradiction

end Suffixes
end MitosServices.Cgroups
