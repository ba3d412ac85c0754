import MitosServices.Units
import MitosServices.Sizes

/-! The two ways to write a service down: a line of `init.conf`, and a unit file. What either spells
out, key by key and in any order, is read as the definition it was written from. -/
namespace MitosServices.Formats
open Config

inductive Key
  | path | args | critical | restart | memoryLimit | after | afterReady | before | requires | wants
  | user | group | watchdogTimeout | environment | workingDir | target | privateTmp | protectSystem
  | noNewPrivileges | oomScoreAdjust
deriving DecidableEq, Repr

def Key.all : List Key :=
  [.path,.args,.critical,.restart,.memoryLimit,.after,.afterReady,.before,.requires,.wants,.user,.group,
    .watchdogTimeout,.environment,.workingDir,.target,.privateTmp,.protectSystem,.noNewPrivileges,
    .oomScoreAdjust]

section Spelling

def truth (b : Bool) : List Char := if b then "true".toList else "false".toList

def joined (c : Char) (names : List String) : List Char := [c].intercalate (names.map String.toList)

def pair (p : String × String) : List Char := p.1.toList ++ '=' :: p.2.toList

def pairs (c : Char) (environment : List (String × String)) : List Char := [c].intercalate (environment.map pair)

def seconds (t : Nat) : List Char := Nat.toDigits 10 (t / 1000000000)

/-- What reading the keys comes to does not depend on their order. -/
theorem foldl_perm {put : Key → Fields → Fields} (comm : ∀ k l f, put k (put l f) = put l (put k f))
    {keys : List Key} (all : keys.Perm Key.all) (f : Fields) :
    keys.foldl (fun f k => put k f) f = Key.all.foldl (fun f k => put k f) f :=
  all.foldl_eq' (fun k _ l _ f => comm l k f) f

end Spelling

namespace Inline

def word : Key → String
  | .path => "path"
  | .args => "args"
  | .critical => "critical"
  | .restart => "restart"
  | .memoryLimit => "mem_max"
  | .after => "after"
  | .afterReady => "after_ready"
  | .before => "before"
  | .requires => "requires"
  | .wants => "wants"
  | .user => "user"
  | .group => "group"
  | .watchdogTimeout => "watchdog_sec"
  | .environment => "environment"
  | .workingDir => "workdir"
  | .target => "target"
  | .privateTmp => "private_tmp"
  | .protectSystem => "protect_system"
  | .noNewPrivileges => "no_new_privileges"
  | .oomScoreAdjust => "oom_score_adjust"

def policy : RestartPolicy → String
  | .always => "always"
  | .onFailure => "on-failure"
  | .never => "never"

def value (d : ServiceDef) : Key → Option (List Char)
  | .path => some d.path.toList
  | .args => some (joined ',' d.args)
  | .critical => some (truth d.critical)
  | .restart => some (policy d.restart).toList
  | .memoryLimit => d.memoryLimit.map (Nat.toDigits 10)
  | .after => some (joined ',' d.after)
  | .afterReady => some (joined ',' d.afterReady)
  | .before => some (joined ',' d.before)
  | .requires => some (joined ',' d.requires)
  | .wants => some (joined ',' d.wants)
  | .user => d.user.map String.toList
  | .group => d.group.map String.toList
  | .watchdogTimeout => d.watchdogTimeout.map seconds
  | .environment => some (pairs ',' d.environment)
  | .workingDir => d.workingDir.map String.toList
  | .target => some d.target.toList
  | .privateTmp => some (truth d.privateTmp)
  | .protectSystem => some (truth d.protectSystem)
  | .noNewPrivileges => some (truth d.noNewPrivileges)
  | .oomScoreAdjust => d.oomScoreAdjust.map Text.printSigned

def field (d : ServiceDef) (k : Key) : Option (List Char) :=
  (value d k).map fun v => (word k).toList ++ '=' :: v

def line (d : ServiceDef) (keys : List Key) : List Char :=
  [' '].intercalate (d.name.toList :: keys.filterMap (field d))

end Inline

namespace Unit

/-- The arguments have no key of their own. -/
def word : Key → String
  | .path | .args => "ExecStart"
  | .critical => "X-Critical"
  | .restart => "Restart"
  | .memoryLimit => "MemoryMax"
  | .after => "After"
  | .afterReady => "X-AfterReady"
  | .before => "Before"
  | .requires => "Requires"
  | .wants => "Wants"
  | .user => "User"
  | .group => "Group"
  | .watchdogTimeout => "WatchdogSec"
  | .environment => "Environment"
  | .workingDir => "WorkingDirectory"
  | .target => "X-Target"
  | .privateTmp => "PrivateTmp"
  | .protectSystem => "ProtectSystem"
  | .noNewPrivileges => "NoNewPrivileges"
  | .oomScoreAdjust => "OOMScoreAdjust"

def policy : RestartPolicy → String
  | .always => "always"
  | .onFailure => "on-failure"
  | .never => "no"

def value (d : ServiceDef) : Key → Option (List Char)
  | .path => some (joined ' ' (d.path :: d.args))
  | .args => none
  | .restart => some (policy d.restart).toList
  | .environment => some (pairs ' ' d.environment)
  | k => Inline.value d k

def entry (d : ServiceDef) (k : Key) : Option (List Char) :=
  (value d k).map fun v => (word k).toList ++ '=' :: v

def text (d : ServiceDef) (keys : List Key) : List Char :=
  ("[Service]".toList :: keys.filterMap (entry d)).flatMap fun line => line ++ ['\n']

def file (dir : List Char) (d : ServiceDef) : List Char := dir ++ '/' :: (d.name.toList ++ ".service".toList)

end Unit

section Plain

def Bare (s : String) : Prop := ∀ c ∈ s.toList, Text.isWhitespace c = false ∧ c ≠ ',' ∧ c ≠ '"'

def Named (s : String) : Prop := Bare s ∧ s ≠ ""

/-- What both formats can say. The bounds are those of the fields' types, apart from the watchdog's:
there the keys want whole seconds. -/
structure Plain (d : ServiceDef) : Prop where
  name : Named d.name ∧ '/' ∉ d.name.toList
  path : Named d.path
  lists : ∀ names ∈ [d.args,d.after,d.afterReady,d.before,d.requires,d.wants], ∀ s ∈ names, Named s
  options : ∀ option ∈ [d.user,d.group,d.workingDir], ∀ s ∈ option, Bare s
  target : Bare d.target
  environment : ∀ p ∈ d.environment, Bare p.1 ∧ '=' ∉ p.1.toList ∧ Bare p.2
  memoryLimit : ∀ n ∈ d.memoryLimit, n < 2^64
  watchdogTimeout : ∀ t ∈ d.watchdogTimeout, ∃ n < 2^64, t = fromSecs n
  oomScoreAdjust : ∀ i ∈ d.oomScoreAdjust, -2^31 ≤ i ∧ i < 2^31

end Plain

section Values
variable {names : List String} {environment : List (String × String)} {n : Nat}

theorem solid_named {s : String} (named : Named s) : Text.Solid s.toList where
  nonempty empty := named.2 (String.toList_inj.mp empty)
  solid c member := (named.1 c member).1

theorem map_toList (names : List String) : (names.map String.toList).map String.ofList = names := by
  rw [List.map_map]
  exact List.map_id'' (fun s => String.ofList_toList) names

theorem parseNameList_joined (named : ∀ s ∈ names, Named s) : parseNameList (joined ',' names) = names := by
  rw [parseNameList,joined,Text.split_intercalate,map_toList]
  intro piece member
  obtain ⟨s,here,rfl⟩ := List.mem_map.mp member
  exact ⟨(solid_named (named s here)).nonempty,fun comma => ((named s here).1 ',' comma).2.1 rfl⟩

theorem parsePair_pair {p : String × String} (absent : '=' ∉ p.1.toList) : parsePair (pair p) = some p := by
  rw [parsePair,pair,Text.splitOnce_append absent,Option.map_some,String.ofList_toList,String.ofList_toList]

theorem filterMap_parsePair (absent : ∀ p ∈ environment, '=' ∉ p.1.toList) :
    (environment.map pair).filterMap parsePair = environment := by
  rw [List.filterMap_map]
  calc environment.filterMap (parsePair ∘ pair) = environment.filterMap some :=
      List.filterMap_congr fun p member => parsePair_pair (absent p member)
    _ = environment := List.filterMap_some

theorem parseEnvList_pairs (bare : ∀ p ∈ environment, Bare p.1 ∧ '=' ∉ p.1.toList ∧ Bare p.2) :
    parseEnvList (pairs ',' environment) = environment := by
  rw [parseEnvList,pairs,Text.split_intercalate,filterMap_parsePair fun p member => (bare p member).2.1]
  intro piece member
  obtain ⟨p,here,rfl⟩ := List.mem_map.mp member
  refine ⟨by simp [pair],?_⟩
  intro comma
  rcases List.mem_append.mp comma with key | rest
  · exact ((bare p here).1 ',' key).2.1 rfl
  · rcases List.mem_cons.mp rest with equals | text
    · exact absurd equals (by decide)
    · exact ((bare p here).2.2 ',' text).2.1 rfl

theorem solid_pair {p : String × String} (bare : Bare p.1 ∧ '=' ∉ p.1.toList ∧ Bare p.2) :
    Text.Solid (pair p) where
  nonempty := by simp [pair]
  solid c member := by
    rcases List.mem_append.mp member with key | rest
    · exact (bare.1 c key).1
    · rcases List.mem_cons.mp rest with rfl | text
      · rfl
      · exact (bare.2.2 c text).1

theorem parseEnvPairs_pairs (bare : ∀ p ∈ environment, Bare p.1 ∧ '=' ∉ p.1.toList ∧ Bare p.2) :
    Units.parseEnvPairs (pairs ' ' environment) = environment := by
  rw [Units.parseEnvPairs,pairs,Text.splitWhitespace_intercalate,
    filterMap_parsePair fun p member => (bare p member).2.1]
  intro piece member
  obtain ⟨p,here,rfl⟩ := List.mem_map.mp member
  exact solid_pair (bare p here)

theorem isTrue_truth (b : Bool) : isTrue (truth b) = b := by cases b <;> decide

theorem protects_truth (b : Bool) : Units.protects (truth b) = b := by cases b <;> decide

theorem solid_digits (n : Nat) : Text.Solid (Nat.toDigits 10 n) where
  nonempty := Nat.toDigits_ne_nil
  solid _ member := Text.not_isWhitespace_of_isDigit (Text.isDigit_of_mem_toDigits member)

theorem numeral_digits (n : Nat) : Text.Numeral (Nat.toDigits 10 n) n :=
  ⟨[],Nat.toDigits 10 n,.inl rfl,Text.digits_toDigits n,rfl⟩

theorem parseSize_digits (fits : n < 2^64) : Cgroups.parseSize (Nat.toDigits 10 n) = some n := by
  have whole : Text.trim (Nat.toDigits 10 n) = Nat.toDigits 10 n := Text.trim_word (solid_digits n).word
  have sized : Cgroups.Sized (Nat.toDigits 10 n) n 1 :=
    ⟨Nat.toDigits 10 n,[],"",numeral_digits n,(fun _ member => nomatch member),by simp [Cgroups.suffixes],by simp [whole]⟩
  apply Cgroups.parseSize_eq_some_iff.mpr
  exact ⟨n,1,sized,fits,by rw [Nat.mul_one,Nat.mod_eq_of_lt fits]⟩

theorem parseSecs_seconds (fits : n < 2^64) : parseSecs (seconds (fromSecs n)) = some (fromSecs n) := by
  have whole : fromSecs n / 1000000000 = n := Nat.mul_div_cancel n (by omega)
  rw [parseSecs,seconds,whole,Text.parseUnsigned_toDigits fits,Option.map_some]

end Values

section Characters

def Clean (v : List Char) : Prop := ∀ c ∈ v, Text.isWhitespace c = false ∧ c ≠ '"'

instance : DecidablePred Clean := fun v => List.decidableBAll _ v

theorem clean_bare {s : String} (bare : Bare s) : Clean s.toList :=
  fun c member => ⟨(bare c member).1,(bare c member).2.2⟩

theorem clean_joined {names : List String} (bare : ∀ s ∈ names, Bare s) : Clean (joined ',' names) := by
  intro c member
  rcases Text.mem_intercalate member with rfl | ⟨piece,here,inside⟩
  · decide
  · obtain ⟨s,named,rfl⟩ := List.mem_map.mp here
    exact clean_bare (bare s named) c inside

theorem clean_pairs {environment : List (String × String)}
    (bare : ∀ p ∈ environment, Bare p.1 ∧ '=' ∉ p.1.toList ∧ Bare p.2) : Clean (pairs ',' environment) := by
  intro c member
  rcases Text.mem_intercalate member with rfl | ⟨piece,here,inside⟩
  · decide
  · obtain ⟨p,there,rfl⟩ := List.mem_map.mp here
    rcases List.mem_append.mp inside with key | rest
    · exact clean_bare (bare p there).1 c key
    · rcases List.mem_cons.mp rest with rfl | text
      · decide
      · exact clean_bare (bare p there).2.2 c text

theorem clean_truth (b : Bool) : Clean (truth b) := by cases b <;> decide

theorem clean_digits (n : Nat) : Clean (Nat.toDigits 10 n) := by
  intro c member
  refine ⟨(solid_digits n).solid c member,?_⟩
  rintro rfl
  exact absurd (Text.isDigit_of_mem_toDigits member) (by decide)

theorem clean_printSigned (i : Int) : Clean (Text.printSigned i) := by
  unfold Text.printSigned
  split
  · intro c member
    rcases List.mem_cons.mp member with rfl | digit
    · decide
    · exact clean_digits _ c digit
  · exact clean_digits _

end Characters

namespace Inline
variable {d : ServiceDef} {k : Key} {v : List Char}

def put (d : ServiceDef) (k : Key) (f : Fields) : Fields :=
  match k with
  | .path => { f with exec := some d.path }
  | .args => { f with svc.args := d.args }
  | .critical => { f with svc.critical := d.critical }
  | .restart => { f with svc.restart := d.restart }
  | .memoryLimit => { f with svc.memoryLimit := d.memoryLimit.or f.svc.memoryLimit }
  | .after => { f with svc.after := d.after }
  | .afterReady => { f with svc.afterReady := d.afterReady }
  | .before => { f with svc.before := d.before }
  | .requires => { f with svc.requires := d.requires }
  | .wants => { f with svc.wants := d.wants }
  | .user => { f with svc.user := d.user.or f.svc.user }
  | .group => { f with svc.group := d.group.or f.svc.group }
  | .watchdogTimeout => { f with svc.watchdogTimeout := d.watchdogTimeout.or f.svc.watchdogTimeout }
  | .environment => { f with svc.environment := d.environment }
  | .workingDir => { f with svc.workingDir := d.workingDir.or f.svc.workingDir }
  | .target => { f with target := some d.target }
  | .privateTmp => { f with svc.privateTmp := d.privateTmp }
  | .protectSystem => { f with svc.protectSystem := d.protectSystem }
  | .noNewPrivileges => { f with svc.noNewPrivileges := d.noNewPrivileges }
  | .oomScoreAdjust => { f with svc.oomScoreAdjust := d.oomScoreAdjust.or f.svc.oomScoreAdjust }

/-- No key disturbs another. -/
theorem put_comm (d : ServiceDef) (k l : Key) (f : Fields) : put d k (put d l f) = put d l (put d k f) := by
  cases k <;> cases l <;> rfl

theorem put_unsaid (silent : value d k = none) (f : Fields) : put d k f = f := by
  cases k with
  | memoryLimit | user | group | watchdogTimeout | workingDir | oomScoreAdjust =>
    simp only [value,Option.map_eq_none_iff] at silent
    simp [put,silent]
  | _ => contradiction

theorem setField_value (plain : Plain d) (spelt : value d k = some v) (f : Fields) :
    setField f (word k) v = put d k f := by
  have lists : ∀ names ∈ [d.args,d.after,d.afterReady,d.before,d.requires,d.wants],
      parseNameList (joined ',' names) = names :=
    fun names member => parseNameList_joined (plain.lists names member)
  simp only [List.mem_cons,List.not_mem_nil,or_false,forall_eq_or_imp,forall_eq] at lists
  cases k with
  | path | target =>
    obtain rfl := Option.some.inj spelt
    simp [word,setField,put]
  | args | after | afterReady | before | requires | wants =>
    obtain rfl := Option.some.inj spelt
    simp [word,setField,put,lists]
  | critical | privateTmp | protectSystem | noNewPrivileges =>
    obtain rfl := Option.some.inj spelt
    simp [word,setField,put,isTrue_truth]
  | restart =>
    obtain rfl := Option.some.inj spelt
    cases restarts : d.restart <;> simp [word,setField,put,policy,restarts]
  | environment =>
    obtain rfl := Option.some.inj spelt
    simp [word,setField,put,parseEnvList_pairs plain.environment]
  | memoryLimit =>
    obtain ⟨n,there,rfl⟩ := Option.map_eq_some_iff.mp spelt
    simp [word,setField,put,there,parseSize_digits (plain.memoryLimit n there)]
  | watchdogTimeout =>
    obtain ⟨t,there,rfl⟩ := Option.map_eq_some_iff.mp spelt
    obtain ⟨n,fits,rfl⟩ := plain.watchdogTimeout t there
    simp [word,setField,put,there,parseSecs_seconds fits]
  | oomScoreAdjust =>
    obtain ⟨i,there,rfl⟩ := Option.map_eq_some_iff.mp spelt
    obtain ⟨low,high⟩ := plain.oomScoreAdjust i there
    have read : Text.parseSigned 32 (Text.printSigned i) = some i := Text.parseSigned_printSigned low high
    simp [word,setField,put,there,read]
  | user | group | workingDir =>
    obtain ⟨s,there,rfl⟩ := Option.map_eq_some_iff.mp spelt
    simp [word,setField,put,there]

theorem value_clean (plain : Plain d) (spelt : value d k = some v) : Clean v := by
  have lists : ∀ names ∈ [d.args,d.after,d.afterReady,d.before,d.requires,d.wants], Clean (joined ',' names) :=
    fun names member => clean_joined fun s here => (plain.lists names member s here).1
  have options : ∀ option ∈ [d.user,d.group,d.workingDir], ∀ s ∈ option, Clean s.toList :=
    fun option member s here => clean_bare (plain.options option member s here)
  simp only [List.mem_cons,List.not_mem_nil,or_false,forall_eq_or_imp,forall_eq] at lists options
  cases k with
  | path =>
    obtain rfl := Option.some.inj spelt
    exact clean_bare plain.path.1
  | target =>
    obtain rfl := Option.some.inj spelt
    exact clean_bare plain.target
  | args | after | afterReady | before | requires | wants =>
    obtain rfl := Option.some.inj spelt
    simp only [lists]
  | critical | privateTmp | protectSystem | noNewPrivileges =>
    obtain rfl := Option.some.inj spelt
    exact clean_truth _
  | restart =>
    obtain rfl := Option.some.inj spelt
    cases d.restart <;> decide
  | environment =>
    obtain rfl := Option.some.inj spelt
    exact clean_pairs plain.environment
  | memoryLimit | watchdogTimeout =>
    obtain ⟨n,-,rfl⟩ := Option.map_eq_some_iff.mp spelt
    exact clean_digits _
  | oomScoreAdjust =>
    obtain ⟨i,-,rfl⟩ := Option.map_eq_some_iff.mp spelt
    exact clean_printSigned i
  | user =>
    obtain ⟨s,there,rfl⟩ := Option.map_eq_some_iff.mp spelt
    exact options.1 s there
  | group =>
    obtain ⟨s,there,rfl⟩ := Option.map_eq_some_iff.mp spelt
    exact options.2.1 s there
  | workingDir =>
    obtain ⟨s,there,rfl⟩ := Option.map_eq_some_iff.mp spelt
    exact options.2.2 s there

theorem word_clean (k : Key) : Clean (word k).toList ∧ '=' ∉ (word k).toList := by
  cases k <;> decide

theorem solid_field (plain : Plain d) {text : List Char} (there : field d k = some text) : Text.Solid text := by
  obtain ⟨v,spelt,rfl⟩ := Option.map_eq_some_iff.mp there
  refine ⟨by simp,?_⟩
  intro c member
  rcases List.mem_append.mp member with key | rest
  · exact ((word_clean k).1 c key).1
  · rcases List.mem_cons.mp rest with rfl | inside
    · rfl
    · exact (value_clean plain spelt c inside).1

theorem readField_field (plain : Plain d) (spelt : value d k = some v) (f : Fields) :
    readField f ((word k).toList ++ '=' :: v) = .ok (put d k f) := by
  have unquoted : '"' ∉ v := fun quote => (value_clean plain spelt '"' quote).2 rfl
  rw [readField,Text.splitOnce_append (word_clean k).2]
  simp only [Text.trimMatches_same unquoted,String.ofList_toList,setField_value plain spelt]

theorem foldlM_readField (plain : Plain d) (keys : List Key) (f : Fields) :
    (keys.filterMap (field d)).foldlM readField f = .ok (keys.foldl (fun f k => put d k f) f) := by
  induction keys generalizing f with
  | nil => rfl
  | cons k keys ih =>
    cases spelt : value d k with
    | none =>
      have left : field d k = none := by rw [field,spelt]; rfl
      rw [List.filterMap_cons_none left,List.foldl_cons,put_unsaid spelt,ih]
    | some v =>
      have there : field d k = some ((word k).toList ++ '=' :: v) := by rw [field,spelt]; rfl
      rw [List.filterMap_cons_some there,List.foldlM_cons,readField_field plain spelt,List.foldl_cons]
      exact ih _

theorem parseService_line (plain : Plain d) {keys : List Key} (all : keys.Perm Key.all) :
    parseService (line d keys) = .ok d := by
  have words : ∀ w ∈ d.name.toList :: keys.filterMap (field d), Text.Solid w := by
    intro w member
    rcases List.mem_cons.mp member with rfl | field
    · exact solid_named plain.name.1
    · obtain ⟨k,-,there⟩ := List.mem_filterMap.mp field
      exact solid_field plain there
  rw [parseService,line,Text.splitWhitespace_intercalate words]
  simp only [foldlM_readField plain,foldl_perm (put_comm d) all]
  simp [Key.all,put,bind,Except.bind]

end Inline

namespace Unit
variable {d : ServiceDef} {k : Key} {v : List Char} {path : String} {u : Units.Reading}

/-- The sibling of the inline key, except where the format differs. -/
def put (d : ServiceDef) (k : Key) (f : Fields) : Fields :=
  match k with
  | .path => { f with exec := some (String.ofList (joined ' ' (d.path :: d.args))) }
  | .args => f
  | .environment => { f with svc.environment := f.svc.environment ++ d.environment }
  | k => Inline.put d k f

theorem put_comm (d : ServiceDef) (k l : Key) (f : Fields) : put d k (put d l f) = put d l (put d k f) := by
  cases k <;> cases l <;> rfl

def common : Key → Bool
  | .path | .args | .restart | .environment => false
  | _ => true

theorem value_common (same : common k = true) : value d k = Inline.value d k := by
  cases k <;> first | contradiction | rfl

theorem put_common (same : common k = true) (f : Fields) : put d k f = Inline.put d k f := by
  cases k <;> first | contradiction | rfl

theorem put_unsaid (silent : value d k = none) (f : Fields) : put d k f = f := by
  cases same : common k with
  | true =>
    rw [value_common same] at silent
    rw [put_common same,Inline.put_unsaid silent]
  | false => cases k <;> first | contradiction | rfl

/-- What both formats spell alike, both read alike; but for `protect_system`, which has more spellings here. -/
theorem setKey_common (same : common k = true) (other : k ≠ .protectSystem) :
    Units.setKey path u (word k) v = { u with fields := setField u.fields (Inline.word k) v } := by
  cases k with
  | path | args | restart | environment | protectSystem => contradiction
  | _ => simp [word,Inline.word,Units.setKey,setField]

theorem setKey_value (plain : Plain d) (spelt : value d k = some v) (u : Units.Reading) :
    Units.setKey path u (word k) v = { u with fields := put d k u.fields } := by
  cases same : common k with
  | true =>
    have alike : Inline.value d k = some v := (value_common same).symm.trans spelt
    by_cases protects : k = .protectSystem
    · subst protects
      obtain rfl := Option.some.inj spelt
      simp [word,Units.setKey,put,Inline.put,protects_truth]
    · rw [setKey_common same protects,Inline.setField_value plain alike,put_common same]
  | false =>
    cases k with
    | path =>
      obtain rfl := Option.some.inj spelt
      simp [word,Units.setKey,put]
    | restart =>
      obtain rfl := Option.some.inj spelt
      cases restarts : d.restart <;>
        simp [word,Units.setKey,Units.setRestart,Units.parseRestart,put,Inline.put,policy,restarts]
    | environment =>
      obtain rfl := Option.some.inj spelt
      simp [word,Units.setKey,put,parseEnvPairs_pairs plain.environment]
    | _ => contradiction

structure Tidy (v : List Char) : Prop where
  blanks : ∀ c ∈ v, Text.isWhitespace c = false ∨ c = ' '
  ends : v = [] ∨ Text.Word v

theorem tidy_clean (clean : Clean v) : Tidy v where
  blanks c member := .inl (clean c member).1
  ends := by
    rcases List.eq_nil_or_concat v with empty | ⟨front,last,rfl⟩
    · exact .inl empty
    · exact .inr (Text.Solid.word ⟨by simp,fun c member => (clean c member).1⟩)

theorem tidy_words {words : List (List Char)} (solid : ∀ w ∈ words, Text.Solid w) :
    Tidy ([' '].intercalate words) where
  blanks c member := by
    rcases Text.mem_intercalate member with blank | ⟨w,here,inside⟩
    · exact .inr blank
    · exact .inl ((solid w here).solid c inside)
  ends := by
    by_cases empty : words = []
    · exact .inl (by rw [empty]; rfl)
    · exact .inr (Text.word_intercalate solid empty)

theorem solid_command (plain : Plain d) : ∀ w ∈ (d.path :: d.args).map String.toList, Text.Solid w := by
  intro w member
  obtain ⟨s,here,rfl⟩ := List.mem_map.mp member
  rcases List.mem_cons.mp here with rfl | argument
  · exact solid_named plain.path
  · exact solid_named (plain.lists d.args (by simp) s argument)

theorem value_tidy (plain : Plain d) (spelt : value d k = some v) : Tidy v := by
  cases same : common k with
  | true =>
    rw [value_common same] at spelt
    exact tidy_clean (Inline.value_clean plain spelt)
  | false =>
    cases k with
    | path =>
      obtain rfl := Option.some.inj spelt
      exact tidy_words (solid_command plain)
    | restart =>
      obtain rfl := Option.some.inj spelt
      exact tidy_clean (by cases d.restart <;> decide)
    | environment =>
      obtain rfl := Option.some.inj spelt
      apply tidy_words
      intro piece member
      obtain ⟨p,here,rfl⟩ := List.mem_map.mp member
      exact solid_pair (plain.environment p here)
    | _ => contradiction

theorem word_clean (k : Key) : Clean (word k).toList ∧ '=' ∉ (word k).toList := by
  cases k <;> decide

theorem word_opens (k : Key) : (word k).toList.head?.all (fun c => c != '#' && c != ';' && c != '[') = true ∧
    (word k).toList ≠ [] := by
  cases k <;> decide

structure Written (line : List Char) : Prop where
  word : Text.Word line
  single : '\n' ∉ line ∧ '\r' ∉ line
  spoken : Units.ignored line = false

theorem spokenLines_written {ls : List (List Char)} (written : ∀ line ∈ ls, Written line) :
    Units.spokenLines (ls.flatMap fun line => line ++ ['\n']) = ls := by
  have trimmed : ls.map Text.trim = ls := by
    calc ls.map Text.trim = ls.map id :=
        List.map_congr_left fun line member => Text.trim_word (written line member).word
      _ = ls := List.map_id ls
  rw [Units.spokenLines,Text.lines_flatMap fun line member => (written line member).single,trimmed]
  apply List.filter_eq_self.mpr
  intro line member
  rw [(written line member).spoken]
  rfl

theorem written_entry (plain : Plain d) (spelt : value d k = some v) :
    Written ((word k).toList ++ '=' :: v) := by
  have tidy := value_tidy plain spelt
  obtain ⟨clean,-⟩ := word_clean k
  obtain ⟨opens,named⟩ := word_opens k
  obtain ⟨c,rest,first⟩ := List.exists_cons_of_ne_nil named
  rw [first] at opens clean ⊢
  have blanks : ∀ x ∈ c :: rest ++ '=' :: v, Text.isWhitespace x = false ∨ x = ' ' := by
    intro x member
    rcases List.mem_append.mp member with key | after
    · exact .inl (clean x key).1
    · rcases List.mem_cons.mp after with rfl | inside
      · exact .inl (by decide)
      · exact tidy.blanks x inside
  refine ⟨⟨?_,?_,by simp⟩,⟨?_,?_⟩,?_⟩
  · intro x head
    obtain rfl : c = x := Option.some.inj head
    exact (clean c List.mem_cons_self).1
  · intro x last
    rcases tidy.ends with rfl | word
    · rw [List.getLast?_append_of_ne_nil _ (by simp)] at last
      obtain rfl : '=' = x := Option.some.inj last
      decide
    · rw [List.getLast?_append_of_ne_nil _ (by simp),List.getLast?_cons_of_ne_nil word.nonempty] at last
      exact word.last x last
  · exact fun ended => absurd (blanks _ ended) (by decide)
  · exact fun ended => absurd (blanks _ ended) (by decide)
  · simp only [List.head?_cons,Option.all_some,Bool.and_eq_true,bne_iff_ne,ne_eq] at opens
    simp [Units.ignored,opens]

theorem unnamed_entry (k : Key) (v : List Char) : Units.sectionName ((word k).toList ++ '=' :: v) = none := by
  obtain ⟨opens,named⟩ := word_opens k
  obtain ⟨c,rest,first⟩ := List.exists_cons_of_ne_nil named
  rw [first] at opens ⊢
  simp only [List.head?_cons,Option.all_some,Bool.and_eq_true,bne_iff_ne,ne_eq] at opens
  rw [Units.sectionName,Text.stripPrefix_eq_none]
  · rfl
  · simp [opens]

theorem parseLine_entry (plain : Plain d) (spelt : value d k = some v) (within : u.heading = "Service".toList) :
    Units.parseLine path u ((word k).toList ++ '=' :: v) = { u with fields := put d k u.fields } := by
  have tidy := value_tidy plain spelt
  obtain ⟨clean,unequal⟩ := word_clean k
  obtain ⟨-,named⟩ := word_opens k
  have key : Text.trim (word k).toList = (word k).toList :=
    Text.trim_word (Text.Solid.word ⟨named,fun c member => (clean c member).1⟩)
  have value : Text.trim v = v := by
    rcases tidy.ends with rfl | word
    · rfl
    · exact Text.trim_word word
  simp only [Units.parseLine,unnamed_entry k v,Text.splitOnce_append unequal,within,ne_eq,not_true_eq_false,if_false,key,
    value,String.ofList_toList,setKey_value plain spelt]

theorem foldl_parseLine (plain : Plain d) (keys : List Key) (u : Units.Reading)
    (within : u.heading = "Service".toList) : (keys.filterMap (entry d)).foldl (Units.parseLine path) u =
      { u with fields := keys.foldl (fun f k => put d k f) u.fields } := by
  induction keys generalizing u with
  | nil => rfl
  | cons k keys ih =>
    cases spelt : value d k with
    | none =>
      have left : entry d k = none := by rw [entry,spelt]; rfl
      rw [List.filterMap_cons_none left,List.foldl_cons,put_unsaid spelt,ih u within]
    | some v =>
      have there : entry d k = some ((word k).toList ++ '=' :: v) := by rw [entry,spelt]; rfl
      rw [List.filterMap_cons_some there,List.foldl_cons,parseLine_entry plain spelt within]
      exact ih { u with fields := put d k u.fields } within

theorem spokenLines_text (plain : Plain d) (keys : List Key) :
    Units.spokenLines (text d keys) = "[Service]".toList :: keys.filterMap (entry d) := by
  apply spokenLines_written
  intro line member
  rcases List.mem_cons.mp member with rfl | later
  · exact ⟨Text.word_of_ends (c := '[') (d := ']') (by decide) (by decide) (by decide),by decide,by decide⟩
  · obtain ⟨k,-,there⟩ := List.mem_filterMap.mp later
    obtain ⟨v,spelt,rfl⟩ := Option.map_eq_some_iff.mp there
    exact written_entry plain spelt

theorem parseUnit_text (plain : Plain d) {keys : List Key} (all : keys.Perm Key.all) :
    Units.parseUnit path (some d.name.toList) (text d keys) = .ok d := by
  have command : Text.splitWhitespace (joined ' ' (d.path :: d.args)) = (d.path :: d.args).map String.toList :=
    Text.splitWhitespace_intercalate (solid_command plain)
  have heading : ∀ u, Units.parseLine path u "[Service]".toList = { u with heading := "Service".toList } :=
    fun _ => rfl
  rw [Units.parseUnit,Units.parseLines,spokenLines_text plain,List.foldl_cons,heading,
    foldl_parseLine plain keys _ rfl,foldl_perm (put_comm d) all]
  simp [Key.all,put,Inline.put,Units.finish,command]

theorem fileName_file (single : '/' ∉ d.name.toList) (dir : List Char) :
    Units.fileName (file dir d) = some (d.name.toList ++ ".service".toList) := by
  have whole : Text.split '/' (d.name.toList ++ ".service".toList) = [d.name.toList ++ ".service".toList] := by
    apply List.splitOn_eq_singleton
    rw [List.mem_append,not_or]
    exact ⟨single,by decide⟩
  have long : ∀ dots : List Char, dots.length < 8 → d.name.toList ++ ".service".toList ≠ dots := by
    rintro _ short rfl
    rw [List.length_append] at short
    exact absurd (Nat.lt_of_le_of_lt (Nat.le_add_left _ _) short) (by decide)
  have cut : Text.split '/' (file dir d) = Text.split '/' dir ++ Text.split '/' (d.name.toList ++ ".service".toList) :=
    List.splitOn_append_cons_self dir _
  rw [Units.fileName,cut,whole,List.filter_append,List.filter_cons_of_pos,List.filter_nil,
    List.getLast?_append_of_ne_nil _ (by simp),List.getLast?_singleton,Option.filter_some,if_pos]
  · simpa using long ['.','.'] (by decide)
  · simpa using long ['.'] (by decide)

theorem fileStem_file (named : d.name ≠ "") : Units.fileStem (d.name.toList ++ ".service".toList) = d.name.toList := by
  have backwards : (d.name.toList ++ ".service".toList).reverse = "ecivres".toList ++ '.' :: d.name.toList.reverse := by
    rw [List.reverse_append]
    rfl
  have nonempty : d.name.toList.reverse ≠ [] := by simpa using named
  obtain ⟨c,rest,stem⟩ := List.exists_cons_of_ne_nil nonempty
  rw [Units.fileStem,backwards,Text.splitOnce_append (by decide),stem]
  simp only
  rw [← stem,List.reverse_reverse]

end Unit

/-- A service spelt out in either format, with the keys in any order, is read as it was. -/
theorem reads_spelt {d : ServiceDef} (plain : Plain d) {inlineKeys unitKeys : List Key}
    (inlineAll : inlineKeys.Perm Key.all) (unitAll : unitKeys.Perm Key.all) (dir : List Char) :
    parseService (Inline.line d inlineKeys) = .ok d ∧
      Units.parseUnit (String.ofList (Unit.file dir d)) ((Units.fileName (Unit.file dir d)).map Units.fileStem)
        (Unit.text d unitKeys) = .ok d := by
  refine ⟨Inline.parseService_line plain inlineAll,?_⟩
  rw [Unit.fileName_file plain.name.2,Option.map_some,Unit.fileStem_file plain.name.1.2]
  exact Unit.parseUnit_text plain unitAll

section Runs

def web : ServiceDef where
  name := "web.app"
  path := "/usr/bin/web"
  args := ["--port=80","-v"]
  critical := true
  restart := .never
  memoryLimit := some 268435456
  after := ["network","log"]
  requires := ["network"]
  user := some "www"
  watchdogTimeout := some (fromSecs 30)
  environment := [("MODE","a=b"),("EMPTY","")]
  target := "multi-user"
  protectSystem := true
  oomScoreAdjust := some (-500)

instance (s : String) : Decidable (Bare s) := List.decidableBAll _ s.toList

instance (s : String) : Decidable (Named s) := inferInstanceAs (Decidable (Bare s ∧ s ≠ ""))

theorem plain_web : Plain web where
  name := by decide
  path := by decide
  lists := by decide
  options := by simp [web]; decide
  target := by decide
  environment := by decide
  memoryLimit := by simp [web]
  watchdogTimeout := by simp [web]; exact ⟨30,by omega,rfl⟩
  oomScoreAdjust := by simp [web]

theorem reads_spelt_web : parseService (Inline.line web Key.all.reverse) = .ok web ∧
    Units.parseUnit (String.ofList (Unit.file "/etc".toList web))
      ((Units.fileName (Unit.file "/etc".toList web)).map Units.fileStem) (Unit.text web Key.all) = .ok web :=
  reads_spelt plain_web (List.reverse_perm _) (List.Perm.refl _) "/etc".toList

end Runs
end MitosServices.Formats
