import MitosServices.Jails

/-! The users and groups a definition names, looked up in `/etc/passwd` and `/etc/group`: the first line
under a name decides, even if it decides nothing. -/
namespace MitosServices.Users

/-- Lines of fields between colons, the name in the first and the id in field `idField`. -/
def resolveFromLines (name : List Char) (idField : Nat) : List (List Char) → Option Nat
  | [] => none
  | line :: rest =>
    let fields := Text.split ':' line
    if fields.head? = some name then fields[idField]?.bind (Text.parseUnsigned 32)
    else resolveFromLines name idField rest

def resolveFromText (text name : List Char) (idField : Nat) : Option Nat :=
  resolveFromLines name idField (Text.lines text)

/-- A number is taken as it is; a name is looked up, if the file can be read. -/
def resolve (file : Option (List Char)) (spec : List Char) : Option Nat :=
  match Text.parseUnsigned 32 spec with
  | some n => some n
  | none => file.bind fun text => resolveFromText text spec 2

def resolveUid (passwd : Option (List Char)) (spec : String) : Option Nat := resolve passwd spec.toList

def resolveGid (group : Option (List Char)) (spec : String) : Option Nat := resolve group spec.toList

section First
variable {name line : List Char} {idField n : Nat} {ls : List (List Char)}

def namedBy (line : List Char) : Option (List Char) := (Text.split ':' line).head?

theorem resolveFromLines_eq : resolveFromLines name idField ls =
    (ls.find? fun line => namedBy line = some name).bind fun line =>
      (Text.split ':' line)[idField]?.bind (Text.parseUnsigned 32) := by
  induction ls with
  | nil => rfl
  | cons line ls ih =>
    rw [resolveFromLines,List.find?_cons]
    by_cases here : namedBy line = some name
    · have named : (Text.split ':' line).head? = some name := here
      simp [here,named]
    · have other : (Text.split ':' line).head? ≠ some name := here
      simp only [here,other,if_false,decide_false,ih]

def Holds (line : List Char) (n : Nat) : Prop :=
  ∃ field, (Text.split ':' line)[2]? = some field ∧ Text.parseUnsigned 32 field = some n

def FirstLineHolds (file : Option (List Char)) (name : List Char) (n : Nat) : Prop :=
  ∃ text before line after, file = some text ∧ Text.lines text = before ++ line :: after ∧
    (∀ l ∈ before, namedBy l ≠ some name) ∧ namedBy line = some name ∧ Holds line n

/-- A specification resolves to an id exactly if it is that number, or if it is none and the first line
under that name holds it. Later lines under the name are never looked at. -/
theorem resolve_eq_some_iff (file : Option (List Char)) (spec : List Char) (n : Nat) :
    resolve file spec = some n ↔
      Text.parseUnsigned 32 spec = some n ∨ Text.parseUnsigned 32 spec = none ∧ FirstLineHolds file spec n := by
  unfold resolve FirstLineHolds
  cases number : Text.parseUnsigned 32 spec with
  | some m => simp
  | none =>
    simp only [reduceCtorEq,false_or,true_and]
    constructor
    · intro found
      obtain ⟨text,rfl,found⟩ := Option.bind_eq_some_iff.mp found
      change resolveFromLines spec 2 (Text.lines text) = some n at found
      rw [resolveFromLines_eq] at found
      obtain ⟨line,first,read⟩ := Option.bind_eq_some_iff.mp found
      obtain ⟨field,there,parsed⟩ := Option.bind_eq_some_iff.mp read
      obtain ⟨named,before,after,split,others⟩ := List.find?_eq_some_iff_append.mp first
      refine ⟨text,before,line,after,rfl,split,?_,of_decide_eq_true named,field,there,parsed⟩
      intro l member same
      simpa [same] using others l member
    · rintro ⟨text,before,line,after,rfl,split,others,named,field,there,parsed⟩
      change resolveFromLines spec 2 (Text.lines text) = some n
      rw [resolveFromLines_eq,split]
      have first : (before ++ line :: after).find? (fun line => namedBy line = some spec) = some line := by
        refine List.find?_eq_some_iff_append.mpr ⟨decide_eq_true named,before,after,rfl,?_⟩
        intro l member
        simpa using others l member
      rw [first,Option.bind_some,there,Option.bind_some,parsed]

end First

section Written

structure Entry where
  name : List Char
  password : List Char
  id : Nat
  others : List (List Char)

def Entry.fields (e : Entry) : List (List Char) := e.name :: e.password :: Nat.toDigits 10 e.id :: e.others

def Entry.line (e : Entry) : List Char := [':'].intercalate e.fields

def written (entries : List Entry) : List Char := entries.flatMap fun e => e.line ++ ['\n']

structure Entry.Sound (e : Entry) : Prop where
  plain : ∀ field ∈ e.fields, ∀ c ∈ field, c ≠ ':' ∧ c ≠ '\n' ∧ c ≠ '\r'
  fits : e.id < 2 ^ 32

variable {e : Entry} {entries : List Entry} {name : List Char}

theorem split_line (sound : e.Sound) : Text.split ':' e.line = e.fields :=
  List.splitOn_intercalate _ (fun field member here => (sound.plain field member ':' here).1 rfl) (by simp [Entry.fields])

theorem mem_line {c : Char} (member : c ∈ e.line) : c = ':' ∨ ∃ field ∈ e.fields, c ∈ field :=
  Text.mem_intercalate member

theorem line_single (sound : e.Sound) : '\n' ∉ e.line ∧ '\r' ∉ e.line := by
  constructor
  · intro member
    obtain same | ⟨field,there,inside⟩ := mem_line member
    · contradiction
    · exact (sound.plain field there _ inside).2.1 rfl
  · intro member
    obtain same | ⟨field,there,inside⟩ := mem_line member
    · contradiction
    · exact (sound.plain field there _ inside).2.2 rfl

theorem lines_written (sound : ∀ e ∈ entries, e.Sound) : Text.lines (written entries) = entries.map Entry.line := by
  have single : ∀ line ∈ entries.map Entry.line, '\n' ∉ line ∧ '\r' ∉ line := by
    intro line member
    obtain ⟨e,there,rfl⟩ := List.mem_map.mp member
    exact line_single (sound e there)
  rw [← Text.lines_flatMap single,List.flatMap_map]
  rfl

/-- What is written is read back: a name that is no number resolves to the id of the first entry it has. -/
theorem resolve_written (sound : ∀ e ∈ entries, e.Sound) (named : Text.parseUnsigned 32 name = none) :
    resolve (some (written entries)) name = (entries.find? fun e => e.name = name).map Entry.id := by
  rw [resolve,named,Option.bind_some,resolveFromText,lines_written sound]
  induction entries with
  | nil => rfl
  | cons e entries ih =>
    have here := sound e List.mem_cons_self
    have rest := ih fun e member => sound e (List.mem_cons_of_mem _ member)
    rw [List.map_cons,resolveFromLines,split_line here,List.find?_cons]
    by_cases same : e.name = name
    · have read : Text.parseUnsigned 32 (Nat.toDigits 10 e.id) = some e.id := Text.parseUnsigned_toDigits here.fits
      simp [Entry.fields,same,read]
    · simpa [Entry.fields,same] using rest

def root : Entry := ⟨"root".toList,"x".toList,0,["0".toList,"root".toList,"/root".toList,"/bin/bash".toList]⟩

def webUser : Entry := ⟨"web".toList,"x".toList,33,["33".toList,[],"/var/www".toList,"/usr/sbin/nologin".toList]⟩

theorem sound_of_all (plain : (e.fields.all fun field => field.all fun c => c != ':' && c != '\n' && c != '\r') = true)
    (fits : e.id < 2 ^ 32) : e.Sound where
  plain field member c inside := by
    simpa [and_assoc] using List.all_eq_true.mp (List.all_eq_true.mp plain field member) c inside
  fits := fits

theorem sound_examples : ∀ e ∈ [root,webUser], e.Sound := by
  intro e member
  obtain rfl | rfl := List.mem_pair.mp member
  · exact sound_of_all (by decide) (by decide)
  · exact sound_of_all (by decide) (by decide)

theorem resolve_written_web : resolve (some (written [root,webUser])) "web".toList = some 33 :=
  resolve_written sound_examples (by decide)

end Written

section Runs
open Interaction Isolation

/-- From the lookup to the program: a service runs as the user and the group its definition names, as far
as they can be found, without the powers of root unless it runs as root, and as root only if no user is
named or found, or the name is the number 0, or the first line under it says 0. -/
theorem service_runs_as (passwd group : Option (List Char)) (d : ServiceDef) (times : List Nat) (caps : Caps)
    (noNewPrivs : Bool) (filters : List (List Bpf.Instruction)) (identity : Identity) {c : Command}
    {t : State Unit Syscall (fun _ => Result) Isolation.Child Result}
    (spawned : Spawns (resolveUid passwd) (resolveGid group) (spawnWithHistory d times) (.service d.name d.critical) c)
    (run : Reaches machine.surroundings ⟨runService c,(),forked caps noNewPrivs filters identity⟩ t)
    (executes : t.program.next? = some .exec) :
    t.env.identity.uid = (d.user.bind (resolveUid passwd)).getD identity.uid ∧
    t.env.identity.gid = (d.group.bind (resolveGid group)).getD identity.gid ∧
    (t.env.identity.uid ≠ identity.uid → t.env.identity.uid ≠ 0 → t.env.caps.effective = ∅) ∧
    (t.env.identity.uid = 0 → ∀ name, d.user = some name →
      resolveUid passwd name = none ∨ Text.parseUnsigned 32 name.toList = some 0 ∨
        FirstLineHolds passwd name.toList 0) := by
  obtain ⟨m,s,reached,at_spawn⟩ := spawned
  obtain ⟨sock,rfl⟩ := wp_everywhere reached (spawnWithHistory_only d times) (fun _ _ _ _ _ => nofun) c at_spawn
  have prepared := (wp_everywhere run (runService_asked (reached_forked caps noNewPrivs filters identity))
    fun _ _ _ unseen => ⟨unseen,nofun,nofun⟩).2.2 executes
  have user : t.env.identity.uid = (d.user.bind (resolveUid passwd)).getD identity.uid := prepared.user
  refine ⟨user,prepared.group,?_,?_⟩
  · intro changed notRoot
    cases found : d.user.bind (resolveUid passwd) with
    | none =>
      rw [found] at user
      exact absurd user changed
    | some u =>
      rw [found] at user
      exact prepared.powers u found fun root => notRoot (user.trans root)
  · intro root name named
    cases found : resolveUid passwd name with
    | none => exact .inl rfl
    | some u =>
      rw [named,Option.bind_some,found] at user
      obtain rfl : u = 0 := user.symm.trans root
      obtain number | ⟨_,line⟩ := (resolve_eq_some_iff passwd name.toList 0).mp found
      · exact .inr (.inl number)
      · exact .inr (.inr line)

def passwd : Option (List Char) := some (written [root,webUser])

def webCommand : Command := serviceCommand web (web.user.bind (resolveUid passwd)) (web.group.bind (resolveGid passwd)) none

def webRun : Option (State Unit Syscall (fun _ => Result) Isolation.Child Result) :=
  drive machine obliging busy ⟨runService webCommand,(),forked ofRoot false [] ⟨0,0,[0]⟩⟩

theorem service_runs_as_web : ∃ t, webRun = some t ∧ t.env.identity.uid = 33 := by
  have there : webRun.any (fun t => t.program.next? == some .exec) = true := by decide +kernel
  obtain ⟨t,driven,executes⟩ := (Option.any_eq_true _ _).mp there
  have user := (service_runs_as passwd passwd web [] ofRoot false [] ⟨0,0,[0]⟩ (spawns_service web [])
    (drive_reaches driven) (beq_iff_eq.mp executes)).1
  exact ⟨t,driven,user.trans (by decide +kernel)⟩

end Runs
end MitosServices.Users
