import Mathlib.Data.BitVec

/-! Classic BPF programs: loads of 32-bit words at absolute offsets, jumps on an equality, which only
ever lead forward, and returns. Only these three kinds of instruction have a meaning here. -/
namespace Bpf

abbrev Word := BitVec 32

structure Instruction where
  code : BitVec 16
  jt : BitVec 8
  jf : BitVec 8
  k : Word
deriving DecidableEq, Repr

/-- What an instruction comes to: an answer, or a new accumulator and how many of the instructions
that follow are passed over. -/
inductive Effect
  | answer (value : Word)
  | onward (a : Word) (skipped : Nat)
deriving DecidableEq, Repr

def loadAbs : BitVec 16 := 0x20

def jumpEq : BitVec 16 := 0x15

def ret : BitVec 16 := 0x06

variable (load : Word → Option Word)

def Instruction.effect (i : Instruction) (a : Word) : Option Effect :=
  if i.code = loadAbs then (load i.k).map fun word => .onward word 0
  else if i.code = jumpEq then some (.onward a (if a = i.k then i.jt else i.jf).toNat)
  else if i.code = ret then some (.answer i.k)
  else none

/-- Runs at most `fuel` instructions. Running off the end, or into an instruction without a meaning,
gives no answer. -/
def run : Nat → List Instruction → Word → Option Word
  | 0, _, _ => none
  | _+1, [], _ => none
  | fuel+1, i :: rest, a => (i.effect load a).bind fun effect => match effect with
    | .answer value => some value
    | .onward a skipped => run fuel (rest.drop skipped) a

/-- No run is longer than its program. -/
def exec (program : List Instruction) (a : Word) : Option Word := run load program.length program a

variable {load} {program rest : List Instruction} {i : Instruction} {a k word : Word}

/-- Jumps only lead forward: fuel beyond the length of the program changes nothing. -/
theorem run_fuel {fuel other : Nat} (enough : program.length ≤ fuel) (also : program.length ≤ other) :
    run load fuel program a = run load other program a := by
  induction fuel generalizing other program a with
  | zero =>
    obtain rfl : program = [] := List.length_eq_zero_iff.mp (Nat.le_zero.mp enough)
    cases other <;> rfl
  | succ fuel ih =>
    cases program with
    | nil => cases other <;> rfl
    | cons i rest =>
      rw [List.length_cons] at enough also
      obtain ⟨other,rfl⟩ : ∃ n, other = n + 1 := ⟨other - 1,by omega⟩
      rw [run,run]
      congr 1
      funext effect
      cases effect with
      | answer value => rfl
      | onward a skipped =>
        apply ih
        · rw [List.length_drop]
          omega
        · rw [List.length_drop]
          omega

theorem exec_cons : exec load (i :: rest) a = (i.effect load a).bind fun effect => match effect with
    | .answer value => some value
    | .onward a skipped => exec load (rest.drop skipped) a := by
  unfold exec
  rw [List.length_cons,run]
  congr 1
  funext effect
  cases effect with
  | answer value => rfl
  | onward a skipped =>
    apply run_fuel
    · rw [List.length_drop]
      omega
    · exact Nat.le_refl _

theorem exec_ret {jt jf : BitVec 8} : exec load (⟨ret,jt,jf,k⟩ :: rest) a = some k := by
  rw [exec_cons]
  rfl

theorem exec_load {jt jf : BitVec 8} (there : load k = some word) :
    exec load (⟨loadAbs,jt,jf,k⟩ :: rest) a = exec load rest word := by
  rw [exec_cons,Instruction.effect,if_pos rfl,there]
  rfl

theorem exec_jumpEq {jt jf : BitVec 8} :
    exec load (⟨jumpEq,jt,jf,k⟩ :: rest) a =
      exec load (rest.drop (if a = k then jt else jf).toNat) a := by
  rw [exec_cons,Instruction.effect,if_neg (by decide : jumpEq ≠ loadAbs),if_pos rfl]
  rfl

/-- From the instruction at `pc`, with `a` in the accumulator, the program comes to a return at `last`
and answers `value`. -/
inductive Halts (load : Word → Option Word) (program : List Instruction) :
    Nat → Word → Nat → Word → Prop
  | here {pc : Nat} {a value : Word} {i : Instruction} (fetched : program[pc]? = some i)
      (answers : i.effect load a = some (.answer value)) : Halts load program pc a pc value
  | onward {pc skipped last : Nat} {a b value : Word} {i : Instruction} (fetched : program[pc]? = some i)
      (goes : i.effect load a = some (.onward b skipped))
      (rest : Halts load program (pc + 1 + skipped) b last value) : Halts load program pc a last value

theorem Instruction.effect_answer {value : Word} (answers : i.effect load a = some (.answer value)) :
    i.code = ret ∧ i.k = value := by
  unfold Instruction.effect at answers
  split at answers
  · obtain ⟨word,_,same⟩ := Option.map_eq_some_iff.mp answers
    contradiction
  · split at answers
    · nomatch answers
    · split at answers
      case isTrue returns =>
        have same : i.k = value := by simpa using answers
        exact ⟨returns,same⟩
      case isFalse => contradiction

/-- A run ends inside the program, at a return of what it answers. -/
theorem Halts.at_return {pc last : Nat} {value : Word} (halts : Halts load program pc a last value) :
    ∃ i, program[last]? = some i ∧ i.code = ret ∧ i.k = value := by
  induction halts with
  | here fetched answers => exact ⟨_,fetched,Instruction.effect_answer answers⟩
  | onward fetched goes rest ih => exact ih

theorem drop_of_fetched {pc : Nat} (fetched : program[pc]? = some i) :
    program.drop pc = i :: program.drop (pc + 1) := by
  obtain ⟨inside,rfl⟩ := List.getElem?_eq_some_iff.mp fetched
  exact List.drop_eq_getElem_cons inside

theorem Halts.exec {pc last : Nat} {value : Word} (halts : Halts load program pc a last value) :
    Bpf.exec load (program.drop pc) a = some value := by
  induction halts with
  | here fetched answers => rw [drop_of_fetched fetched,exec_cons,answers,Option.bind_some]
  | onward fetched goes rest ih =>
    rw [drop_of_fetched fetched,exec_cons,goes,Option.bind_some]
    simpa only [List.drop_drop] using ih

/-- Running what is left of a program and following its program counter come to the same. -/
theorem halts_iff {pc : Nat} {value : Word} :
    (∃ last, Halts load program pc a last value) ↔ exec load (program.drop pc) a = some value := by
  constructor
  · rintro ⟨last,halts⟩
    exact halts.exec
  · -- every step leads forward: the induction is on what is left
    intro answered
    induction left : program.length - pc using Nat.strong_induction_on generalizing pc a with
    | _ left ih =>
      cases fetched : program[pc]? with
      | none =>
        rw [List.drop_eq_nil_of_le (List.getElem?_eq_none_iff.mp fetched)] at answered
        contradiction
      | some i =>
        have inside : pc < program.length := (List.getElem?_eq_some_iff.mp fetched).1
        rw [drop_of_fetched fetched,exec_cons] at answered
        obtain ⟨effect,does,answered⟩ := Option.bind_eq_some_iff.mp answered
        cases effect with
        | answer word =>
          obtain rfl : word = value := Option.some.inj answered
          exact ⟨pc,.here fetched does⟩
        | onward b skipped =>
          have later : exec load (program.drop (pc + 1 + skipped)) b = some value := by
            simpa only [List.drop_drop] using answered
          obtain ⟨last,halts⟩ := ih (program.length - (pc + 1 + skipped)) (by omega) later rfl
          exact ⟨last,.onward fetched does halts⟩

/-- Every jump lands inside the program, and right behind a comparison only as that comparison's own
falling through. -/
def JumpsLand (program : List Instruction) : Prop :=
  ∀ pc i, program[pc]? = some i → i.code = jumpEq → ∀ offset ∈ [i.jt,i.jf],
    pc + 1 + offset.toNat < program.length ∧
      ∀ other j, program[other]? = some j → j.code = jumpEq → other ≠ pc →
        pc + 1 + offset.toNat ≠ other + 1

end Bpf
