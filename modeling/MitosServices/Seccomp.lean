import MitosServices.Bpf

/-! The syscall filter of launched apps: a deny-list over the number the kernel reports, after a
check of the architecture. One kernel function can be reached under two numbers of one
architecture, and the filter knows only those in its list. -/
namespace MitosServices.Seccomp
open Bpf

def bpfLd : BitVec 16 := 0x00
def bpfJmp : BitVec 16 := 0x05
def bpfRet : BitVec 16 := 0x06
def bpfW : BitVec 16 := 0x00
def bpfAbs : BitVec 16 := 0x20
def bpfJeq : BitVec 16 := 0x10
def bpfK : BitVec 16 := 0x00

def seccompRetKillProcess : Word := 0x80000000
def seccompRetErrno : Word := 0x00050000
def seccompRetAllow : Word := 0x7fff0000
def seccompRetDataMask : Word := 0x0000ffff
def eperm : Word := 1

def offsetNr : Word := 0
def offsetArch : Word := 4

def auditArchX8664 : Word := 0xC000003E

/-- An `i32` in the source, compared as a `u32`: the same 32 bits. -/
def blockedSyscalls : List Word :=
  [101,103,154,155,161,163,164,165,166,167,168,169,170,171,172,173,175,176,179,246,248,249,250,298,
    313,320,321]

def stmt (code : BitVec 16) (k : Word) : Instruction := ⟨code,0,0,k⟩

def jump (code : BitVec 16) (k : Word) (jt jf : BitVec 8) : Instruction := ⟨code,jt,jf,k⟩

def errnoRet : Word := seccompRetErrno ||| (eperm &&& seccompRetDataMask)

def refuse (nr : Word) : List Instruction :=
  [jump (bpfJmp ||| bpfJeq ||| bpfK) nr 0 1,stmt (bpfRet ||| bpfK) errnoRet]

def buildProgram (blocked : List Word) : List Instruction :=
  [stmt (bpfLd ||| bpfW ||| bpfAbs) offsetArch,
    jump (bpfJmp ||| bpfJeq ||| bpfK) auditArchX8664 1 0,
    stmt (bpfRet ||| bpfK) seccompRetKillProcess,
    stmt (bpfLd ||| bpfW ||| bpfAbs) offsetNr] ++
  blocked.flatMap refuse ++
  [stmt (bpfRet ||| bpfK) seccompRetAllow]

structure SeccompData where
  nr : Word
  arch : Word
  instructionPointer : BitVec 64
  args : Fin 6 → BitVec 64

namespace SeccompData

def low (w : BitVec 64) : Word := w.setWidth 32

def high (w : BitVec 64) : Word := (w >>> 32).setWidth 32

def words (data : SeccompData) : List Word :=
  [data.nr,data.arch,low data.instructionPointer,high data.instructionPointer] ++
    (List.ofFn data.args).flatMap fun arg => [low arg,high arg]

def load (data : SeccompData) (offset : Word) : Option Word :=
  if offset.toNat % 4 = 0 then data.words[offset.toNat / 4]? else none

theorem load_nr (data : SeccompData) : data.load offsetNr = some data.nr := rfl

theorem load_arch (data : SeccompData) : data.load offsetArch = some data.arch := rfl

end SeccompData

def verdict (blocked : List Word) (data : SeccompData) : Option Word :=
  exec data.load (buildProgram blocked) 0

section Filter
variable {load : Word → Option Word} {rest : List Instruction} {nr a : Word}

theorem exec_refuse : exec load (refuse nr ++ rest) a =
    if a = nr then some errnoRet else exec load rest a := by
  have compared : exec load (refuse nr ++ rest) a = exec load
      ((stmt (bpfRet ||| bpfK) errnoRet :: rest).drop (if a = nr then 0#8 else 1#8).toNat) a := exec_jumpEq
  refine compared.trans ?_
  split
  · exact exec_ret
  · rfl

theorem exec_refuseAll (blocked : List Word) :
    exec load (blocked.flatMap refuse ++ rest) a =
      if a ∈ blocked then some errnoRet else exec load rest a := by
  induction blocked with
  | nil => rfl
  | cons nr blocked ih =>
    rw [List.flatMap_cons,List.append_assoc,exec_refuse,ih]
    by_cases here : a = nr
    · rw [if_pos here,if_pos (List.mem_cons.mpr (.inl here))]
    · simp only [here,List.mem_cons,false_or,if_false]

/-- The filter as a whole: the architecture first, then the list. -/
theorem verdict_eq (blocked : List Word) (data : SeccompData) :
    verdict blocked data = some
      (if data.arch ≠ auditArchX8664 then seccompRetKillProcess
        else if data.nr ∈ blocked then errnoRet else seccompRetAllow) := by
  have loaded : verdict blocked data = exec data.load (buildProgram blocked).tail data.arch :=
    exec_load data.load_arch
  have compared : exec data.load (buildProgram blocked).tail data.arch = exec data.load
      ((buildProgram blocked).tail.tail.drop (if data.arch = auditArchX8664 then 1#8 else 0#8).toNat) data.arch :=
    exec_jumpEq
  refine loaded.trans (compared.trans ?_)
  by_cases native : data.arch = auditArchX8664
  · rw [if_pos native,if_neg (not_not.mpr native)]
    have number : exec data.load ((buildProgram blocked).tail.tail.drop 1) data.arch = exec data.load
        (blocked.flatMap refuse ++ [stmt (bpfRet ||| bpfK) seccompRetAllow]) data.nr := exec_load data.load_nr
    refine number.trans ((exec_refuseAll blocked).trans ?_)
    split
    · rfl
    · exact exec_ret
  · rw [if_neg native,if_pos native]
    exact exec_ret

end Filter

section Layout
variable {blocked : List Word} {pc : Nat} {i : Instruction}

theorem length_refuseAll (blocked : List Word) :
    (blocked.flatMap refuse).length = 2 * blocked.length := by
  induction blocked with
  | nil => rfl
  | cons nr blocked ih =>
    rw [List.flatMap_cons,List.length_append,ih,List.length_cons,refuse]
    simp only [List.length_cons,List.length_nil]
    omega

theorem length_buildProgram (blocked : List Word) :
    (buildProgram blocked).length = 4 + 2 * blocked.length + 1 := by
  unfold buildProgram
  rw [List.length_append,List.length_append,length_refuseAll]
  rfl

/-- Behind the loads, the comparisons are every second instruction. -/
theorem compares_refuseAll
    (fetched : (blocked.flatMap refuse ++ [stmt (bpfRet ||| bpfK) seccompRetAllow])[pc]? = some i)
    (compares : i.code = jumpEq) : ∃ n < blocked.length, pc = 2 * n ∧ i.jt = 0 ∧ i.jf = 1 := by
  induction blocked generalizing pc with
  | nil =>
    obtain ⟨_,rfl⟩ := List.getElem?_eq_some_iff.mp fetched
    simp only [List.flatMap_nil,List.nil_append,List.getElem_singleton] at compares
    contradiction
  | cons nr blocked ih =>
    match pc with
    | 0 =>
      obtain rfl : jump (bpfJmp ||| bpfJeq ||| bpfK) nr 0 1 = i := Option.some.inj fetched
      exact ⟨0,Nat.succ_pos _,rfl,rfl,rfl⟩
    | 1 =>
      obtain rfl : stmt (bpfRet ||| bpfK) errnoRet = i := Option.some.inj fetched
      contradiction
    | pc+2 =>
      obtain ⟨n,inside,rfl,offsets⟩ := ih fetched
      exact ⟨n + 1,Nat.succ_lt_succ inside,by omega,offsets⟩

theorem compares_buildProgram (fetched : (buildProgram blocked)[pc]? = some i)
    (compares : i.code = jumpEq) :
    (pc = 1 ∧ i.jt = 1 ∧ i.jf = 0) ∨ ∃ n < blocked.length, pc = 4 + 2 * n ∧ i.jt = 0 ∧ i.jf = 1 := by
  match pc with
  | 0 | 2 | 3 =>
    obtain rfl := Option.some.inj fetched
    contradiction
  | 1 =>
    obtain rfl := Option.some.inj fetched
    exact .inl ⟨rfl,rfl,rfl⟩
  | pc+4 =>
    obtain ⟨n,inside,rfl,offsets⟩ := compares_refuseAll fetched compares
    exact .inr ⟨n,inside,Nat.add_comm _ _,offsets⟩

theorem jumpsLand_buildProgram (blocked : List Word) : JumpsLand (buildProgram blocked) := by
  intro pc i fetched compares offset taken
  have short : offset.toNat = 0 ∨ offset.toNat = 1 ∧ (pc = 1 ∨ ∃ n < blocked.length, pc = 4 + 2 * n) := by
    obtain ⟨rfl,jt,jf⟩ | ⟨n,inside,rfl,jt,jf⟩ := compares_buildProgram fetched compares
    · rw [jt,jf] at taken
      obtain rfl | rfl := List.mem_pair.mp taken
      · exact .inr ⟨rfl,.inl rfl⟩
      · exact .inl rfl
    · rw [jt,jf] at taken
      obtain rfl | rfl := List.mem_pair.mp taken
      · exact .inl rfl
      · exact .inr ⟨rfl,.inr ⟨n,inside,rfl⟩⟩
  have position := compares_buildProgram fetched compares
  constructor
  · rw [length_buildProgram]
    obtain ⟨rfl,_⟩ | ⟨n,inside,rfl,_⟩ := position
    · omega
    · omega
  · intro other j alsoFetched alsoCompares apart
    obtain ⟨rfl,_⟩ | ⟨m,below,rfl,_⟩ := compares_buildProgram alsoFetched alsoCompares
    · omega
    · obtain still | ⟨onward,rfl | ⟨n,inside,rfl⟩⟩ := short
      · omega
      · omega
      · omega

/-- The program that is laid out for a list answers from a return of its own: which answer, the
architecture decides first and then the list. -/
theorem filter_decides (blocked : List Word) (data : SeccompData) :
    (∃ last value, Halts data.load (buildProgram blocked) 0 0 last value) ∧
    (∀ last value, Halts data.load (buildProgram blocked) 0 0 last value →
      (buildProgram blocked)[last]?.map Instruction.code = some ret ∧
      (value = seccompRetKillProcess ↔ data.arch ≠ auditArchX8664) ∧
      (value = errnoRet ↔ data.arch = auditArchX8664 ∧ data.nr ∈ blocked) ∧
      (value = seccompRetAllow ↔ data.arch = auditArchX8664 ∧ data.nr ∉ blocked)) ∧
    JumpsLand (buildProgram blocked) := by
  have decided : exec data.load ((buildProgram blocked).drop 0) 0 = some _ := verdict_eq blocked data
  refine ⟨?_,?_,jumpsLand_buildProgram blocked⟩
  · obtain ⟨last,halts⟩ := halts_iff.mpr decided
    exact ⟨last,_,halts⟩
  · intro last value halts
    have answered : value = _ := Option.some.inj (halts.exec.symm.trans decided)
    obtain ⟨i,fetched,returns,_⟩ := halts.at_return
    have kills_apart : seccompRetKillProcess ≠ errnoRet ∧ seccompRetKillProcess ≠ seccompRetAllow ∧
      errnoRet ≠ seccompRetAllow := by decide
    refine ⟨by rw [fetched,Option.map_some,returns],?_⟩
    rw [answered]
    by_cases native : data.arch = auditArchX8664
    · by_cases listed : data.nr ∈ blocked
      · simp [native,listed,kills_apart.1.symm,kills_apart.2.2]
      · simp [native,listed,kills_apart.2.1.symm,kills_apart.2.2.symm]
    · simp [native,kills_apart.1,kills_apart.2.1]

end Layout

section X32

def x32SyscallBit : Word := 0x40000000

/-- The number of the kernel function that a call of this number reaches. -/
def reached (nr : Word) : Word := nr &&& ~~~x32SyscallBit

def x8664Call (nr : Word) (instructionPointer : BitVec 64) (args : Fin 6 → BitVec 64) : SeccompData :=
  ⟨nr,auditArchX8664,instructionPointer,args⟩

variable {blocked : List Word} {nr : Word} {instructionPointer : BitVec 64}
  {args : Fin 6 → BitVec 64}

theorem verdict_x8664Call : verdict blocked (x8664Call nr instructionPointer args) =
    some (if nr ∈ blocked then errnoRet else seccompRetAllow) :=
  (verdict_eq _ _).trans (congrArg some (if_neg (not_not.mpr rfl)))

theorem denies_native (native : nr &&& x32SyscallBit = 0) (there : reached nr ∈ blocked) :
    verdict blocked (x8664Call nr instructionPointer args) = some errnoRet := by
  have same : reached nr = nr := by
    apply BitVec.eq_of_getLsbD_eq
    intro i _
    have clear := congrArg (fun w => w.getLsbD i) native
    simp only [BitVec.getLsbD_and] at clear
    rw [reached,BitVec.getLsbD_and,BitVec.getLsbD_not]
    cases marked : x32SyscallBit.getLsbD i with
    | false => simp_all
    | true => simp_all
  rw [verdict_x8664Call,if_pos (same ▸ there)]

def Denies (blocked : List Word) (data : SeccompData) : Prop :=
  reached data.nr ∈ blocked → verdict blocked data ≠ some seccompRetAllow

/-- The filter denies just the numbers in its list, whichever entry they are meant for. -/
theorem denies_iff (blocked : List Word) (nr : Word) (instructionPointer : BitVec 64)
    (args : Fin 6 → BitVec 64) :
    Denies blocked (x8664Call nr instructionPointer args) ↔
      (reached nr ∈ blocked → nr ∈ blocked) := by
  constructor
  · intro denies there
    by_contra absent
    apply denies there
    rw [verdict_x8664Call,if_neg absent]
  · intro listed there
    have number : nr ∈ blocked := listed there
    rw [verdict_x8664Call,if_pos number]
    decide

/-- `mount` through the x32 entry. -/
theorem mounts_through_x32 :
    ¬ Denies blockedSyscalls (x8664Call (165 ||| x32SyscallBit) 0 fun _ => 0) := by
  intro denies
  apply denies
  · decide
  · rw [verdict_x8664Call]
    decide

end X32
end MitosServices.Seccomp
