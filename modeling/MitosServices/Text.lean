import Mathlib.Algebra.Group.Int.Defs
import Mathlib.Algebra.Group.Nat.Defs
import Mathlib.Data.List.DropRight

/-! Text as Rust's `str` sees it: a list of characters, trimmed, cut into pieces, read as a number
and decoded from bytes. -/
namespace Text

/-- The characters with the Unicode property `White_Space`. -/
def isWhitespace (c : Char) : Bool :=
  let n := c.toNat
  (9 ≤ n && n ≤ 13) || n == 0x20 || n == 0x85 || n == 0xA0 || n == 0x1680 ||
    (0x2000 ≤ n && n ≤ 0x200A) || n == 0x2028 || n == 0x2029 || n == 0x202F || n == 0x205F ||
    n == 0x3000

def trimStart (s : List Char) : List Char := s.dropWhile isWhitespace

def trimEnd (s : List Char) : List Char := s.rdropWhile isWhitespace

def trim (s : List Char) : List Char := trimEnd (trimStart s)

def Blank (s : List Char) : Prop := ∀ c ∈ s, isWhitespace c = true

structure Word (w : List Char) : Prop where
  first : ∀ c ∈ w.head?, isWhitespace c = false
  last : ∀ c ∈ w.getLast?, isWhitespace c = false
  nonempty : w ≠ []

section Trim
variable {s w before after rest : List Char}

theorem word_of_ends {c d : Char} (first : w.head? = some c) (last : w.getLast? = some d)
    (solid : isWhitespace c = false ∧ isWhitespace d = false) : Word w where
  first c' member := by
    obtain rfl : c = c' := Option.some.inj (first.symm.trans member)
    exact solid.1
  last d' member := by
    obtain rfl : d = d' := Option.some.inj (last.symm.trans member)
    exact solid.2
  nonempty := by
    rintro rfl
    contradiction

theorem trimStart_blank_append (blank : Blank before) : trimStart (before ++ s) = trimStart s :=
  List.dropWhile_append_of_pos blank

theorem trimStart_word_append (word : Word w) : trimStart (w ++ rest) = w ++ rest := by
  obtain ⟨c,w',rfl⟩ := List.exists_cons_of_ne_nil word.nonempty
  have solid : isWhitespace c = false := word.first c rfl
  rw [trimStart,List.cons_append,List.dropWhile_cons_of_neg (by simp [solid])]

theorem trimEnd_append_blank (blank : Blank after) : trimEnd (s ++ after) = trimEnd s := by
  rw [trimEnd,trimEnd,List.rdropWhile,List.rdropWhile,List.reverse_append,
    List.dropWhile_append_of_pos]
  intro c member
  exact blank c (List.mem_reverse.mp member)

theorem prefix_trimEnd_append (word : Word w) (rest : List Char) : w <+: trimEnd (w ++ rest) := by
  induction rest using List.reverseRecOn with
  | nil =>
    have solid := word.last _ (List.getLast?_eq_some_getLast word.nonempty)
    have whole : trimEnd w = w := List.rdropWhile_eq_self_iff.mpr fun _ => by simp [solid]
    have same : trimEnd (w ++ []) = w := (congrArg trimEnd (List.append_nil w)).trans whole
    exact same.symm ▸ List.prefix_refl w
  | append_singleton rest c ih =>
    rw [← List.append_assoc,trimEnd,List.rdropWhile_concat]
    split
    · exact ih
    · rw [List.append_assoc]
      exact List.prefix_append w _

theorem trimEnd_word (word : Word w) : trimEnd w = w := by
  have whole := prefix_trimEnd_append word []
  rw [List.append_nil] at whole
  have part : trimEnd w <+: w := List.rdropWhile_prefix isWhitespace w
  exact part.eq_of_length (le_antisymm part.length_le whole.length_le)

theorem trim_padded (blank : Blank before) (word : Word w) (blankEnd : Blank after) :
    trim (before ++ w ++ after) = w := by
  rw [trim,List.append_assoc,trimStart_blank_append blank,trimStart_word_append word,
    trimEnd_append_blank blankEnd,trimEnd_word word]

theorem blank_takeWhile (s : List Char) : Blank (s.takeWhile isWhitespace) :=
  fun _ member => List.mem_takeWhile_imp member

theorem trimEnd_split (s : List Char) : ∃ after, Blank after ∧ s = trimEnd s ++ after := by
  refine ⟨(s.reverse.takeWhile isWhitespace).reverse,?_,?_⟩
  · intro c member
    exact blank_takeWhile s.reverse c (List.mem_reverse.mp member)
  · rw [trimEnd,List.rdropWhile,← List.reverse_append,List.takeWhile_append_dropWhile,
      List.reverse_reverse]

/-- Trimming takes white space off both ends and nothing else. -/
theorem trim_split (s : List Char) :
    ∃ before after, Blank before ∧ Blank after ∧ s = before ++ trim s ++ after := by
  obtain ⟨after,blank,split⟩ := trimEnd_split (trimStart s)
  refine ⟨s.takeWhile isWhitespace,after,blank_takeWhile s,blank,?_⟩
  rw [List.append_assoc,trim,← split,trimStart,List.takeWhile_append_dropWhile]

theorem mem_of_mem_trim {c : Char} (member : c ∈ trim s) : c ∈ s := by
  obtain ⟨before,after,-,-,split⟩ := trim_split s
  rw [split]
  simp [member]

theorem trim_word (word : Word w) : trim w = w := by
  have padded : trim ([] ++ w ++ []) = w := trim_padded (by simp [Blank]) word (by simp [Blank])
  simpa using padded

theorem trim_eq_iff (word : Word w) : trim s = w ↔
    ∃ before after, Blank before ∧ Blank after ∧ s = before ++ w ++ after := by
  constructor
  · rintro rfl
    exact trim_split s
  · rintro ⟨before,after,blank,blankEnd,rfl⟩
    exact trim_padded blank word blankEnd

theorem prefix_trim_iff (word : Word w) : w <+: trim s ↔
    ∃ before rest, Blank before ∧ s = before ++ w ++ rest := by
  constructor
  · rintro ⟨more,whole⟩
    obtain ⟨before,after,blank,-,split⟩ := trim_split s
    refine ⟨before,more ++ after,blank,?_⟩
    rw [split,← whole]
    simp only [List.append_assoc]
  · rintro ⟨before,rest,blank,rfl⟩
    rw [trim,List.append_assoc,trimStart_blank_append blank,trimStart_word_append word]
    exact prefix_trimEnd_append word _

theorem trimEnd_of_last (solid : ∀ c ∈ s.getLast?, isWhitespace c = false) : trimEnd s = s := by
  apply List.rdropWhile_eq_self_iff.mpr
  intro nonempty
  have last := solid _ (List.getLast?_eq_some_getLast nonempty)
  simp [last]

theorem last_trimEnd (s : List Char) : ∀ c ∈ (trimEnd s).getLast?, isWhitespace c = false := by
  intro c member
  obtain ⟨nonempty,rfl⟩ := List.mem_getLast?_eq_getLast member
  exact eq_false_of_ne_true (List.rdropWhile_last_not isWhitespace s nonempty)

theorem first_trim (s : List Char) : ∀ c ∈ (trim s).head?, isWhitespace c = false := by
  intro c member
  have part : trim s <+: trimStart s := List.rdropWhile_prefix isWhitespace _
  have first : c ∈ (trimStart s).head? := by
    obtain ⟨rest,whole⟩ := part
    rw [← whole]
    exact List.mem_head?_append_of_mem_head? member
  rw [trimStart] at first
  have solid := List.head?_dropWhile_not isWhitespace s
  rw [Option.mem_def.mp first] at solid
  exact solid

theorem trimEnd_append (front s : List Char) :
    trimEnd (front ++ s) = if trimEnd s = [] then trimEnd front else front ++ trimEnd s := by
  obtain ⟨after,blank,split⟩ := trimEnd_split s
  rw [split,← List.append_assoc,trimEnd_append_blank blank,← split]
  split
  · rename_i empty
    rw [empty,List.append_nil]
  · rename_i solid
    apply trimEnd_of_last
    intro c member
    rw [List.getLast?_append_of_ne_nil _ solid] at member
    exact last_trimEnd s c member

theorem trim_trimEnd (s : List Char) : trim (trimEnd s) = trim s := by
  obtain ⟨after,blank,split⟩ := trimEnd_split s
  have start : trimStart s = if (trimStart (trimEnd s)).isEmpty then trimStart after
      else trimStart (trimEnd s) ++ after :=
    (congrArg trimStart split).trans List.dropWhile_append
  rw [trim,trim,start]
  split
  · rename_i empty
    have nothing : trimStart after = [] := List.dropWhile_eq_nil_iff.mpr blank
    rw [List.isEmpty_iff.mp empty,nothing]
  · rw [trimEnd_append_blank blank]

end Trim

section Pieces

def trimMatches (c : Char) (s : List Char) : List Char :=
  (s.dropWhile fun x => x == c).rdropWhile fun x => x == c

def stripPrefix : List Char → List Char → Option (List Char)
  | [], s => some s
  | _::_, [] => none
  | p::ps, c::s => if p = c then stripPrefix ps s else none

def stripSuffix (ending s : List Char) : Option (List Char) :=
  (stripPrefix ending.reverse s.reverse).map List.reverse

def splitOnce (c : Char) : List Char → Option (List Char × List Char)
  | [] => none
  | x::s => if x = c then some ([],s) else (splitOnce c s).map fun halves => (x::halves.1,halves.2)

theorem splitOnce_append {c : Char} {front : List Char} (absent : c ∉ front) (rest : List Char) :
    splitOnce c (front ++ c :: rest) = some (front,rest) := by
  induction front with
  | nil => simp [splitOnce]
  | cons x front ih =>
    rw [List.mem_cons,not_or] at absent
    obtain ⟨other,absent⟩ := absent
    rw [List.cons_append,splitOnce,if_neg (fun same => other same.symm),ih absent]
    rfl

theorem eq_of_splitOnce {c : Char} {s front rest : List Char}
    (cut : splitOnce c s = some (front,rest)) : s = front ++ c :: rest := by
  induction s generalizing front with
  | nil => contradiction
  | cons x s ih =>
    rw [splitOnce] at cut
    split at cut
    · rename_i here
      cases Option.some.inj cut
      rw [here,List.nil_append]
    · obtain ⟨halves,found,same⟩ := Option.map_eq_some_iff.mp cut
      obtain ⟨rfl,rfl⟩ := Prod.mk.inj same
      rw [List.cons_append,← ih found]

theorem splitOnce_eq_none {c : Char} {s : List Char} (absent : c ∉ s) : splitOnce c s = none := by
  induction s with
  | nil => rfl
  | cons x s ih =>
    rw [List.mem_cons,not_or] at absent
    rw [splitOnce,if_neg (fun same => absent.1 same.symm),ih absent.2]
    rfl

theorem exists_splitOnce {c : Char} {s : List Char} (member : c ∈ s) : ∃ halves, splitOnce c s = some halves := by
  induction s with
  | nil => contradiction
  | cons x s ih =>
    rw [splitOnce]
    split
    · exact ⟨_,rfl⟩
    · rename_i other
      obtain rfl | later := List.mem_cons.mp member
      · contradiction
      · obtain ⟨halves,found⟩ := ih later
        exact ⟨_,congrArg _ found⟩

def split (c : Char) (s : List Char) : List (List Char) := s.splitOn c

def splitWhitespace (s : List Char) : List (List Char) :=
  (s.splitOnP isWhitespace).filter fun piece => !piece.isEmpty

def unended (line : List Char) : List Char := (stripSuffix ['\r'] line).getD line

/-- The last line needs no ending, and loses none: a trailing `\r` of it stays. -/
def linesOf : List (List Char) → List (List Char)
  | [] => []
  | [last] => if last.isEmpty then [] else [last]
  | line::rest => unended line :: linesOf rest

def lines (s : List Char) : List (List Char) := linesOf (split '\n' s)

/-- `read_line`: up to the first end of line, which is part of it. -/
def readLine (s : List Char) : List Char :=
  s.takeWhile (fun c => c != '\n') ++ (s.dropWhile fun c => c != '\n').take 1

def lowerAscii (s : List Char) : List Char := s.map Char.toLower

def eqIgnoreAsciiCase (s t : List Char) : Bool := lowerAscii s == lowerAscii t

end Pieces

section Lines

theorem readLine_ended (s : List Char) :
    readLine (s ++ ['\n']) = s.takeWhile (fun c => c != '\n') ++ ['\n'] := by
  induction s with
  | nil => rfl
  | cons c s ih =>
    by_cases ended : c = '\n'
    · subst ended
      rfl
    · have goes : (c != '\n') = true := by simpa using ended
      unfold readLine at ih ⊢
      simp only [List.cons_append,List.takeWhile_cons,List.dropWhile_cons,goes,if_true]
      exact congrArg (c :: ·) ih

theorem takeWhile_line {s : List Char} (single : '\n' ∉ s) :
    s.takeWhile (fun c => c != '\n') = s := by
  apply List.takeWhile_eq_self_iff.mpr
  intro c member
  simp only [bne_iff_ne]
  rintro rfl
  exact single member

theorem not_mem_takeWhile (s : List Char) : '\n' ∉ s.takeWhile (fun c => c != '\n') := by
  intro member
  have other := List.mem_takeWhile_imp member
  simp at other

variable {line ending s : List Char} {ls : List (List Char)}

theorem stripPrefix_eq_none {c : Char} {start : List Char} (other : s.head? ≠ some c) :
    stripPrefix (c :: start) s = none := by
  cases s with
  | nil => rfl
  | cons x s => exact if_neg fun same => other (congrArg some same.symm)

theorem stripSuffix_eq_none {c : Char} (other : s.getLast? ≠ some c) : stripSuffix (ending ++ [c]) s = none := by
  rw [stripSuffix,List.reverse_append,List.reverse_singleton,List.singleton_append,stripPrefix_eq_none]
  · rfl
  · rwa [List.head?_reverse]

theorem stripPrefix_append (start rest : List Char) : stripPrefix start (start ++ rest) = some rest := by
  induction start with
  | nil => rfl
  | cons c start ih => exact (if_pos rfl).trans ih

theorem stripPrefix_some {start rest s : List Char} (cut : stripPrefix start s = some rest) : s = start ++ rest := by
  induction start generalizing s with
  | nil => exact Option.some.inj cut
  | cons c start ih =>
    cases s with
    | nil => contradiction
    | cons d s =>
      rw [stripPrefix] at cut
      split at cut
      · rename_i same
        rw [same,ih cut]
        rfl
      · contradiction

theorem stripSuffix_some {front s : List Char} (cut : stripSuffix ending s = some front) : s = front ++ ending := by
  obtain ⟨reversed,started,rfl⟩ := Option.map_eq_some_iff.mp cut
  have whole := congrArg List.reverse (stripPrefix_some started)
  simpa using whole

theorem unended_same (absent : '\r' ∉ line) : unended line = line := by
  have other : line.getLast? ≠ some '\r' := fun last => absent (List.mem_of_mem_getLast? last)
  rw [unended,show ['\r'] = [] ++ ['\r'] from rfl,stripSuffix_eq_none other]
  rfl

theorem lines_cons_unended (single : '\n' ∉ line) (rest : List Char) :
    lines (line ++ '\n' :: rest) = unended line :: lines rest := by
  have here : split '\n' (line ++ '\n' :: rest) = line :: split '\n' rest :=
    List.splitOnP_append_cons_of_forall_mem (by grind) '\n' (by decide) rest
  obtain ⟨next,more,pieces⟩ := List.exists_cons_of_ne_nil (List.splitOnP_ne_nil (· == '\n') rest)
  rw [lines,here,lines]
  change linesOf (line :: List.splitOnP (· == '\n') rest) = unended line :: linesOf (List.splitOnP (· == '\n') rest)
  rw [pieces,linesOf]
  simp

theorem lines_cons (single : '\n' ∉ line) (plain : '\r' ∉ line) (rest : List Char) :
    lines (line ++ '\n' :: rest) = line :: lines rest := by
  rw [lines_cons_unended single,unended_same plain]

/-- Lines written one after the other are read again. -/
theorem lines_flatMap (single : ∀ line ∈ ls, '\n' ∉ line ∧ '\r' ∉ line) :
    lines (ls.flatMap fun line => line ++ ['\n']) = ls := by
  induction ls with
  | nil => rfl
  | cons line ls ih =>
    obtain ⟨ended,plain⟩ := single line List.mem_cons_self
    have others := ih fun l member => single l (List.mem_cons_of_mem _ member)
    rw [List.flatMap_cons,List.append_assoc,List.singleton_append,lines_cons ended plain,others]

/-- Joined and ended with a separator, every piece ends with one. -/
theorem intercalate_ended (c : Char) {pieces : List (List Char)} (nonempty : pieces ≠ []) :
    [c].intercalate pieces ++ [c] = pieces.flatMap fun piece => piece ++ [c] := by
  induction pieces with
  | nil => contradiction
  | cons piece pieces ih =>
    cases pieces with
    | nil => simp
    | cons next pieces =>
      rw [List.intercalate_cons_cons,List.append_assoc,ih (List.cons_ne_nil _ _)]
      simp only [List.flatMap_cons]

/-- Pieces joined with a separator come apart again; empty ones are left out when there are none. -/
theorem split_intercalate {c : Char} {pieces : List (List Char)} (apart : ∀ piece ∈ pieces, piece ≠ [] ∧ c ∉ piece) :
    ((split c ([c].intercalate pieces)).filter fun piece => !piece.isEmpty) = pieces := by
  cases pieces with
  | nil => rfl
  | cons piece pieces =>
    rw [split,List.splitOn_intercalate _ (fun piece member => (apart piece member).2) (by simp)]
    apply List.filter_eq_self.mpr
    intro piece member
    simpa using (apart piece member).1

theorem trimMatches_same {c : Char} (absent : c ∉ s) : trimMatches c s = s := by
  have kept : ∀ (p : Char → Bool) (t : List Char), (∀ x ∈ t.head?, p x = false) → t.dropWhile p = t := by
    intro p t first
    cases t with
    | nil => rfl
    | cons x t => exact List.dropWhile_cons_of_neg (by simpa using first x rfl)
  have other : ∀ x ∈ s, (x == c) = false := by grind
  rw [trimMatches,kept _ s (fun x member => other x (List.mem_of_mem_head? member)),List.rdropWhile,
    kept _ s.reverse (fun x member => other x (List.mem_reverse.mp (List.mem_of_mem_head? member))),List.reverse_reverse]

end Lines

section Words
variable {w s piece : List Char} {words : List (List Char)}

structure Solid (w : List Char) : Prop where
  nonempty : w ≠ []
  solid : ∀ c ∈ w, isWhitespace c = false

theorem Solid.word (h : Solid w) : Word w where
  first c member := h.solid c (List.mem_of_mem_head? member)
  last c member := h.solid c (List.mem_of_mem_getLast? member)
  nonempty := h.nonempty

theorem solid_of_all (nonempty : w ≠ []) (all : (w.all fun c => !isWhitespace c) = true) : Solid w where
  nonempty := nonempty
  solid c member := by simpa using List.all_eq_true.mp all c member

theorem not_mem_of_mem_splitOnP {p : Char → Bool} (member : piece ∈ s.splitOnP p) :
    ∀ c ∈ piece, p c = false := by
  induction s generalizing piece with
  | nil =>
    rw [List.splitOnP_nil,List.mem_singleton] at member
    simp [member]
  | cons x s ih =>
    rw [List.splitOnP_cons_eq_if_modifyHead] at member
    split at member
    · rcases List.mem_cons.mp member with rfl | later
      · simp
      · exact ih later
    · rename_i other
      obtain ⟨head,tail,pieces⟩ := List.exists_cons_of_ne_nil (List.splitOnP_ne_nil p s)
      rw [pieces] at member ih
      rcases List.mem_cons.mp member with rfl | later
      · intro c inside
        rcases List.mem_cons.mp inside with rfl | inside
        · simpa using other
        · exact ih (List.mem_cons_self) c inside
      · exact ih (List.mem_cons_of_mem _ later)

theorem solid_of_mem_splitWhitespace (member : piece ∈ splitWhitespace s) : Solid piece := by
  obtain ⟨inside,nonempty⟩ := List.mem_filter.mp member
  exact ⟨by simpa using nonempty,not_mem_of_mem_splitOnP inside⟩

theorem splitWhitespace_cons (solid : Solid w) (rest : List Char) :
    splitWhitespace (w ++ ' ' :: rest) = w :: splitWhitespace rest := by
  have nonempty : w.isEmpty = false := by simpa using solid.nonempty
  rw [splitWhitespace,List.splitOnP_append_cons_of_forall_mem solid.solid ' ' (by decide),
    List.filter_cons_of_pos (by simp [nonempty])]
  rfl

theorem splitWhitespace_solid (solid : Solid w) : splitWhitespace w = [w] := by
  have nonempty : w.isEmpty = false := by simpa using solid.nonempty
  rw [splitWhitespace,List.splitOnP_eq_singleton solid.solid,List.filter_cons_of_pos (by simp [nonempty])]
  rfl

theorem blank_of_splitWhitespace (nothing : splitWhitespace s = []) : Blank s := by
  induction s with
  | nil => simp [Blank]
  | cons x s ih =>
    rw [splitWhitespace,List.splitOnP_cons_eq_if_modifyHead] at nothing
    split at nothing
    · rename_i white
      rw [List.filter_cons_of_neg (by simp)] at nothing
      intro c member
      rcases List.mem_cons.mp member with rfl | later
      · exact white
      · exact ih nothing c later
    · obtain ⟨head,tail,pieces⟩ := List.exists_cons_of_ne_nil (List.splitOnP_ne_nil isWhitespace s)
      rw [pieces,List.modifyHead_cons,List.filter_cons_of_pos (by simp)] at nothing
      contradiction

/-- What is trimmed and not empty has a word in it. -/
theorem splitWhitespace_trim (nonempty : trim s ≠ []) : splitWhitespace (trim s) ≠ [] := by
  intro nothing
  have last := List.getLast?_eq_some_getLast nonempty
  have white := blank_of_splitWhitespace nothing _ (List.mem_of_mem_getLast? last)
  rw [last_trimEnd _ _ last] at white
  contradiction

/-- Words joined with blanks come apart again. -/
theorem splitWhitespace_intercalate (solid : ∀ w ∈ words, Solid w) :
    splitWhitespace ([' '].intercalate words) = words := by
  induction words with
  | nil => rfl
  | cons w words ih =>
    have first : Solid w := solid w List.mem_cons_self
    have others := ih fun w member => solid w (List.mem_cons_of_mem _ member)
    cases words with
    | nil =>
      rw [List.intercalate_singleton]
      exact splitWhitespace_solid first
    | cons next words =>
      rw [List.intercalate_cons_cons,List.append_assoc,List.singleton_append,
        splitWhitespace_cons first,others]

theorem mem_intercalate {c between : Char} (member : c ∈ [between].intercalate words) :
    c = between ∨ ∃ w ∈ words, c ∈ w := by
  induction words with
  | nil => contradiction
  | cons w words ih =>
    cases words with
    | nil =>
      rw [List.intercalate_singleton] at member
      exact .inr ⟨w,List.mem_cons_self,member⟩
    | cons next words =>
      rw [List.intercalate_cons_cons,List.append_assoc] at member
      rcases List.mem_append.mp member with here | later
      · exact .inr ⟨w,List.mem_cons_self,here⟩
      · rcases List.mem_cons.mp later with blank | later
        · exact .inl blank
        · rcases ih later with blank | ⟨w',inside,here⟩
          · exact .inl blank
          · exact .inr ⟨w',List.mem_cons_of_mem _ inside,here⟩

theorem word_intercalate (solid : ∀ w ∈ words, Solid w) (nonempty : words ≠ []) :
    Word ([' '].intercalate words) := by
  induction words with
  | nil => exact absurd rfl nonempty
  | cons w words ih =>
    have first : Solid w := solid w List.mem_cons_self
    have others := ih fun w member => solid w (List.mem_cons_of_mem _ member)
    cases words with
    | nil =>
      rw [List.intercalate_singleton]
      exact first.word
    | cons next words =>
      have rest : Word ([' '].intercalate (next::words)) := others (by simp)
      rw [List.intercalate_cons_cons,List.append_assoc]
      refine ⟨?_,?_,?_⟩
      · rw [List.head?_append_of_ne_nil _ first.nonempty]
        exact first.word.first
      · rw [← List.append_assoc,List.getLast?_append_of_ne_nil _ rest.nonempty]
        exact rest.last
      · simp [first.nonempty]

end Words

section Numbers

def digit (c : Char) : Option Nat := if c.isDigit then some (c.toNat - '0'.toNat) else none

def digits (s : List Char) : Option Nat :=
  if s.isEmpty then none
  else s.foldl (fun sum c => sum.bind fun n => (digit c).map fun d => 10*n + d) (some 0)

def parseUnsigned (bits : Nat) (s : List Char) : Option Nat :=
  (match s with
    | '+'::rest => digits rest
    | _ => digits s).filter fun n => n < 2^bits

def parseSigned (bits : Nat) (s : List Char) : Option Int :=
  match s with
  | '-'::rest => ((digits rest).filter fun n => n ≤ 2^(bits-1)).map fun n => -(n : Int)
  | '+'::rest => ((digits rest).filter fun n => n < 2^(bits-1)).map fun n => (n : Int)
  | _ => ((digits s).filter fun n => n < 2^(bits-1)).map fun n => (n : Int)

variable {n bits : Nat}

/-- Decimal digits, at least one, behind an optional plus. -/
def Numeral (s : List Char) (n : Nat) : Prop :=
  ∃ sign figures, (sign = [] ∨ sign = ['+']) ∧ digits figures = some n ∧ s = sign ++ figures

theorem figures_of_sum {figures : List Char} {start : Option Nat} (sum : figures.foldl
    (fun sum c => sum.bind fun n => (digit c).map fun d => 10*n + d) start = some n) :
    start.isSome ∧ ∀ c ∈ figures, c.isDigit = true := by
  induction figures generalizing start with
  | nil =>
    rw [List.foldl_nil] at sum
    exact ⟨sum ▸ rfl,fun c member => nomatch member⟩
  | cons c figures ih =>
    obtain ⟨within,others⟩ := ih sum
    obtain ⟨next,step⟩ := Option.isSome_iff_exists.mp within
    obtain ⟨m,rfl,step⟩ := Option.bind_eq_some_iff.mp step
    obtain ⟨d,figure,-⟩ := Option.map_eq_some_iff.mp step
    have decimal : c.isDigit = true := by
      rw [digit] at figure
      split at figure
      · assumption
      · contradiction
    exact ⟨rfl,List.forall_mem_cons.mpr ⟨decimal,others⟩⟩

theorem figures_of_digits {figures : List Char} (read : digits figures = some n) :
    figures ≠ [] ∧ ∀ c ∈ figures, c.isDigit = true := by
  rw [digits] at read
  split at read
  · contradiction
  · rename_i nonempty
    exact ⟨fun empty => nonempty (empty ▸ rfl),(figures_of_sum read).2⟩

theorem parseUnsigned_eq_some_iff {s : List Char} :
    parseUnsigned bits s = some n ↔ Numeral s n ∧ n < 2^bits := by
  unfold parseUnsigned
  rw [Option.filter_eq_some_iff,decide_eq_true_eq]
  apply and_congr_left'
  split
  · rename_i rest
    constructor
    · intro read
      exact ⟨['+'],rest,.inr rfl,read,rfl⟩
    · rintro ⟨sign,figures,rfl | rfl,read,whole⟩
      · have plus : '+' ∈ figures := by
          rw [List.nil_append] at whole
          exact whole ▸ List.mem_cons_self
        exact absurd ((figures_of_digits read).2 _ plus) (by decide)
      · obtain rfl : rest = figures := (List.cons.inj whole).2
        exact read
  · rename_i unsigned
    constructor
    · intro read
      exact ⟨[],s,.inl rfl,read,rfl⟩
    · rintro ⟨sign,figures,rfl | rfl,read,rfl⟩
      · exact read
      · exact absurd rfl (unsigned figures)

theorem not_isWhitespace_of_isDigit {c : Char} (digit : c.isDigit = true) : isWhitespace c = false := by
  simp only [Char.isDigit,Bool.and_eq_true,decide_eq_true_eq,UInt32.le_iff_toNat_le,ge_iff_le] at digit
  have low : 48 ≤ c.toNat := digit.1
  have high : c.toNat ≤ 57 := digit.2
  simp only [isWhitespace,Bool.or_eq_false_iff,Bool.and_eq_false_iff,decide_eq_false_iff_not,beq_eq_false_iff_ne]
  omega

theorem Numeral.solid {s : List Char} (numeral : Numeral s n) : Solid s := by
  obtain ⟨sign,figures,signs,read,rfl⟩ := numeral
  obtain ⟨nonempty,decimal⟩ := figures_of_digits read
  constructor
  · exact List.append_ne_nil_of_right_ne_nil sign nonempty
  · intro c member
    rcases List.mem_append.mp member with signed | figure
    · obtain rfl | rfl := signs
      · contradiction
      · obtain rfl := List.mem_singleton.mp signed
        decide
    · exact not_isWhitespace_of_isDigit (decimal c figure)

theorem Numeral.last {s : List Char} (numeral : Numeral s n) : ∀ c ∈ s.getLast?, c.isDigit = true := by
  obtain ⟨sign,figures,-,read,rfl⟩ := numeral
  obtain ⟨nonempty,decimal⟩ := figures_of_digits read
  intro c member
  rw [List.getLast?_append_of_ne_nil _ nonempty] at member
  exact decimal c (List.mem_of_mem_getLast? member)

theorem digit_digitChar : ∀ n < 10, digit n.digitChar = some n := by decide

theorem foldl_toDigits (n : Nat) : (Nat.toDigits 10 n).foldl
    (fun sum c => sum.bind fun n => (digit c).map fun d => 10*n + d) (some 0) = some n := by
  induction n using Nat.strong_induction_on with
  | _ n ih =>
    by_cases small : n < 10
    · rw [Nat.toDigits_of_lt_base small,List.foldl_cons,List.foldl_nil,digit_digitChar n small]
      simp
    · rw [Nat.toDigits_of_base_le (by omega) (by omega),List.foldl_append,ih (n/10) (by omega),List.foldl_cons,
        List.foldl_nil,digit_digitChar _ (Nat.mod_lt n (by omega))]
      simp only [Option.bind_some,Option.map_some,Option.some.injEq]
      omega

theorem digits_toDigits (n : Nat) : digits (Nat.toDigits 10 n) = some n := by
  rw [digits,if_neg (by simp [Nat.toDigits_ne_nil]),foldl_toDigits]

theorem isDigit_of_mem_toDigits {c : Char} (member : c ∈ Nat.toDigits 10 n) : c.isDigit = true :=
  Nat.isDigit_of_mem_toDigits (by omega) (by omega) member

theorem parseUnsigned_toDigits (fits : n < 2^bits) : parseUnsigned bits (Nat.toDigits 10 n) = some n := by
  unfold parseUnsigned
  split
  · rename_i rest plus
    have sign : '+' ∈ Nat.toDigits 10 n := plus ▸ List.mem_cons_self
    exact absurd (isDigit_of_mem_toDigits sign) (by decide)
  · rw [digits_toDigits]
    simpa using fits

def printSigned (i : Int) : List Char :=
  if i < 0 then '-' :: Nat.toDigits 10 i.natAbs else Nat.toDigits 10 i.natAbs

theorem parseSigned_printSigned {i : Int} (low : -((2^(bits-1) : Nat) : Int) ≤ i) (high : i < (2^(bits-1) : Nat)) :
    parseSigned bits (printSigned i) = some i := by
  unfold printSigned
  split
  · rename_i negative
    have fits : i.natAbs ≤ 2^(bits-1) := by
      generalize 2^(bits-1) = bound at low high
      omega
    have kept : (some i.natAbs).filter (fun n => n ≤ 2^(bits-1)) = some i.natAbs := by simpa using fits
    rw [parseSigned,digits_toDigits,kept]
    exact congrArg some (show -(i.natAbs : Int) = i by omega)
  · rename_i positive
    have fits : i.natAbs < 2^(bits-1) := by
      generalize 2^(bits-1) = bound at low high
      omega
    have kept : (some i.natAbs).filter (fun n => n < 2^(bits-1)) = some i.natAbs := by simpa using fits
    have unsigned : ∀ rest, Nat.toDigits 10 i.natAbs ≠ '-' :: rest ∧ Nat.toDigits 10 i.natAbs ≠ '+' :: rest := by
      intro rest
      constructor
      · intro sign
        exact absurd (isDigit_of_mem_toDigits (sign ▸ List.mem_cons_self)) (by decide)
      · intro sign
        exact absurd (isDigit_of_mem_toDigits (sign ▸ List.mem_cons_self)) (by decide)
    unfold parseSigned
    split
    · rename_i rest minus
      exact absurd minus (unsigned rest).1
    · rename_i rest plus
      exact absurd plus (unsigned rest).2
    · rw [digits_toDigits,kept]
      exact congrArg some (show (i.natAbs : Int) = i by omega)

end Numbers

section Bytes

def decode (bytes : ByteArray) : Option (List Char) := (String.fromUTF8? bytes).map String.toList

theorem decode_eq_some_iff {bytes : ByteArray} {s : List Char} :
    decode bytes = some s ↔ bytes = s.utf8Encode := by
  unfold decode String.fromUTF8?
  split
  · rename_i valid
    rw [Option.map_some,Option.some.injEq]
    constructor
    · rintro rfl
      rw [String.utf8Encode_toList]
      rfl
    · rintro rfl
      exact String.toList_ofList
  · rename_i invalid
    constructor
    · intro absurdity
      contradiction
    · rintro rfl
      exact absurd ByteArray.isValidUTF8_utf8Encode invalid

theorem utf8Encode_inj {s t : List Char} (same : s.utf8Encode = t.utf8Encode) : s = t := by
  have left := decode_eq_some_iff.mpr (rfl : s.utf8Encode = s.utf8Encode)
  have right := decode_eq_some_iff.mpr same
  rw [left] at right
  exact Option.some.inj right

theorem isSome_decode_iff {bytes : ByteArray} : (decode bytes).isSome ↔ bytes.IsValidUTF8 := by
  unfold decode String.fromUTF8?
  split <;> simp_all

end Bytes
end Text
