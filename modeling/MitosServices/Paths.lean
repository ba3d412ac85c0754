import MitosServices.Text

/-! Paths as text, and the directories they lead to: `PathBuf::join`, and the way a kernel walks a
path where nothing is a symbolic link. -/
namespace Paths

abbrev Dir := List (List Char)

def walk (dir : Dir) (piece : List Char) : Dir :=
  if piece = [] ∨ piece = ['.'] then dir
  else if piece = ['.','.'] then dir.dropLast
  else dir ++ [piece]

def follow (dir : Dir) (path : List Char) : Dir := (Text.split '/' path).foldl walk dir

def isAbsolute (path : List Char) : Bool := path.head? == some '/'

def resolve (path : List Char) : Dir := follow [] path

/-- An absolute second half replaces the first. -/
def join (path name : List Char) : List Char :=
  if isAbsolute name then name
  else if path = [] ∨ path.getLast? = some '/' then path ++ name
  else path ++ '/' :: name

/-- A name that is one piece of a path and leads into a directory of that name. -/
structure Plain (piece : List Char) : Prop where
  nonempty : piece ≠ []
  solid : '/' ∉ piece
  current : piece ≠ ['.']
  parent : piece ≠ ['.','.']

variable {dir : Dir} {path name piece : List Char}

theorem follow_nil (dir : Dir) : follow dir [] = dir := rfl

theorem follow_append (dir : Dir) (path rest : List Char) :
    follow dir (path ++ '/' :: rest) = follow (follow dir path) rest := by
  unfold follow Text.split
  rw [List.splitOn_append_cons_self,List.foldl_append]

theorem follow_plain (plain : Plain piece) : follow dir piece = dir ++ [piece] := by
  unfold follow Text.split
  rw [List.splitOn_eq_singleton plain.solid,List.foldl_cons,List.foldl_nil,walk,if_neg,
    if_neg plain.parent]
  rintro (empty | current)
  · exact plain.nonempty empty
  · exact plain.current current

theorem not_isAbsolute_of_plain (plain : Plain piece) : isAbsolute piece = false := by
  cases piece with
  | nil => rfl
  | cons c rest =>
    have other : c ≠ '/' := fun same => plain.solid (by simp [same])
    simpa [isAbsolute] using other

theorem resolve_join (path name : List Char) : resolve (join path name) =
    if isAbsolute name then resolve name else follow (resolve path) name := by
  unfold join
  split
  · rfl
  · split
    · rename_i ended
      rcases ended with rfl | ended
      · rfl
      · obtain ⟨front,rfl⟩ := List.getLast?_eq_some_iff.mp ended
        rw [List.append_assoc,List.singleton_append,resolve,resolve,follow_append,follow_append,
          follow_nil]
    · exact follow_append [] path name

theorem resolve_join_plain (plain : Plain name) : resolve (join path name) = resolve path ++ [name] := by
  rw [resolve_join,not_isAbsolute_of_plain plain,if_neg Bool.false_ne_true,follow_plain plain]

end Paths
