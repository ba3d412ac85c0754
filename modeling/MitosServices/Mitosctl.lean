import MitosServices.Ipc

/-! The command-line client and what the server makes of its line. The words are joined with blanks
and nothing is quoted, so only words without white space arrive as they were typed. -/
namespace MitosServices.Mitosctl
open Interaction.Program Text

/-- `to_uppercase` of a command word: the commands are of ASCII letters. -/
def toUppercase (word : List Char) : List Char := word.map Char.toUpper

def line (args : List String) : List Char :=
  let command := args.head?.getD "status"
  let rest := args.tail
  if rest.isEmpty then toUppercase command.toList
  else toUppercase command.toList ++ ' ' :: [' '].intercalate (rest.map String.toList)

def message (args : List String) : List Char := line args ++ ['\n']

def asked (args : List String) : Option Ipc.Op := (Ipc.respond (readLine (message args))).next?

section Received
variable {command : String} {word text : List Char}

theorem splitCommand_line (solid : Solid word) (text : List Char) :
    Ipc.splitCommand (word ++ ' ' :: text ++ ['\n']) = (word,trim text) := by
  have whole : trim (word ++ ' ' :: text ++ ['\n']) =
      if trimEnd text = [] then word else word ++ ' ' :: trimEnd text := by
    have apart : word ++ ' ' :: text ++ ['\n'] = (word ++ [' ']) ++ (text ++ ['\n']) := by simp
    rw [trim,List.append_assoc,trimStart_word_append solid.word,← List.append_assoc,apart,
      trimEnd_append,trimEnd_append_blank (by simp [Blank,isWhitespace])]
    split
    · rw [trimEnd_append_blank (by simp [Blank,isWhitespace]),trimEnd_word solid.word]
    · simp
  have absent : ' ' ∉ word := by
    intro member
    have white := solid.solid ' ' member
    contradiction
  rw [← trim_trimEnd text,Ipc.splitCommand,whole]
  split
  · rename_i empty
    rw [empty,splitOnce_eq_none absent]
    rfl
  · rw [splitOnce_append absent]
    rfl

theorem asked_eq (command : String) {first : String} {others : List String}
    (solid : Solid (toUppercase command.toList)) :
    asked (command::first::others) =
      (Ipc.answer (String.ofList (toUppercase command.toList))
        (trim (([' '].intercalate ((first::others).map String.toList)).takeWhile fun c => c != '\n'))).next? := by
  have plain : ∀ c ∈ toUppercase command.toList ++ [' '], (c != '\n') = true := by
    intro c member
    rcases List.mem_append.mp member with inside | blank
    · have solid := solid.solid c inside
      simp only [bne_iff_ne]
      rintro rfl
      contradiction
    · rw [List.mem_singleton.mp blank]
      rfl
  have received : readLine (message (command::first::others)) =
      toUppercase command.toList ++ ' ' ::
        ([' '].intercalate ((first::others).map String.toList)).takeWhile (fun c => c != '\n') ++ ['\n'] := by
    have apart : line (command::first::others) =
        (toUppercase command.toList ++ [' ']) ++ [' '].intercalate ((first::others).map String.toList) := by
      simp [line]
    rw [message,readLine_ended,apart,List.takeWhile_append_of_pos plain]
    simp
  rw [asked,received,Ipc.respond,splitCommand_line solid]

end Received

section Arrival

def Intact (word : String) : Prop := Solid word.toList

theorem intact_split {rest : List Char} {words : List String}
    (split : (splitWhitespace rest).map String.ofList = words) : ∀ word ∈ words, Intact word := by
  intro word member
  rw [← split,List.mem_map] at member
  obtain ⟨piece,inside,rfl⟩ := member
  rw [Intact,String.toList_ofList]
  exact solid_of_mem_splitWhitespace inside

/-- All of the words, up to the first end of line in them. -/
def arriving (words : List String) : List Char :=
  trim (([' '].intercalate (words.map String.toList)).takeWhile fun c => c != '\n')

theorem arriving_intact {words : List String} (intact : ∀ word ∈ words, Intact word)
    (nonempty : words ≠ []) : arriving words = [' '].intercalate (words.map String.toList) := by
  have solid : ∀ w ∈ words.map String.toList, Solid w := by
    intro w member
    obtain ⟨word,inside,rfl⟩ := List.mem_map.mp member
    exact intact word inside
  have single : '\n' ∉ [' '].intercalate (words.map String.toList) := by
    intro member
    rcases mem_intercalate member with blank | ⟨w,inside,ended⟩
    · contradiction
    · have white := (solid w inside).solid '\n' ended
      contradiction
  rw [arriving,takeWhile_line single,trim_word (word_intercalate solid (by simpa using nonempty))]

theorem arriving_single {text : String} : String.ofList (arriving [text]) = text ↔
    '\n' ∉ text.toList ∧ trim text.toList = text.toList := by
  have whole : arriving [text] = trim (text.toList.takeWhile fun c => c != '\n') := by
    rw [arriving,List.map_singleton,List.intercalate_singleton]
  rw [whole,← String.toList_inj,String.toList_ofList]
  constructor
  · intro same
    have single : '\n' ∉ text.toList := by
      rw [← same]
      exact fun member => not_mem_takeWhile _ (mem_of_mem_trim member)
    rw [takeWhile_line single] at same
    exact ⟨single,same⟩
  · intro ⟨single,trimmed⟩
    rw [takeWhile_line single,trimmed]

theorem asked_isolate (name : String) : asked ["isolate",name] =
    if (arriving [name]).isEmpty then none
    else some (.requestIsolate (String.ofList (arriving [name]))) := by
  have command : String.ofList (toUppercase "isolate".toList) = "ISOLATE" := by decide
  rw [asked_eq "isolate" (solid_of_all (by decide) (by decide)),command]
  change (if (arriving [name]).isEmpty then _ else _ : Ipc.Code String).next? = _
  split <;> rfl

theorem asked_logs (filter : String) : asked ["logs",filter] =
    some (.recent (String.ofList (arriving [filter]))) := by
  have command : String.ofList (toUppercase "logs".toList) = "LOGS" := by decide
  rw [asked_eq "logs" (solid_of_all (by decide) (by decide)),command]
  rfl

theorem asked_launch (path : String) (args : List String) : asked ("launch"::path::args) =
    if (arriving (path::args)).isEmpty then none
    else some (.launch (((splitWhitespace (arriving (path::args))).map String.ofList).head?.getD "")
      ((splitWhitespace (arriving (path::args))).map String.ofList).tail) := by
  have command : String.ofList (toUppercase "launch".toList) = "LAUNCH" := by decide
  rw [asked_eq "launch" (solid_of_all (by decide) (by decide)),command]
  change (if (arriving (path::args)).isEmpty then _ else _ : Ipc.Code String).next? = _
  split <;> rfl

theorem asked_launch_iff (path : String) (args : List String) :
    asked ("launch"::path::args) = some (.launch path args) ↔ ∀ word ∈ path::args, Intact word := by
  rw [asked_launch]
  constructor
  · intro there
    split at there
    · contradiction
    · rename_i something
      have found : splitWhitespace (arriving (path::args)) ≠ [] :=
        splitWhitespace_trim fun empty => something (List.isEmpty_iff.mpr empty)
      obtain ⟨first,others,pieces⟩ := List.exists_cons_of_ne_nil found
      rw [pieces] at there
      simp only [List.map_cons,List.head?_cons,Option.getD_some,List.tail_cons,Option.some.injEq,
        Ipc.Op.launch.injEq] at there
      apply @intact_split (arriving (path::args))
      rw [pieces,List.map_cons,there.1,there.2]
  · intro intact
    have arrived := arriving_intact intact (by simp)
    have solid : ∀ w ∈ (path::args).map String.toList, Solid w := by
      intro w member
      obtain ⟨word,inside,rfl⟩ := List.mem_map.mp member
      exact intact word inside
    have nonempty := (word_intercalate solid (by simp)).nonempty
    rw [arrived,splitWhitespace_intercalate solid,List.map_map,if_neg (by simpa using nonempty)]
    simp [Function.comp_def]

end Arrival

/-- The client's words arrive just when no white space is lost or taken for a separator. -/
theorem forwards_iff (path : String) (args : List String) (name filter : String) :
    (asked ("launch"::path::args) = some (.launch path args) ↔ ∀ word ∈ path::args, Intact word) ∧
    (asked ["isolate",name] = some (.requestIsolate name) ↔
      name ≠ "" ∧ '\n' ∉ name.toList ∧ trim name.toList = name.toList) ∧
    (asked ["logs",filter] = some (.recent filter) ↔
      '\n' ∉ filter.toList ∧ trim filter.toList = filter.toList) := by
  refine ⟨asked_launch_iff path args,?_,?_⟩
  · rw [asked_isolate,← arriving_single]
    constructor
    · intro there
      split at there
      · contradiction
      · rename_i something
        have same : String.ofList (arriving [name]) = name := by simpa using there
        refine ⟨?_,same⟩
        rintro rfl
        exact something (by decide)
    · intro ⟨nonempty,same⟩
      rw [same,if_neg]
      intro empty
      apply nonempty
      rw [← same,List.isEmpty_iff.mp empty]
  · rw [asked_logs,← arriving_single]
    simp

/-- A path with a blank in it is launched as another path and an argument. -/
theorem loses_blanks : asked ["launch","/opt/My App/run"] ≠ some (.launch "/opt/My App/run" []) ∧
    asked ["launch","/opt/My App/run"] = some (.launch "/opt/My" ["App/run"]) := by
  have there : asked ["launch","/opt/My App/run"] = some (.launch "/opt/My" ["App/run"]) := by decide
  refine ⟨?_,there⟩
  rw [there]
  decide

end MitosServices.Mitosctl
