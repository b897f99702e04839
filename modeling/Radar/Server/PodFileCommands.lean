import Radar.Ai.Assemble
import Radar.Base.Operands
import Radar.Base.ShellWords
import Radar.Base.SlashPath

/- internal/server/copy.go: the commands that the pod file browser runs in a container, and how the shell and
   the programs read them. A text is its bytes. -/
namespace PodFileCommands
open Assemble (Bytes bytes)
open Operands (Arg Searching arguments bundled operands)

section Commands

def pathSigns : SlashPath.Signs UInt8 := ⟨0x2f, 0x2e, by decide⟩

/-- path.Clean. -/
def clean (text : Bytes) : Bytes := SlashPath.clean pathSigns text

def shellQuote (s : Bytes) : Bytes :=
  bytes "'" ++ s.flatMap (fun c => if c = 0x27 then bytes "'\\''" else [c]) ++ bytes "'"

/-- The path that a listing is asked for. -/
def dirPathOf (query : Bytes) : Bytes := clean (if query = [] then bytes "/" else query)

def printFormat : Bytes := bytes "%y\\t%s\\t%T@\\t%m\\t%p\\n"

def shell (line : Bytes) : List Bytes := [bytes "/bin/sh", bytes "-c", line]

def findCommand (dirPath : Bytes) : List Bytes :=
  shell (bytes "find " ++ shellQuote dirPath ++ bytes " -maxdepth 1 -printf '%y\\t%s\\t%T@\\t%m\\t%p\\n'")

def lsCommand (dirPath : Bytes) : List Bytes := shell (bytes "ls -la " ++ shellQuote dirPath)

/-- The path that a download is asked for; without one the request is refused. -/
def filePathOf (query : Bytes) : Option Bytes := if query = [] then none else some (clean query)

def tarCommand (filePath : Bytes) : List Bytes :=
  [bytes "tar", bytes "cf", bytes "-", bytes "-C", SlashPath.dir pathSigns filePath,
    SlashPath.base pathSigns filePath]

def catCommand (filePath : Bytes) : List Bytes := [bytes "cat", filePath]

end Commands

section Readings

/-- Every character that a POSIX shell may act on is active. -/
def shellSigns : ShellWords.Signs UInt8 where
  single := 0x27
  double := 0x22
  escape := 0x5c
  newline := 0x0a
  blank c := c = 0x20 ∨ c = 0x09
  active c := c ∈ bytes "|&;<>()$`\n*?[]#~=%!\x7b\x7d^"
  live c := c ∈ bytes "$`"
  single_double := by decide
  escape_single := by decide
  escape_double := by decide
  single_newline := by decide

/-- The program and its arguments that a command comes to. -/
def execute (command : List Bytes) : Option (List Bytes) := match command with
  | [program, flag, line] =>
    if program = bytes "/bin/sh" ∧ flag = bytes "-c" then ShellWords.words shellSigns line else some command
  | _ => some command

def dash : UInt8 := 0x2d

/-- find: options, starting points, and an expression from the first word with a dash in front, or a lone
    parenthesis or exclamation mark. -/
def finding : Searching UInt8 where
  dash := dash
  flag word := word ∈ [bytes "-H", bytes "-L", bytes "-P"] ∨ (bytes "-O").isPrefixOf word
  pair word := word = bytes "-D"
  operator word := word = bytes "(" ∨ word = bytes "!"
  flag_dash := by
    intro word flag
    rcases of_decide_eq_true flag with listed | level
    · simp only [List.mem_cons, List.not_mem_nil, or_false] at listed
      rcases listed with rfl | rfl | rfl <;> rfl
    · obtain ⟨rest, rfl⟩ := List.isPrefixOf_iff_prefix.mp level
      rfl
  pair_dash := by
    intro word pair
    rw [of_decide_eq_true pair]
    rfl

def lsTakes (letter : UInt8) : Bool := letter ∈ bytes "ITw"

def tarTakes (letter : UInt8) : Bool := letter ∈ bytes "bCfFgHIKLNTVX"

def catTakes (_ : UInt8) : Bool := false

def findExpression : List Bytes := [bytes "-maxdepth", bytes "1", bytes "-printf", printFormat]

variable (permute : Bool)

/-- The command comes to find, whose only starting point is the path. -/
def FindReads (dirPath : Bytes) : Prop :=
  execute (findCommand dirPath) = some (bytes "find" :: dirPath :: findExpression) ∧
    finding.divide (dirPath :: findExpression) = ([dirPath], findExpression)

def LsReads (dirPath : Bytes) : Prop :=
  execute (lsCommand dirPath) = some [bytes "ls", bytes "-la", dirPath] ∧
    (arguments dash lsTakes permute none [bytes "-la", dirPath]).map operands = some [dirPath]

/-- The command comes to tar, whose only operand is the last element, in the directory that has the path there. -/
def TarReads (filePath : Bytes) : Prop := let dir := SlashPath.dir pathSigns filePath
  let base := SlashPath.base pathSigns filePath
  clean (dir ++ bytes "/" ++ base) = filePath ∧
    execute (tarCommand filePath) = some [bytes "tar", bytes "cf", bytes "-", bytes "-C", dir, base] ∧
    (bundled dash tarTakes permute (bytes "cf") [bytes "-", bytes "-C", dir, base]).map operands = some [base]

def CatReads (filePath : Bytes) : Prop := execute (catCommand filePath) = some [bytes "cat", filePath] ∧
    (arguments dash catTakes permute none [filePath]).map operands = some [filePath]

def Listing (query : Bytes) : Prop := FindReads (dirPathOf query) ∧ LsReads permute (dirPathOf query)

def Download (query : Bytes) : Prop :=
  ∀ filePath, filePathOf query = some filePath → TarReads permute filePath ∧ CatReads permute filePath

/-- Nothing in front of the cleaned path makes find take it for an expression. -/
def Findable (dirPath : Bytes) : Prop :=
  dirPath.head? ≠ some dash ∧ dirPath ≠ bytes "(" ∧ dirPath ≠ bytes "!"

/-- No dash in front of the cleaned path or its last element, but for a dash alone. -/
def Fetchable (filePath : Bytes) : Prop :=
  ∀ text ∈ [filePath, SlashPath.base pathSigns filePath], text.head? = some dash → text = [dash]

end Readings

section Quoting

theorem shellQuote_eq (s : Bytes) : shellQuote s = ShellWords.quote shellSigns s := rfl

theorem execute_shell (line : Bytes) : execute (shell line) = ShellWords.words shellSigns line := by
  rw [shell, execute, if_pos ⟨rfl, rfl⟩]

theorem words_line {pieces : List (ShellWords.Piece UInt8)} (sound : ∀ piece ∈ pieces, piece.Sound shellSigns) :
    ShellWords.words shellSigns (ShellWords.line shellSigns 0x20 pieces) =
      some (pieces.map ShellWords.Piece.value) :=
  ShellWords.words_line rfl (by decide) (by decide) (by decide) sound

theorem bare_sound {text : Bytes} (some_ : text ≠ []) (plain : text.all (ShellWords.inert shellSigns) = true) :
    (ShellWords.Piece.bare text).Sound shellSigns := ⟨some_, List.all_eq_true.mp plain⟩

/-- Whatever the path, the shell finds the words that are meant. -/
theorem find_words (dirPath : Bytes) :
    execute (findCommand dirPath) = some (bytes "find" :: dirPath :: findExpression) := by
  have line : bytes "find " ++ shellQuote dirPath ++ bytes " -maxdepth 1 -printf '%y\\t%s\\t%T@\\t%m\\t%p\\n'" =
      ShellWords.line shellSigns 0x20 [.bare (bytes "find"), .quoted dirPath, .bare (bytes "-maxdepth"),
        .bare (bytes "1"), .bare (bytes "-printf"), .quoted printFormat] := by
    have behind : bytes " -maxdepth 1 -printf '%y\\t%s\\t%T@\\t%m\\t%p\\n'" = 0x20 :: (bytes "-maxdepth" ++ 0x20 ::
        (bytes "1" ++ 0x20 :: (bytes "-printf" ++ 0x20 :: ShellWords.quote shellSigns printFormat))) := by decide
    have before : bytes "find " = bytes "find" ++ [0x20] := by decide
    rw [behind, before, shellQuote_eq, ShellWords.line]
    simp [ShellWords.Piece.render, List.intercalate_cons_cons]
  rw [findCommand, execute_shell, line, words_line]
  · rfl
  · intro piece member
    simp only [List.mem_cons, List.not_mem_nil, or_false] at member
    rcases member with rfl | rfl | rfl | rfl | rfl | rfl
    · exact bare_sound (by decide) (by decide)
    · trivial
    · exact bare_sound (by decide) (by decide)
    · exact bare_sound (by decide) (by decide)
    · exact bare_sound (by decide) (by decide)
    · trivial

theorem ls_words (dirPath : Bytes) : execute (lsCommand dirPath) = some [bytes "ls", bytes "-la", dirPath] := by
  have line : bytes "ls -la " ++ shellQuote dirPath =
      ShellWords.line shellSigns 0x20 [.bare (bytes "ls"), .bare (bytes "-la"), .quoted dirPath] := by
    have before : bytes "ls -la " = bytes "ls" ++ 0x20 :: (bytes "-la" ++ [0x20]) := by decide
    rw [before, shellQuote_eq, ShellWords.line]
    simp [ShellWords.Piece.render, List.intercalate_cons_cons]
  rw [lsCommand, execute_shell, line, words_line]
  · rfl
  · intro piece member
    simp only [List.mem_cons, List.not_mem_nil, or_false] at member
    rcases member with rfl | rfl | rfl
    · exact bare_sound (by decide) (by decide)
    · exact bare_sound (by decide) (by decide)
    · trivial

end Quoting

section Reads
variable {permute : Bool}

theorem find_reads (dirPath : Bytes) : FindReads dirPath ↔ Findable dirPath := by
  have divided := Operands.divide_first dirPath (show finding.begins (bytes "-maxdepth") = true by decide)
    [bytes "1", bytes "-printf", printFormat]
  rw [FindReads, Findable, and_iff_right (find_words dirPath)]
  refine divided.trans ?_
  rw [Searching.begins, decide_eq_false_iff_not, not_or]
  simp [finding]

theorem optional_iff (text : Bytes) : Operands.optional dash text = false ↔ (text.head? = some dash → text = [dash]) := by
  rw [Operands.optional, decide_eq_false_iff_not, not_and, not_ne_iff]

theorem ls_reads (dirPath : Bytes) : LsReads permute dirPath ↔ (dirPath.head? = some dash → dirPath = [dash]) := by
  have options := @Operands.after_options _ _ dash lsTakes permute (bytes "-la") (by decide) (by decide) [dirPath]
  rw [LsReads, and_iff_right (ls_words dirPath), options, ← optional_iff]
  exact Operands.last_operand dirPath

theorem cat_reads (filePath : Bytes) : CatReads permute filePath ↔ (filePath.head? = some dash → filePath = [dash]) := by
  rw [CatReads, ← optional_iff, Operands.last_operand]
  exact and_iff_right rfl

theorem tar_operands (dir base : Bytes) :
    (bundled dash tarTakes permute (bytes "cf") [bytes "-", bytes "-C", dir, base]).map operands =
      (arguments dash tarTakes permute none [base]).map operands := by
  have bundle : bundled dash tarTakes permute (bytes "cf") [bytes "-", bytes "-C", dir, base] =
      (arguments dash tarTakes permute none [bytes "-C", dir, base]).map
        fun args => .option 0x63 none :: .option 0x66 (some (bytes "-")) :: args := by
    have create : ¬ tarTakes 0x63 = true := by decide
    have file : tarTakes 0x66 = true := by decide
    rw [show bytes "cf" = [0x63, 0x66] from rfl, bundled, if_neg create, bundled, if_pos file]
    simp only [bundled, Option.map_map]
    rfl
  have options := @Operands.after_options _ _ dash tarTakes permute (bytes "-C") (by decide) (by decide) [dir, base]
  rw [bundle, Option.map_map]
  refine Eq.trans ?_ (options.trans (Operands.after_value 0x43 dir [base]))
  rfl

theorem tar_reads (query : Bytes) : TarReads permute (clean query) ↔
    ((SlashPath.base pathSigns (clean query)).head? = some dash → SlashPath.base pathSigns (clean query) = [dash]) := by
  have same : clean (SlashPath.dir pathSigns (clean query) ++ bytes "/" ++ SlashPath.base pathSigns (clean query)) =
      clean query := by
    rw [List.append_assoc]
    exact SlashPath.dir_base query
  rw [TarReads, and_iff_right same, tar_operands, Operands.last_operand, optional_iff]
  exact and_iff_right rfl

theorem listing_iff (query : Bytes) : Listing permute query ↔ Findable (dirPathOf query) := by
  rw [Listing, find_reads, ls_reads]
  exact and_iff_left_of_imp fun findable dashed => absurd dashed findable.1

theorem download_iff (query : Bytes) :
    Download permute query ↔ ∀ filePath, filePathOf query = some filePath → Fetchable filePath := by
  have pair : TarReads permute (clean query) ∧ CatReads permute (clean query) ↔ Fetchable (clean query) := by
    rw [tar_reads, cat_reads, Fetchable, List.forall_mem_cons, List.forall_mem_singleton]
    exact and_comm
  have same : ∀ filePath, filePathOf query = some filePath → filePath = clean query := by
    intro filePath asked
    rw [filePathOf] at asked
    split at asked
    · cases asked
    · exact (Option.some.inj asked).symm
  constructor
  · intro reads filePath asked
    have own := reads filePath asked
    rw [same filePath asked] at own ⊢
    exact pair.mp own
  · intro fetchable filePath asked
    have own := fetchable filePath asked
    rw [same filePath asked] at own ⊢
    exact pair.mpr own

/-- The words are the intended ones for every path; the programs read the path as a path where nothing in front
    of it makes it an expression or an option. -/
theorem commands_settled (permute : Bool) (query : Bytes) :
    (execute (findCommand (dirPathOf query)) = some (bytes "find" :: dirPathOf query :: findExpression) ∧
        execute (lsCommand (dirPathOf query)) = some [bytes "ls", bytes "-la", dirPathOf query]) ∧
      (Listing permute query ↔ Findable (dirPathOf query)) ∧
      (Download permute query ↔ ∀ filePath, filePathOf query = some filePath → Fetchable filePath) :=
  ⟨⟨find_words _, ls_words _⟩, listing_iff query, download_iff query⟩

/-- The path -delete is an action of find. -/
theorem delete_read : ¬ ∀ (permute : Bool) (query : Bytes), Listing permute query ∧ Download permute query := by
  intro all
  have findable := (listing_iff (bytes "-delete")).mp (all true (bytes "-delete")).1
  exact findable.1 (by decide)

end Reads
end PodFileCommands
