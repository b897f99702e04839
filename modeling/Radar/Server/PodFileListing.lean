import Mathlib.Algebra.Order.Ring.Nat
import Mathlib.Data.List.Lex
import Mathlib.Data.Prod.Lex
import Radar.Base.Arrange
import Radar.Base.Blanks
import Radar.Base.GoText
import Radar.Base.SlashPath

/- internal/server/copy.go: what the pod file browser reads from the output of find and of ls. -/
namespace PodFileListing
open List
open Blanks (Token trim trimEnd fields)

section Model

/-- What ranging over a text gives: a character, or a byte that is part of none. -/
inductive Rune where
  | char (c : Char)
  | invalid (b : UInt8)
  deriving DecidableEq

abbrev Text := List Rune

def text (s : String) : Text := s.toList.map .char

/-- unicode.IsSpace. -/
def isSpace : Rune → Bool
  | .char c => GoText.isSpace c
  | .invalid _ => false

def bytesOf (t : Text) : List UInt8 := t.flatMap fun r => match r with
    | .char c => String.utf8EncodeChar c
    | .invalid b => [b]

def slash : Rune := .char '/'
def newline : Rune := .char '\n'
def tab : Rune := .char '\t'
def space : Rune := .char ' '

def pathSigns : SlashPath.Signs Rune := ⟨slash, .char '.', by decide⟩

section ParseInt

inductive Scan where
  | value (n : Nat)
  | badSyntax
  | outOfRange

def digit : Rune → Option Nat
  | .char c => if c.isDigit then some (c.toNat - 48) else none
  | .invalid _ => none

def scan : Nat → Text → Scan
  | n, [] => .value n
  | n, c :: rest =>
    match digit c with
    | none => .badSyntax
    | some d => if 2 ^ 64 ≤ 10 * n + d then .outOfRange else scan (10 * n + d) rest

def clamp (negative : Bool) (n : Nat) : Int := if negative then if 2 ^ 63 < n then -2 ^ 63 else -(n : Int)
  else if 2 ^ 63 ≤ n then 2 ^ 63 - 1
  else n

/-- What strconv.ParseInt returns beside its error. -/
def parseInt (s : Text) : Int := let negative := s.head? = some (.char '-')
  let digits := if negative ∨ s.head? = some (.char '+') then s.tail else s
  if digits = [] then 0
  else
    match scan 0 digits with
    | .value n => clamp negative n
    | .badSyntax => 0
    | .outOfRange => clamp negative (2 ^ 64)

end ParseInt

inductive NodeType where
  | dir | symlink | file
  deriving DecidableEq

structure FileNode where
  name : Text
  path : Text
  type : NodeType
  size : Int
  permissions : Text
  linkTarget : Text
  deriving DecidableEq

def rwx (digit : UInt8) : Text := let n := digit - 48
  text (if n &&& 4 ≠ 0 then "r" else "-") ++ text (if n &&& 2 ≠ 0 then "w" else "-") ++
    text (if n &&& 1 ≠ 0 then "x" else "-")

/-- The last three digits as letters. -/
def formatOctalPerms (octal : Text) : Text :=
  if (bytesOf octal).length < 3 then octal else ((bytesOf octal).drop ((bytesOf octal).length - 3)).flatMap rwx

/-- Cut at so many of the first separators. -/
def splitTimes (sep : Rune) : Nat → Text → List Text
  | 0, t => [t]
  | n + 1, t =>
    match t.dropWhile (· ≠ sep) with
    | [] => [t]
    | _ :: rest => t.takeWhile (· ≠ sep) :: splitTimes sep n rest

def findType (fileType : Text) : NodeType :=
  if fileType = text "d" then .dir else if fileType = text "l" then .symlink else .file

def findNode (dirPath line : Text) : Option FileNode := match splitTimes tab 4 (trim isSpace line) with
  | [fileType, sizeStr, _, perms, filePath] =>
    if filePath = dirPath ∨ filePath = text "." then none
    else some ⟨SlashPath.base pathSigns filePath, filePath, findType fileType, parseInt sizeStr,
      formatOctalPerms perms, []⟩
  | _ => none

def linkTargetOf (words : List Text) : Text := match words.dropWhile (· ≠ text "->") with
  | [] => []
  | _ :: rest => [space].intercalate rest

def lsType (perms : Text) : NodeType :=
  if perms.head? = some (.char 'd') then .dir else if perms.head? = some (.char 'l') then .symlink else .file

/-- The node of a line of nine fields or more. -/
def fieldsNode (dirPath : Text) (words : List Text) : Option FileNode := match words with
  | perms :: _ :: _ :: _ :: sizeStr :: _ :: _ :: _ :: name :: _ =>
    if name = text "." ∨ name = text ".." then none
    else some ⟨name, SlashPath.join pathSigns [dirPath, name], lsType perms, parseInt sizeStr, perms,
      if lsType perms = .symlink then linkTargetOf words else []⟩
  | _ => none

def lsNode (dirPath line : Text) : Option FileNode :=
  if trim isSpace line = [] ∨ (text "total ").isPrefixOf (trim isSpace line) then none
  else fieldsNode dirPath (fields isSpace (trim isSpace line))

/-- Directories first, then by name. -/
def less (a b : FileNode) : Bool := if a.type = .dir ∧ b.type ≠ .dir then true
  else if a.type ≠ .dir ∧ b.type = .dir then false
  else decide ((bytesOf a.name).map UInt8.toNat < (bytesOf b.name).map UInt8.toNat)

/-- sort.Slice: nodes neither of which is less come out in any order. -/
structure Sorting where
  sort : List FileNode → List FileNode
  perm : ∀ nodes, (sort nodes).Perm nodes
  ordered : ∀ nodes, (sort nodes).Pairwise fun a b => less b a = false

variable (sorting : Sorting)

def parseFindOutput (output dirPath : Text) : List FileNode × Nat :=
  let nodes := (output.splitOn newline).filterMap (findNode dirPath)
  (sorting.sort nodes, nodes.length)

def parseLSOutput (output dirPath : Text) : List FileNode :=
  sorting.sort ((output.splitOn newline).filterMap (lsNode dirPath))

end Model

variable {path : Text} {t : Text}

section Formats

/-- A file by its type, with what ls shows of the type. -/
inductive Kind where
  | regular | directory | fifo | socket
  | symlink (target : Text)
  | block (major minor : UInt32)
  | character (major minor : UInt32)

def Kind.findLetter : Kind → Rune
  | .regular => .char 'f'
  | .directory => .char 'd'
  | .fifo => .char 'p'
  | .socket => .char 's'
  | .symlink _ => .char 'l'
  | .block _ _ => .char 'b'
  | .character _ _ => .char 'c'

def Kind.lsLetter : Kind → Rune
  | .regular => .char '-'
  | .directory => .char 'd'
  | .fifo => .char 'p'
  | .socket => .char 's'
  | .symlink _ => .char 'l'
  | .block _ _ => .char 'b'
  | .character _ _ => .char 'c'

def Kind.device : Kind → Option (UInt32 × UInt32)
  | .block major minor => some (major, minor)
  | .character major minor => some (major, minor)
  | _ => none

def Kind.target : Kind → Option Text
  | .symlink target => some target
  | _ => none

/-- An entry of a directory with what the two commands print of it. -/
structure Entry where
  name : Text
  kind : Kind
  size : Nat
  stamp : Text
  octal : Text
  bits : Text
  links : Text
  owner : Text
  group : Text
  month : Text
  day : Text
  time : Text
  gaps : Nat → Nat
  /-- The size is an off_t. -/
  size_fits : size < 2 ^ 63
  name_some : name ≠ []
  name_plain : newline ∉ name ∧ slash ∉ name
  bits_plain : ∀ c ∈ bits, isSpace c = false
  tokens : ∀ t ∈ [stamp, octal, links, owner, group, month, day, time], Token isSpace t
  /-- A time of day or a year. -/
  time_digit : ∃ c rest, time = .char c :: rest ∧ c.isDigit = true
  time_plain : slash ∉ time

def number (n : Nat) : Text := text (toString n)

/-- find's path of what is in a directory. -/
def stem (dirPath : Text) : Text := if dirPath = text "/" then [] else dirPath

def below (dirPath name : Text) : Text := stem dirPath ++ slash :: name

/-- %y\t%s\t%T@\t%m\t%p -/
def findLine (e : Entry) (path : Text) : Text :=
  e.kind.findLetter :: tab :: (number e.size ++ tab :: (e.stamp ++ tab :: (e.octal ++ tab :: path)))

/-- Texts with blanks behind each. -/
def columns (gaps : Nat → Nat) : List Text → Text
  | [] => []
  | t :: rest => t ++ space :: (List.replicate (gaps rest.length) space ++ columns gaps rest)

def sizeColumns (e : Entry) : List Text := match e.kind.device with
  | some (major, minor) => [number major.toNat ++ text ",", number minor.toNat]
  | none => [number e.size]

def lsColumns (e : Entry) : List Text :=
  [e.kind.lsLetter :: e.bits, e.links, e.owner, e.group] ++ sizeColumns e ++ [e.month, e.day, e.time]

def shownName (e : Entry) : Text := match e.kind.target with
  | some target => e.name ++ text " -> " ++ target
  | none => e.name

def lsLine (e : Entry) : Text := columns e.gaps (lsColumns e) ++ shownName e

def lines (ls : List Text) : Text := ls.flatMap fun line => line ++ [newline]

/-- A directory as the two commands print it, each in an order of its own. -/
structure Directory where
  path : Text
  entries : List Entry
  /-- The directory itself and the one above it. -/
  self : Entry
  parent : Entry
  total : Text
  found : List Entry
  listed : List Entry
  cleaned : ∃ query, path = SlashPath.clean pathSigns query
  path_plain : newline ∉ path
  self_name : self.name = text "."
  self_kind : self.kind = .directory
  parent_name : parent.name = text ".."
  parent_kind : parent.kind = .directory
  total_token : Token isSpace total
  found_perm : found.Perm entries
  listed_perm : listed.Perm (self :: parent :: entries)

def findOutput (d : Directory) : Text :=
  lines (findLine d.self d.path :: d.found.map fun e => findLine e (below d.path e.name))

def lsOutput (d : Directory) : Text := lines ((text "total " ++ d.total) :: d.listed.map lsLine)

end Formats

section Claims

/-- What the claim compares of a node. -/
def face (n : FileNode) : Text × Text × NodeType × Int := (n.name, n.path, n.type, n.size)

def SameEntries (xs ys : List FileNode) : Prop := (xs.map face).Perm (ys.map face)

/-- What the trimming leaves of a name. -/
def kept (e : Entry) : Text := trimEnd isSpace e.name

structure Tidy (name : Text) : Prop where
  token : Token isSpace name
  self : name ≠ text "."
  parent : name ≠ text ".."

/-- The line gives ls no entry. -/
def Idle (line : Text) : Prop :=
  (text "total ").isPrefixOf (trim isSpace line) = true ∨ (fields isSpace line).length < 9 ∨
    (fields isSpace line)[8]? = some (text ".") ∨ (fields isSpace line)[8]? = some (text "..")

def devices (d : Directory) : List Entry := d.entries.filter fun e => e.kind.device.isSome

structure Alike (d : Directory) : Prop where
  own : trimEnd isSpace d.path = d.path ∨ trimEnd isSpace d.path = [] ∨ trimEnd isSpace d.path = text "."
  relative : d.path = text "." → d.entries = []
  names : ∀ e ∈ d.entries, Tidy (kept e) ∨
    d.path = text "/" ∧ kept e = [] ∧ e.kind.device = none ∧ e.kind.target = none
  targets : ∀ e ∈ d.entries, ∀ target, e.kind.target = some target →
    ∀ line ∈ (target.splitOn newline).tail, Idle line
  sizes : ∀ e ∈ devices d, e.size = 0
  times : ((devices d).map kept).Perm ((devices d).map Entry.time)

end Claims

section Lines
variable {α β : Type}

theorem split_front {sep : Rune} {front : Text} (plain : sep ∉ front) (back : Text) :
    (front ++ back).splitOn sep = (back.splitOn sep).modifyHead (front ++ ·) := by
  induction front with
  | nil =>
    rw [nil_append]
    exact (congrFun modifyHead_id _).symm
  | cons c front ih =>
    obtain ⟨other, rest⟩ := not_or.mp (mem_cons.not.mp plain)
    have differ : ¬ (c == sep) = true := fun same => other (beq_iff_eq.mp same).symm
    rw [cons_append, splitOn_cons_eq_if_modifyHead, if_neg differ, ih rest, modifyHead_modifyHead]
    rfl

/-- The lines of a text, what stands in a line at its own line breaks included. -/
theorem split_lines (ls : List Text) :
    (lines ls).splitOn newline = (ls.flatMap fun line => line.splitOn newline) ++ [[]] := by
  induction ls with
  | nil => rfl
  | cons line ls ih =>
    rw [lines, flatMap_cons, append_assoc, singleton_append, splitOn_append_cons_self,
      flatMap_cons, append_assoc]
    exact congrArg _ ih

theorem read_lines {node : Text → Option β} (none_ : node [] = none) (ls : List Text) :
    ((lines ls).splitOn newline).filterMap node = ls.flatMap fun line => (line.splitOn newline).filterMap node := by
  rw [split_lines, filterMap_append, filterMap_flatMap, filterMap_cons, none_, filterMap_nil,
    append_nil]

theorem split_times {sep : Rune} {first : Text} (plain : sep ∉ first) (n : Nat) (rest : Text) :
    splitTimes sep (n + 1) (first ++ sep :: rest) = first :: splitTimes sep n rest := by
  have held : ∀ c ∈ first, decide (c ≠ sep) = true := fun c member => decide_eq_true fun same => plain (same ▸ member)
  rw [splitTimes, dropWhile_append_of_pos held, takeWhile_append_of_pos held,
    dropWhile_cons_of_neg (by simp), takeWhile_cons_of_neg (by simp), append_nil]

theorem split_whole {sep : Rune} (plain : sep ∉ t) (n : Nat) : splitTimes sep n t = [t] := by
  cases n with
  | zero => rfl
  | succ n =>
    have gone : t.dropWhile (fun c => decide (c ≠ sep)) = [] :=
      dropWhile_eq_nil_iff.mpr fun c member => decide_eq_true fun same => plain (same ▸ member)
    rw [splitTimes, gone]

theorem token_lacks (one : Token isSpace t) {c : Rune} (blank : isSpace c = true) : c ∉ t := fun member => by
  rw [one.plain c member] at blank
  cases blank

theorem digit_solid {c : Char} (digit : c.isDigit = true) : isSpace (.char c) = false := by
  obtain ⟨low, high⟩ := Char.isDigit_iff_toNat.mp digit
  have zero : '0'.toNat = 48 := rfl
  have nine : '9'.toNat = 57 := rfl
  refine Bool.or_eq_false_iff.mpr ⟨decide_eq_false fun listed => ?_, Bool.and_eq_false_imp.mpr fun from_ => ?_⟩
  · have all : ['\t', '\n', '\x0b', '\x0c', '\r', ' ', '\u0085', '\u00a0', '\u1680', '\u2028', '\u2029',
        '\u202f', '\u205f', '\u3000'].all (fun d => decide (d.toNat < 48 ∨ 57 < d.toNat)) = true := rfl
    have outside := of_decide_eq_true (all_eq_true.mp all c listed)
    omega
  · have far : '\u2000'.toNat ≤ c.toNat := Char.le_def.mp (of_decide_eq_true from_)
    have start : '\u2000'.toNat = 8192 := rfl
    omega

theorem number_token (n : Nat) : Token isSpace (number n) := by
  have digits : (toString n).toList = Nat.toDigits 10 n := Nat.toList_repr
  constructor
  · rw [number, text, digits]
    exact fun none_ => Nat.toDigits_ne_nil (map_eq_nil_iff.mp none_)
  · intro r member
    rw [number, text, digits] at member
    obtain ⟨c, own, rfl⟩ := mem_map.mp member
    exact digit_solid (Nat.isDigit_of_mem_toDigits (by decide) (by decide) own)

end Lines

section Find
variable {dirPath : Text}

def Kind.nodeType : Kind → NodeType
  | .directory => .dir
  | .symlink _ => .symlink
  | _ => .file

theorem findLetter_solid (kind : Kind) : isSpace kind.findLetter = false ∧ kind.findLetter ≠ tab := by
  cases kind <;> exact ⟨rfl, fun same => absurd (Rune.char.inj same) (by decide)⟩

theorem findLetter_type (kind : Kind) : findType [kind.findLetter] = kind.nodeType := by
  cases kind <;> rfl

theorem tab_blank : isSpace tab = true := by decide
theorem slash_solid : isSpace slash = false := by decide
theorem space_blank : isSpace space = true := by decide
theorem newline_blank : isSpace newline = true := by decide

theorem stamp_token (e : Entry) : Token isSpace e.stamp := e.tokens _ (by simp)
theorem octal_token (e : Entry) : Token isSpace e.octal := e.tokens _ (by simp)

theorem find_cut (e : Entry) (path : Text) :
    splitTimes tab 4 (findLine e path) = [[e.kind.findLetter], number e.size, e.stamp, e.octal, path] := by
  have letter : tab ∉ [e.kind.findLetter] := fun member =>
    (findLetter_solid e.kind).2 (mem_singleton.mp member).symm
  have split_ := split_times letter 3 (number e.size ++ tab :: (e.stamp ++ tab :: (e.octal ++ tab :: path)))
  rw [split_times (token_lacks (number_token _) tab_blank), split_times (token_lacks (stamp_token e) tab_blank),
    split_times (token_lacks (octal_token e) tab_blank)] at split_
  exact split_

/-- A line is read by what the trimming leaves of its path. -/
theorem find_read {e : Entry} {path left : Text} (trimmed : trim isSpace (findLine e path) = findLine e left) :
    findNode dirPath (findLine e path) = if left = dirPath ∨ left = text "." then none
      else some ⟨SlashPath.base pathSigns left, left, e.kind.nodeType, parseInt (number e.size),
        formatOctalPerms e.octal, []⟩ := by
  rw [findNode, trimmed, find_cut]
  simp only [findLetter_type]

theorem find_line (e : Entry) (path : Text) :
    findLine e path = (e.kind.findLetter :: tab :: (number e.size ++ tab :: (e.stamp ++ tab :: (e.octal ++ [tab])))) ++ path := by
  simp [findLine]

theorem trim_line (e : Entry) (path : Text) : trim isSpace (findLine e path) = trimEnd isSpace (findLine e path) :=
  Blanks.trim_solid (findLetter_solid e.kind).1 _

theorem find_below (e : Entry) (name : Text) : findNode dirPath (findLine e (below dirPath name)) =
      if below dirPath (trimEnd isSpace name) = dirPath ∨ below dirPath (trimEnd isSpace name) = text "." then none
      else some ⟨SlashPath.base pathSigns (below dirPath (trimEnd isSpace name)), below dirPath (trimEnd isSpace name),
        e.kind.nodeType, parseInt (number e.size), formatOctalPerms e.octal, []⟩ := by
  refine find_read ?_
  rw [trim_line, find_line, find_line, below, below, ← append_assoc, ← append_assoc,
    Blanks.trimEnd_behind _ slash_solid]

theorem find_self (e : Entry) (some_ : trimEnd isSpace path ≠ []) : findNode dirPath (findLine e path) =
      if trimEnd isSpace path = dirPath ∨ trimEnd isSpace path = text "." then none
      else some ⟨SlashPath.base pathSigns (trimEnd isSpace path), trimEnd isSpace path, e.kind.nodeType,
        parseInt (number e.size), formatOctalPerms e.octal, []⟩ := by
  refine find_read ?_
  rw [trim_line, find_line, find_line, Blanks.trimEnd_append _ some_]

/-- A path of blanks leaves a line of four parts. -/
theorem find_blank (e : Entry) (none_ : trimEnd isSpace path = []) :
    findNode dirPath (findLine e path) = none := by
  obtain ⟨back, split_, all⟩ := @Blanks.trimEnd_split _ isSpace path
  rw [none_, nil_append] at split_
  have four : trim isSpace (findLine e path) =
      e.kind.findLetter :: tab :: (number e.size ++ tab :: (e.stamp ++ tab :: e.octal)) := by
    have last : ∀ c ∈ tab :: path, isSpace c = true := by
      intro c member
      cases mem_cons.mp member with
      | inl first => exact first ▸ tab_blank
      | inr later => exact all c (split_ ▸ later)
    have line : findLine e path = ([e.kind.findLetter, tab] ++ number e.size ++ [tab] ++ e.stamp ++ [tab] ++ e.octal) ++
        (tab :: path) := by simp [findLine]
    have ends : trimEnd isSpace e.octal ≠ [] := by
      rw [Blanks.trimEnd_token (octal_token e)]
      exact (octal_token e).some_
    rw [trim_line, line, Blanks.trimEnd_none last, Blanks.trimEnd_append _ ends, Blanks.trimEnd_token (octal_token e)]
    simp
  have letter : tab ∉ [e.kind.findLetter] := fun member =>
    (findLetter_solid e.kind).2 (mem_singleton.mp member).symm
  have parts : splitTimes tab 4 (e.kind.findLetter :: tab :: (number e.size ++ tab :: (e.stamp ++ tab :: e.octal))) =
      [e.kind.findLetter] :: splitTimes tab 3 (number e.size ++ tab :: (e.stamp ++ tab :: e.octal)) :=
    split_times letter 3 _
  rw [split_times (token_lacks (number_token _) tab_blank), split_times (token_lacks (stamp_token e) tab_blank),
    split_whole (token_lacks (octal_token e) tab_blank)] at parts
  rw [findNode, four, parts]

end Find

section Numbers

/-- Digits are read one by one; what is behind them comes next. -/
theorem scan_digits {digits : List Char} (all : ∀ c ∈ digits, c.isDigit = true) (n : Nat) (rest : Text)
    (fits : digits.foldl (fun n c => 10 * n + (c.toNat - 48)) n < 2 ^ 64) :
    scan n (digits.map Rune.char ++ rest) = scan (digits.foldl (fun n c => 10 * n + (c.toNat - 48)) n) rest := by
  induction digits generalizing n with
  | nil => rfl
  | cons c digits ih =>
    have grows : ∀ (ds : List Char) (m : Nat), m ≤ ds.foldl (fun n c => 10 * n + (c.toNat - 48)) m := by
      intro ds
      induction ds with
      | nil => exact fun m => Nat.le_refl m
      | cons d ds ih =>
        intro m
        have next := ih (10 * m + (d.toNat - 48))
        rw [foldl_cons]
        omega
    have small : ¬ 2 ^ 64 ≤ 10 * n + (c.toNat - 48) := by
      have below_ := grows digits (10 * n + (c.toNat - 48))
      rw [foldl_cons] at fits
      omega
    have value : digit (.char c) = some (c.toNat - 48) := if_pos (all c mem_cons_self)
    rw [map_cons, cons_append, scan, value]
    simp only
    rw [if_neg small, ih (fun d member => all d (mem_cons_of_mem c member)) _ fits, foldl_cons]

theorem number_digits (n : Nat) : ∃ digits : List Char, number n = digits.map Rune.char ∧ digits ≠ [] ∧
    (∀ c ∈ digits, c.isDigit = true) ∧ digits.foldl (fun n c => 10 * n + (c.toNat - 48)) 0 = n := by
  have value := GoText.decimalValue_toString n
  rw [GoText.decimalValue] at value
  split at value
  · rename_i whole
    exact ⟨_, rfl, whole.1, all_eq_true.mp whole.2, Option.some.inj value⟩
  · cases value

theorem unsigned {c : Char} (digit : c.isDigit = true) (rest : Text) :
    (Rune.char c :: rest).head? ≠ some (.char '-') ∧ (Rune.char c :: rest).head? ≠ some (.char '+') := by
  constructor
  · intro same
    obtain rfl := Rune.char.inj (Option.some.inj same)
    exact absurd digit (by decide)
  · intro same
    obtain rfl := Rune.char.inj (Option.some.inj same)
    exact absurd digit (by decide)

theorem parseInt_number {n : Nat} (fits : n < 2 ^ 63) : parseInt (number n) = n := by
  obtain ⟨digits, own, some_, all, value⟩ := number_digits n
  obtain ⟨c, rest, rfl⟩ := exists_cons_of_ne_nil some_
  obtain ⟨minus, plus⟩ := unsigned (all c mem_cons_self) (rest.map Rune.char)
  have read := scan_digits all 0 [] (by omega)
  rw [value, append_nil] at read
  rw [own, parseInt]
  simp only [map_cons] at read minus plus ⊢
  rw [if_neg (not_or.mpr ⟨by simpa using minus, by simpa using plus⟩), if_neg (cons_ne_nil _ _), read, scan,
    decide_eq_false minus]
  simp only [clamp]
  rw [if_neg Bool.false_ne_true, if_neg (by omega)]

theorem parseInt_comma (n : UInt32) : parseInt (number n.toNat ++ text ",") = 0 := by
  obtain ⟨digits, own, some_, all, value⟩ := number_digits n.toNat
  obtain ⟨c, rest, rfl⟩ := exists_cons_of_ne_nil some_
  obtain ⟨minus, plus⟩ := unsigned (all c mem_cons_self) (rest.map Rune.char ++ text ",")
  have small := n.toNat_lt
  have read := scan_digits all 0 (text ",") (by omega)
  rw [own, parseInt]
  simp only [map_cons, cons_append] at read minus plus ⊢
  rw [if_neg (not_or.mpr ⟨by simpa using minus, by simpa using plus⟩), if_neg (cons_ne_nil _ _), read]
  rfl

end Numbers

section Listed
variable {dirPath : Text}

theorem columns_fields {gaps : Nat → Nat} {cols : List Text} (tokens : ∀ t ∈ cols, Token isSpace t) (rest : Text) :
    fields isSpace (columns gaps cols ++ rest) = cols ++ fields isSpace rest := by
  induction cols with
  | nil => rfl
  | cons t cols ih =>
    have spaces : ∀ c ∈ replicate (gaps cols.length) space, isSpace c = true := fun c member =>
      eq_of_mem_replicate member ▸ space_blank
    rw [columns, append_assoc, cons_append, Blanks.fields_cons (tokens t mem_cons_self) space_blank,
      append_assoc, Blanks.fields_blanks spaces, ih fun t' member => tokens t' (mem_cons_of_mem t member),
      cons_append]

theorem columns_lack {gaps : Nat → Nat} {cols : List Text} (tokens : ∀ t ∈ cols, Token isSpace t) :
    newline ∉ columns gaps cols := by
  induction cols with
  | nil => exact not_mem_nil
  | cons t cols ih =>
    have rest := ih fun t' member => tokens t' (mem_cons_of_mem t member)
    have first := token_lacks (tokens t mem_cons_self) newline_blank
    have other : newline ≠ space := by decide
    rw [columns]
    simp [first, rest, other]

theorem lsLetter_solid (kind : Kind) : isSpace kind.lsLetter = false ∧ kind.lsLetter ≠ .char 't' := by
  cases kind <;> exact ⟨rfl, fun same => absurd (Rune.char.inj same) (by decide)⟩

theorem lsLetter_type (kind : Kind) (bits : Text) : lsType (kind.lsLetter :: bits) = kind.nodeType := by
  cases kind <;> rfl

theorem perms_token (e : Entry) : Token isSpace (e.kind.lsLetter :: e.bits) := by
  refine ⟨cons_ne_nil _ _, fun c member => ?_⟩
  cases mem_cons.mp member with
  | inl first => exact first ▸ (lsLetter_solid e.kind).1
  | inr later => exact e.bits_plain c later

theorem comma_token (n : Nat) : Token isSpace (number n ++ text ",") := by
  obtain ⟨some_, plain⟩ := number_token n
  refine ⟨append_ne_nil_of_left_ne_nil some_ _, fun c member => ?_⟩
  cases mem_append.mp member with
  | inl left => exact plain c left
  | inr right =>
    rw [mem_singleton.mp right]
    rfl

theorem lsColumns_tokens (e : Entry) : ∀ t ∈ lsColumns e, Token isSpace t := by
  have listed := e.tokens
  intro t member
  rw [lsColumns, mem_append, mem_append] at member
  rcases member with (first | size) | last
  · simp only [mem_cons, not_mem_nil, or_false] at first
    rcases first with rfl | rfl | rfl | rfl
    · exact perms_token e
    · exact listed _ (by simp)
    · exact listed _ (by simp)
    · exact listed _ (by simp)
  · rw [sizeColumns] at size
    cases numbers : e.kind.device with
    | none =>
      rw [numbers] at size
      rw [mem_singleton.mp size]
      exact number_token _
    | some pair =>
      rw [numbers] at size
      rcases mem_pair.mp size with rfl | rfl
      · exact comma_token _
      · exact number_token _
  · simp only [mem_cons, not_mem_nil, or_false] at last
    rcases last with rfl | rfl | rfl
    · exact listed _ (by simp)
    · exact listed _ (by simp)
    · exact listed _ (by simp)

/-- A line that begins with the letter of a type is read by its fields. -/
theorem lsNode_line {c : Rune} (solid : isSpace c = false) (other : c ≠ .char 't') (rest : Text) :
    lsNode dirPath (c :: rest) = fieldsNode dirPath (fields isSpace (c :: rest)) := by
  have trimmed : trim isSpace (c :: rest) = c :: trimEnd isSpace rest :=
    (Blanks.trim_solid solid rest).trans (Blanks.trimEnd_behind [] solid rest)
  have away : ¬ (text "total ").isPrefixOf (c :: trimEnd isSpace rest) = true := by
    intro starts
    rw [show text "total " = Rune.char 't' :: text "otal " from rfl, isPrefixOf_cons_cons, Bool.and_eq_true] at starts
    exact other (beq_iff_eq.mp starts.1).symm
  rw [lsNode, trimmed, if_neg (not_or.mpr ⟨cons_ne_nil _ _, away⟩), ← trimmed, Blanks.fields_trim]

theorem ls_read (e : Entry) (rest : Text) :
    lsNode dirPath (columns e.gaps (lsColumns e) ++ rest) = fieldsNode dirPath (lsColumns e ++ fields isSpace rest) := by
  rw [← columns_fields (lsColumns_tokens e) rest]
  exact lsNode_line (lsLetter_solid e.kind).1 (lsLetter_solid e.kind).2 _

theorem fieldsNode_none {words : List Text} : fieldsNode dirPath words = none ↔
      words.length < 9 ∨ words[8]? = some (text ".") ∨ words[8]? = some (text "..") := by
  rw [fieldsNode.eq_def]
  split
  · rename_i perms a b c sizeStr f g h name more
    have few : ¬ (perms :: a :: b :: c :: sizeStr :: f :: g :: h :: name :: more).length < 9 := by
      simp only [length_cons]
      omega
    have ninth : (perms :: a :: b :: c :: sizeStr :: f :: g :: h :: name :: more)[8]? = some name := rfl
    rw [or_iff_right few, ninth, Option.some_inj, Option.some_inj]
    by_cases special : name = text "." ∨ name = text ".."
    · exact iff_of_true (if_pos special) special
    · rw [if_neg special]
      exact iff_of_false (Option.some_ne_none _) special
  · rename_i short
    refine iff_of_true rfl (.inl ?_)
    match words, short with
    | [], _ => simp
    | [_], _ => simp
    | [_, _], _ => simp
    | [_, _, _], _ => simp
    | [_, _, _, _], _ => simp
    | [_, _, _, _, _], _ => simp
    | [_, _, _, _, _, _], _ => simp
    | [_, _, _, _, _, _, _], _ => simp
    | [_, _, _, _, _, _, _, _], _ => simp
    | a :: b :: c :: d :: f :: g :: h :: i :: j :: k, short => exact absurd rfl (short a b c d f g h i j k)

theorem lsNode_none {line : Text} : lsNode dirPath line = none ↔ Idle line := by
  rw [lsNode, Idle, Blanks.fields_trim]
  by_cases empty : trim isSpace line = []
  · have few : fields isSpace line = [] := by
      rw [← Blanks.fields_trim, empty, Blanks.fields_nil]
    rw [if_pos (.inl empty), few]
    simp
  · by_cases starts : (text "total ").isPrefixOf (trim isSpace line) = true
    · rw [if_pos (.inr starts)]
      simp [starts]
    · rw [if_neg (not_or.mpr ⟨empty, starts⟩), fieldsNode_none]
      simp [starts]

end Listed

section Paths
variable {dirPath : Text} {name : Text}

theorem below_eq (dirPath name : Text) : below dirPath name = (stem dirPath ++ [slash]) ++ name := by
  rw [below, append_assoc, singleton_append]

theorem below_dir : below dirPath name = dirPath ↔ dirPath = text "/" ∧ name = [] := by
  rw [below, stem]
  by_cases root : dirPath = text "/"
  · rw [if_pos root, nil_append, root, show text "/" = [slash] from rfl, cons.injEq]
    simp
  · rw [if_neg root]
    refine iff_of_false (fun same => ?_) fun both => root both.1
    have lengths := congrArg length same
    rw [length_append, length_cons] at lengths
    omega

theorem below_dot (dirPath name : Text) : below dirPath name ≠ text "." := by
  intro same
  have member : slash ∈ text "." := same ▸ mem_append_right _ mem_cons_self
  exact absurd member (by decide)

theorem base_below (some_ : name ≠ []) (plain : slash ∉ name) :
    SlashPath.base pathSigns (below dirPath name) = name := by
  rw [below_eq]
  exact SlashPath.base_last (.inr ⟨_, rfl⟩) some_ plain

theorem tidy_plain (tidy : Tidy name) (plain : slash ∉ name) : SlashPath.Plain pathSigns name :=
  ⟨tidy.token.some_, tidy.self, tidy.parent, plain⟩

theorem join_some (some_ : dirPath ≠ []) (some_' : name ≠ []) :
    SlashPath.join pathSigns [dirPath, name] = SlashPath.clean pathSigns (dirPath ++ slash :: name) := by
  have both : [dirPath, name].filter (fun t => decide (t ≠ [])) = [dirPath, name] :=
    filter_eq_self.mpr fun t member => decide_eq_true (by
      rcases mem_pair.mp member with rfl | rfl
      · exact some_
      · exact some_')
  rw [SlashPath.join]
  simp only [both]
  rw [if_neg (cons_ne_nil _ _), intercalate_cons_cons, intercalate_singleton, append_assoc]
  rfl

theorem clean_some (query : Text) : SlashPath.clean pathSigns query ≠ [] := by
  intro none_
  have fixed := @SlashPath.clean_clean _ _ pathSigns query
  rw [none_, SlashPath.clean_nil] at fixed
  cases fixed

/-- A name joined to a cleaned path stands below it, where the path is not that of the working directory. -/
theorem join_below {query name : Text} (other : SlashPath.clean pathSigns query ≠ text ".")
    (plain : SlashPath.Plain pathSigns name) :
    SlashPath.join pathSigns [SlashPath.clean pathSigns query, name] = below (SlashPath.clean pathSigns query) name := by
  have reduced := @SlashPath.stackOf_reduced _ _ pathSigns query
  rw [join_some (clean_some query) plain.some_]
  refine (SlashPath.clean_below reduced plain.slash).trans ?_
  rw [SlashPath.step_plain _ _ plain, SlashPath.render_cons, below_eq]
  congr 1
  rw [SlashPath.clean] at other ⊢
  generalize SlashPath.rooted pathSigns query = rooted_ at reduced other ⊢
  generalize SlashPath.stackOf pathSigns query = stack at reduced other ⊢
  rw [SlashPath.frontOf]
  by_cases some_ : stack ≠ []
  · rw [if_pos some_, stem, if_neg]
    · rfl
    · intro root
      have again := SlashPath.stack_render reduced
      have pieces : (text "/").splitOn pathSigns.slash = [[], []] := rfl
      have idle : SlashPath.cleanStep pathSigns rooted_ [] [] = [] := if_pos (.inl rfl)
      rw [root, pieces, foldl_cons, foldl_cons, foldl_nil, idle, idle] at again
      exact some_ again.symm
  · obtain rfl := not_not.mp some_
    rw [if_neg some_]
    cases rooted_ with
    | true => rfl
    | false => exact absurd rfl other

theorem join_fixed (some_ : dirPath ≠ []) (some_' : name ≠ []) :
    SlashPath.clean pathSigns (SlashPath.join pathSigns [dirPath, name]) = SlashPath.join pathSigns [dirPath, name] := by
  rw [join_some some_ some_']
  exact SlashPath.clean_clean _

theorem clean_trailing (query : Text) :
    SlashPath.clean pathSigns (SlashPath.clean pathSigns query ++ [slash]) = SlashPath.clean pathSigns query := by
  have reduced := @SlashPath.stackOf_reduced _ _ pathSigns query
  have idle : SlashPath.cleanStep pathSigns (SlashPath.rooted pathSigns query) (SlashPath.stackOf pathSigns query) [] =
      SlashPath.stackOf pathSigns query := if_pos (.inl rfl)
  exact (SlashPath.clean_below reduced not_mem_nil).trans (congrArg _ idle)

theorem dot_join (plain : SlashPath.Plain pathSigns name) :
    SlashPath.join pathSigns [text ".", name] = name := by
  have dot : text "." ≠ [] := cons_ne_nil _ _
  rw [join_some dot plain.some_]
  refine (SlashPath.clean_below (.nil : SlashPath.Reduced pathSigns false []) plain.slash).trans ?_
  rw [SlashPath.step_plain _ _ plain]
  exact (intercalate_singleton : [slash].intercalate [name] = name)

end Paths

section Entries
variable {dirPath : Text}

def findFace (dirPath : Text) (e : Entry) : Option (Text × Text × NodeType × Int) :=
  (findNode dirPath (findLine e (below dirPath e.name))).map face

def lsFaces (dirPath : Text) (e : Entry) : List (Text × Text × NodeType × Int) :=
  (((lsLine e).splitOn newline).filterMap (lsNode dirPath)).map face

theorem kept_split (e : Entry) : ∃ back, e.name = kept e ++ back ∧ ∀ c ∈ back, isSpace c = true := Blanks.trimEnd_split _

theorem kept_slash (e : Entry) : slash ∉ kept e := by
  obtain ⟨back, split_, _⟩ := kept_split e
  exact fun member => e.name_plain.2 (split_ ▸ mem_append_left back member)

theorem find_face (e : Entry) : findFace dirPath e = if dirPath = text "/" ∧ kept e = [] then none
      else some (SlashPath.base pathSigns (below dirPath (kept e)), below dirPath (kept e), e.kind.nodeType, (e.size : Int)) := by
  rw [findFace, find_below]
  change Option.map face (if below dirPath (kept e) = dirPath ∨ below dirPath (kept e) = text "." then none else _) = _
  by_cases root : dirPath = text "/" ∧ kept e = []
  · rw [if_pos root, if_pos (.inl (below_dir.mpr root))]
    rfl
  · rw [if_neg root, if_neg (not_or.mpr ⟨fun same => root (below_dir.mp same), below_dot _ _⟩), Option.map_some, face,
      parseInt_number e.size_fits]
    rfl

theorem find_tidy {e : Entry} (tidy : Tidy (kept e)) :
    findFace dirPath e = some (kept e, below dirPath (kept e), e.kind.nodeType, (e.size : Int)) := by
  rw [find_face, if_neg fun root => tidy.token.some_ root.2, base_below tidy.token.some_ (kept_slash e)]

/-- The first line of what ls shows of a name, and the lines that a link's target adds. -/
def firstShown (e : Entry) : Text := match e.kind.target with
  | some target => e.name ++ space :: (text "-> " ++ (target.splitOn newline).headD [])
  | none => e.name

def furtherLines (e : Entry) : List Text := match e.kind.target with
  | some target => (target.splitOn newline).tail
  | none => []

theorem split_lsLine (e : Entry) :
    (lsLine e).splitOn newline = (columns e.gaps (lsColumns e) ++ firstShown e) :: furtherLines e := by
  have front := @columns_lack e.gaps _ (lsColumns_tokens e)
  rw [lsLine, split_front front, shownName, firstShown, furtherLines]
  cases shown : e.kind.target with
  | none =>
    simp only
    rw [splitOn_eq_singleton e.name_plain.1]
    rfl
  | some target =>
    have plain : newline ∉ e.name ++ text " -> " := by
      rw [mem_append, not_or]
      exact ⟨e.name_plain.1, by decide⟩
    obtain ⟨first, rest, pieces⟩ := exists_cons_of_ne_nil (splitOn_ne_nil newline target)
    simp only
    rw [split_front plain, pieces, modifyHead_cons, modifyHead_cons, headD_cons, tail_cons,
      append_assoc]
    rfl

theorem ls_faces (e : Entry) :
    lsFaces dirPath e = ((fieldsNode dirPath (lsColumns e ++ fields isSpace (firstShown e))).map face).toList ++
      ((furtherLines e).filterMap (lsNode dirPath)).map face := by
  rw [lsFaces, split_lsLine, filterMap_cons, ls_read]
  cases fieldsNode dirPath (lsColumns e ++ fields isSpace (firstShown e)) <;> rfl

/-- What is shown of a name begins with what the trimming leaves of it, where that is one token. -/
theorem shown_token {e : Entry} (token : Token isSpace (kept e)) : ∃ more, fields isSpace (firstShown e) = kept e :: more := by
  have own : fields isSpace e.name = [kept e] := by
    rw [← Blanks.fields_trimEnd]
    exact Blanks.fields_token token
  rw [firstShown]
  cases e.kind.target with
  | none => exact ⟨[], own⟩
  | some target =>
    refine ⟨fields isSpace (text "-> " ++ (target.splitOn newline).headD []), ?_⟩
    simp only
    rw [Blanks.fields_cut space_blank, own]
    rfl

theorem shown_blank {e : Entry} (none_ : kept e = []) :
    fields isSpace (firstShown e) = [] ∧ e.kind.target = none ∨
      ∃ more, fields isSpace (firstShown e) = text "->" :: more ∧ ∃ target, e.kind.target = some target := by
  obtain ⟨back, split_, all⟩ := kept_split e
  rw [none_, nil_append] at split_
  have arrow : Token isSpace (text "->") := ⟨cons_ne_nil _ _, by decide⟩
  rw [firstShown]
  cases shown : e.kind.target with
  | none =>
    refine .inl ⟨?_, rfl⟩
    simp only
    rw [← append_nil e.name, Blanks.fields_blanks (split_ ▸ all), Blanks.fields_nil]
  | some target =>
    refine .inr ⟨fields isSpace ((target.splitOn newline).headD []), ?_, target, rfl⟩
    simp only
    rw [Blanks.fields_blanks (split_ ▸ all), Blanks.fields_skip space_blank, show text "-> " = text "->" ++ [space] from rfl,
      append_assoc, singleton_append, Blanks.fields_cons arrow space_blank]

/-- The first line of an entry that is no device is read by the first token of what is shown of its name. -/
theorem plain_faces {e : Entry} (plain : e.kind.device = none) (words : List Text) :
    (fieldsNode dirPath (lsColumns e ++ words)).map face = words.head?.bind fun name =>
        if name = text "." ∨ name = text ".." then none
        else some (name, SlashPath.join pathSigns [dirPath, name], e.kind.nodeType, (e.size : Int)) := by
  rw [lsColumns, sizeColumns, plain]
  cases words with
  | nil => rfl
  | cons name more =>
    simp only [cons_append, nil_append, fieldsNode, head?_cons, Option.bind_some]
    by_cases special : name = text "." ∨ name = text ".."
    · rw [if_pos special, if_pos special]
      rfl
    · rw [if_neg special, if_neg special, Option.map_some, face, lsLetter_type, parseInt_number e.size_fits]

theorem time_token (e : Entry) : Token isSpace e.time := e.tokens _ (by simp)

theorem time_tidy (e : Entry) : Tidy e.time := by
  obtain ⟨c, rest, own, digit⟩ := e.time_digit
  have other : c ≠ '.' := by
    rintro rfl
    exact absurd digit (by decide)
  refine ⟨time_token e, fun same => ?_, fun same => ?_⟩
  · exact other (Rune.char.inj (cons.inj (own ▸ same)).1)
  · exact other (Rune.char.inj (cons.inj (own ▸ same)).1)

/-- The line of a device shows its time where the name should stand. -/
theorem device_faces {e : Entry} (device : e.kind.device.isSome = true) (words : List Text) :
    (fieldsNode dirPath (lsColumns e ++ words)).map face =
      some (e.time, SlashPath.join pathSigns [dirPath, e.time], .file, 0) := by
  obtain ⟨⟨major, minor⟩, numbers⟩ := Option.isSome_iff_exists.mp device
  have special : ¬ (e.time = text "." ∨ e.time = text "..") := not_or.mpr ⟨(time_tidy e).self, (time_tidy e).parent⟩
  have type : e.kind.nodeType = .file := by
    cases own : e.kind <;> rw [own] at numbers <;> first | rfl | cases numbers
  rw [lsColumns, sizeColumns, numbers]
  simp only [cons_append, nil_append, fieldsNode]
  rw [if_neg special, Option.map_some, face, lsLetter_type, type, parseInt_comma]

theorem device_target {e : Entry} (device : e.kind.device.isSome = true) : e.kind.target = none := by
  cases own : e.kind <;> first | rfl | (rw [own] at device; cases device)

theorem further_none {e : Entry} (plain : e.kind.target = none) : furtherLines e = [] := by
  rw [furtherLines, plain]

theorem ls_device {e : Entry} (device : e.kind.device.isSome = true) :
    lsFaces dirPath e = [(e.time, SlashPath.join pathSigns [dirPath, e.time], .file, 0)] := by
  rw [ls_faces, device_faces device, further_none (device_target device)]
  rfl

/-- An entry with a tidy name: its own node, and those of further lines. -/
theorem ls_tidy {e : Entry} (plain : e.kind.device = none) (tidy : Tidy (kept e)) : lsFaces dirPath e =
      (kept e, SlashPath.join pathSigns [dirPath, kept e], e.kind.nodeType, (e.size : Int)) ::
        ((furtherLines e).filterMap (lsNode dirPath)).map face := by
  obtain ⟨more, shown⟩ := shown_token tidy.token
  rw [ls_faces, plain_faces plain, shown, head?_cons, Option.bind_some, if_neg (not_or.mpr ⟨tidy.self, tidy.parent⟩)]
  rfl

/-- An entry with a blank name: nothing, but for a link the arrow. -/
theorem ls_blank {e : Entry} (plain : e.kind.device = none) (none_ : kept e = []) :
    lsFaces dirPath e = [] ∧ e.kind.target = none ∨
      lsFaces dirPath e ≠ [] ∧ ∃ target, e.kind.target = some target := by
  rcases shown_blank none_ with ⟨shown, target⟩ | ⟨more, shown, target⟩
  · refine .inl ⟨?_, target⟩
    rw [ls_faces, plain_faces plain, shown, further_none target]
    rfl
  · refine .inr ⟨?_, target⟩
    rw [ls_faces, plain_faces plain, shown, head?_cons, Option.bind_some, if_neg (by decide)]
    exact cons_ne_nil _ _

/-- Whatever line it is read from, a node of ls has a tidy name and its path from it. -/
theorem ls_range {line : Text} {n : FileNode} (read : lsNode dirPath line = some n) :
    Tidy n.name ∧ n.path = SlashPath.join pathSigns [dirPath, n.name] := by
  rw [lsNode] at read
  split at read
  · cases read
  · rw [Blanks.fields_trim, fieldsNode.eq_def] at read
    split at read
    · rename_i perms a b c sizeStr f g h name more words
      split at read
      · cases read
      · rename_i special
        obtain ⟨self, parent⟩ := not_or.mp special
        obtain rfl := Option.some.inj read
        have member : name ∈ fields isSpace line := words ▸ by simp
        exact ⟨⟨Blanks.mem_fields member, self, parent⟩, rfl⟩
    · cases read

end Entries

section Outputs
variable (sorting : Sorting) (d : Directory)

def ownFace : Option (Text × Text × NodeType × Int) := (findNode d.path (findLine d.self d.path)).map face

def findFaces : List (Text × Text × NodeType × Int) := (ownFace d).toList ++ d.entries.filterMap (findFace d.path)

theorem find_plain {e : Entry} (plain : newline ∉ path) : newline ∉ findLine e path := by
  have letter : newline ≠ e.kind.findLetter := fun same => by
    have solid := (findLetter_solid e.kind).1
    rw [← same, newline_blank] at solid
    cases solid
  have size := token_lacks (number_token e.size) newline_blank
  have stamp := token_lacks (stamp_token e) newline_blank
  have octal := token_lacks (octal_token e) newline_blank
  have other : newline ≠ tab := by decide
  simp [findLine, letter, size, stamp, octal, other, plain]

theorem below_plain {path name : Text} (plain : newline ∉ path) (plain' : newline ∉ name) : newline ∉ below path name := by
  have other : newline ≠ slash := by decide
  rw [below, stem]
  split
  · simp [other, plain']
  · simp [other, plain, plain']

theorem find_one {line : Text} (plain : newline ∉ line) (path : Text) :
    (line.splitOn newline).filterMap (findNode path) = (findNode path line).toList := by
  rw [splitOn_eq_singleton plain]
  cases found : findNode path line <;> simp [found]

theorem find_all : ((parseFindOutput sorting (findOutput d) d.path).1.map face).Perm (findFaces d) := by
  have none_ : findNode d.path [] = none := rfl
  have rows : (((findOutput d).splitOn newline).filterMap (findNode d.path)).map face =
      (ownFace d).toList ++ d.found.filterMap (findFace d.path) := by
    rw [findOutput, read_lines none_, flatMap_cons, find_one (find_plain d.path_plain), map_append]
    congr 1
    · rw [ownFace]
      cases findNode d.path (findLine d.self d.path) <;> rfl
    · rw [flatMap_map, map_flatMap, filterMap_eq_flatMap_toList]
      congr 1
      funext e
      rw [find_one (find_plain (below_plain d.path_plain e.name_plain.1)), findFace]
      cases findNode d.path (findLine e (below d.path e.name)) <;> rfl
  rw [parseFindOutput]
  refine ((sorting.perm _).map face).trans ?_
  rw [rows]
  exact (d.found_perm.filterMap _).append_left _

theorem ls_total : lsNode d.path (text "total " ++ d.total) = none := by
  have words : fields isSpace (text "total " ++ d.total) = [text "total", d.total] := by
    have head : Token isSpace (text "total") := ⟨cons_ne_nil _ _, by decide⟩
    rw [show text "total " = text "total" ++ [space] from rfl, append_assoc, singleton_append,
      Blanks.fields_cons head space_blank, Blanks.fields_token d.total_token]
  refine lsNode_none.mpr (.inr (.inl ?_))
  rw [words, length_cons, length_singleton]
  omega

theorem ls_dot {e : Entry} (kind : e.kind = .directory) (name : e.name = text "." ∨ e.name = text "..") :
    lsFaces path e = [] := by
  have plain : e.kind.device = none := by rw [kind]; rfl
  have target : e.kind.target = none := by rw [kind]; rfl
  have left : kept e = e.name := by
    rcases name with name | name <;> rw [kept, name] <;> rfl
  have token : Token isSpace (kept e) := by
    rw [left]
    rcases name with name | name <;> rw [name] <;> exact ⟨cons_ne_nil _ _, by decide⟩
  obtain ⟨more, shown⟩ := shown_token token
  rw [ls_faces, plain_faces plain, shown, head?_cons, Option.bind_some, left, if_pos name, further_none target]
  rfl

theorem ls_all : ((parseLSOutput sorting (lsOutput d) d.path).map face).Perm (d.entries.flatMap (lsFaces d.path)) := by
  have none_ : lsNode d.path [] = none := rfl
  have rows : (((lsOutput d).splitOn newline).filterMap (lsNode d.path)).map face =
      d.listed.flatMap (lsFaces d.path) := by
    have plain : newline ∉ text "total " ++ d.total := by
      rw [mem_append, not_or]
      exact ⟨by decide, token_lacks d.total_token newline_blank⟩
    rw [lsOutput, read_lines none_, flatMap_cons, splitOn_eq_singleton plain, filterMap_cons, ls_total,
      filterMap_nil, nil_append, flatMap_map, map_flatMap]
    rfl
  rw [parseLSOutput]
  refine ((sorting.perm _).map face).trans ?_
  rw [rows]
  refine (d.listed_perm.flatMap_right _).trans ?_
  rw [flatMap_cons, flatMap_cons, ls_dot d.self_kind (.inl d.self_name), ls_dot d.parent_kind (.inr d.parent_name),
    nil_append, nil_append]

end Outputs

section Matching

/-- Where no list is shorter than what it stands against, lists as long in all are as long each. -/
theorem lengths_equal {α β : Type} {f : α → Option β} {g : α → List β} {xs : List α}
    (least : ∀ x ∈ xs, (f x).toList.length ≤ (g x).length)
    (total : (xs.flatMap g).length = (xs.filterMap f).length) :
    ∀ x ∈ xs, (g x).length = (f x).toList.length := by
  have grows : ∀ ys : List α, (∀ y ∈ ys, (f y).toList.length ≤ (g y).length) →
      (ys.filterMap f).length ≤ (ys.flatMap g).length := by
    intro ys
    induction ys with
    | nil => exact fun _ => Nat.le_refl _
    | cons y ys ih =>
      intro all
      have first := all y mem_cons_self
      have rest := ih fun z member => all z (mem_cons_of_mem y member)
      rw [filterMap_eq_flatMap_toList, flatMap_cons, flatMap_cons, length_append, length_append,
        ← filterMap_eq_flatMap_toList]
      omega
  induction xs with
  | nil => exact fun _ member => absurd member not_mem_nil
  | cons x xs ih =>
    have first := least x mem_cons_self
    have later : ∀ y ∈ xs, (f y).toList.length ≤ (g y).length := fun y member => least y (mem_cons_of_mem x member)
    have rest := grows xs later
    rw [filterMap_eq_flatMap_toList, flatMap_cons, flatMap_cons, length_append, length_append,
      ← filterMap_eq_flatMap_toList] at total
    intro y member
    cases mem_cons.mp member with
    | inl same =>
      subst same
      omega
    | inr inside => exact ih later (by omega) y inside

end Matching

section Settle
variable {d : Directory} {x : Text × Text × NodeType × Int}

theorem ls_faces_range {e : Entry} (member : x ∈ lsFaces path e) :
    Tidy x.1 ∧ x.2.1 = SlashPath.join pathSigns [path, x.1] := by
  obtain ⟨n, read, rfl⟩ := mem_map.mp member
  obtain ⟨line, _, own⟩ := mem_filterMap.mp read
  exact ls_range own

/-- A node of find that ls could show has a tidy name, and find was not given the working directory. -/
theorem find_in_range {e : Entry} {query : Text}
    (found : findFace (SlashPath.clean pathSigns query) e = some x) (tidy : Tidy x.1)
    (path : x.2.1 = SlashPath.join pathSigns [SlashPath.clean pathSigns query, x.1]) :
    Tidy (kept e) ∧ SlashPath.clean pathSigns query ≠ text "." := by
  rw [find_face] at found
  split at found
  · cases found
  rename_i root
  obtain rfl := Option.some.inj found
  simp only at tidy path
  by_cases none_ : kept e = []
  · -- the path that is left ends with a slash, which no cleaned path but the root does
    have other : SlashPath.clean pathSigns query ≠ text "/" := fun same => root ⟨same, none_⟩
    have fixed := join_fixed (clean_some query) tidy.token.some_
    have ends : below (SlashPath.clean pathSigns query) (kept e) = SlashPath.clean pathSigns query ++ [slash] := by
      rw [none_, below, stem, if_neg other]
    rw [← path, ends, clean_trailing] at fixed
    have lengths := congrArg length fixed
    rw [length_append, length_singleton] at lengths
    omega
  · rw [base_below none_ (kept_slash e)] at tidy path
    refine ⟨tidy, fun dot => ?_⟩
    rw [dot, dot_join (tidy_plain tidy (kept_slash e)), below_eq] at path
    have lengths := congrArg length path
    rw [length_append, length_append, length_singleton] at lengths
    omega

theorem own_face : ownFace d =
    if trimEnd isSpace d.path = d.path ∨ trimEnd isSpace d.path = [] ∨ trimEnd isSpace d.path = text "." then none
    else some (SlashPath.base pathSigns (trimEnd isSpace d.path), trimEnd isSpace d.path, d.self.kind.nodeType,
      (d.self.size : Int)) := by
  rw [ownFace]
  by_cases none_ : trimEnd isSpace d.path = []
  · rw [find_blank d.self none_, if_pos (.inr (.inl none_))]
    rfl
  · rw [find_self d.self none_]
    by_cases skip : trimEnd isSpace d.path = d.path ∨ trimEnd isSpace d.path = text "."
    · rw [if_pos skip, if_pos (skip.imp_right .inr)]
      rfl
    · have kept_ : ¬ (trimEnd isSpace d.path = d.path ∨ trimEnd isSpace d.path = [] ∨ trimEnd isSpace d.path = text ".") := by
        tauto
      rw [if_neg skip, if_neg kept_, Option.map_some, face, parseInt_number d.self.size_fits]

theorem base_slash (member : slash ∈ SlashPath.base pathSigns t) : SlashPath.base pathSigns t = [slash] := by
  rw [SlashPath.base] at member ⊢
  split at member
  · exact absurd member (by decide)
  · rename_i some_
    rw [if_neg some_]
    split at member
    · rfl
    · have held := mem_takeWhile_imp (mem_reverse.mp member)
      simp [pathSigns] at held

/-- The directory itself, read with its path cut short, is no node that ls could show. -/
theorem own_apart {query left back : Text} (split_ : SlashPath.clean pathSigns query = left ++ back)
    (some_ : back ≠ []) (some_' : left ≠ []) (tidy : Tidy (SlashPath.base pathSigns left))
    (path : left = SlashPath.join pathSigns [SlashPath.clean pathSigns query, SlashPath.base pathSigns left]) : False := by
  have positive := length_pos_of_ne_nil some_'
  have shorter : left.length < (SlashPath.clean pathSigns query).length := by
    have more := length_pos_of_ne_nil some_
    rw [split_, length_append]
    omega
  by_cases inside : slash ∈ SlashPath.base pathSigns left
  · -- only the root has its slash for a name, and joined to a path it changes nothing
    rw [base_slash inside, join_some (clean_some query) (cons_ne_nil _ _)] at path
    have reduced := @SlashPath.stackOf_reduced _ _ pathSigns query
    have idle : SlashPath.cleanStep pathSigns (SlashPath.rooted pathSigns query) (SlashPath.stackOf pathSigns query) [] =
        SlashPath.stackOf pathSigns query := if_pos (.inl rfl)
    have same := SlashPath.clean_behind reduced [slash]
    rw [show [slash].splitOn pathSigns.slash = [[], []] from rfl, foldl_cons, foldl_cons, foldl_nil, idle,
      idle] at same
    rw [path.trans same] at shorter
    exact Nat.lt_irrefl _ shorter
  · have one : ∀ t : Text, t.length = 1 → SlashPath.clean pathSigns query ≠ t := by
      rintro t single rfl
      omega
    rw [join_below (one _ rfl) (tidy_plain tidy inside), below_eq, stem, if_neg (one _ rfl)] at path
    have lengths := congrArg length path
    rw [length_append, length_append, length_singleton] at lengths
    omega

theorem device_type {e : Entry} (device : e.kind.device.isSome = true) : e.kind.nodeType = .file := by
  cases own : e.kind <;> first | rfl | (rw [own] at device; cases device)

/-- What the two commands give for each entry is the same, and the directory itself gives nothing. -/
structure Matched (d : Directory) : Prop where
  own : ownFace d = none
  tidy : ∀ e ∈ d.entries, Tidy (kept e) ∧ d.path ≠ text "." ∨
    d.path = text "/" ∧ kept e = [] ∧ e.kind.device = none
  each : ∀ e ∈ d.entries, e.kind.device = none → lsFaces d.path e = (findFace d.path e).toList
  devices : ((devices d).filterMap (findFace d.path)).Perm ((devices d).flatMap (lsFaces d.path))

theorem devices_split (d : Directory) :
    ((d.entries.filter fun e => e.kind.device.isNone) ++ devices d).Perm d.entries := by
  have perm := filter_append_perm (fun e : Entry => e.kind.device.isNone) d.entries
  rw [devices]
  convert perm using 3
  funext e
  cases e.kind.device <;> rfl

theorem plain_alike (each : ∀ e ∈ d.entries, e.kind.device = none → lsFaces d.path e = (findFace d.path e).toList) :
    (d.entries.filter fun e => e.kind.device.isNone).filterMap (findFace d.path) =
      (d.entries.filter fun e => e.kind.device.isNone).flatMap (lsFaces d.path) := by
  rw [filterMap_eq_flatMap_toList]
  refine flatMap_congr fun e member => ?_
  obtain ⟨listed, none_⟩ := mem_filter.mp member
  exact (each e listed (Option.isNone_iff_eq_none.mp none_)).symm

/-- Both sides of the comparison, with what is no device in front. -/
theorem sides (d : Directory) : (d.entries.filterMap (findFace d.path)).Perm
        ((d.entries.filter fun e => e.kind.device.isNone).filterMap (findFace d.path) ++
          (devices d).filterMap (findFace d.path)) ∧
      (d.entries.flatMap (lsFaces d.path)).Perm
        ((d.entries.filter fun e => e.kind.device.isNone).flatMap (lsFaces d.path) ++
          (devices d).flatMap (lsFaces d.path)) := by
  rw [← filterMap_append, ← flatMap_append]
  exact ⟨((devices_split d).filterMap _).symm, ((devices_split d).flatMap_right _).symm⟩

theorem matched_perm (matched : Matched d) : (findFaces d).Perm (d.entries.flatMap (lsFaces d.path)) := by
  obtain ⟨left, right⟩ := sides d
  rw [findFaces, matched.own, Option.toList_none, nil_append]
  refine left.trans (List.Perm.trans ?_ right.symm)
  rw [plain_alike matched.each]
  exact matched.devices.append_left _

theorem perm_matched (perm : (findFaces d).Perm (d.entries.flatMap (lsFaces d.path))) : Matched d := by
  obtain ⟨query, cleaned⟩ := d.cleaned
  have range : ∀ x ∈ findFaces d, Tidy x.1 ∧ x.2.1 = SlashPath.join pathSigns [d.path, x.1] := by
    intro x member
    obtain ⟨e, _, shown⟩ := mem_flatMap.mp (perm.mem_iff.mp member)
    exact ls_faces_range shown
  have own : ownFace d = none := by
    by_contra some_
    obtain ⟨x, is⟩ := Option.ne_none_iff_exists'.mp some_
    obtain ⟨tidy, path⟩ := range x (mem_append_left _ (by rw [is]; exact mem_singleton_self x))
    rw [own_face] at is
    split at is
    · cases is
    rename_i held
    obtain rfl := Option.some.inj is
    push Not at held
    obtain ⟨back, split_, _⟩ := @Blanks.trimEnd_split _ isSpace d.path
    have more : back ≠ [] := by
      rintro rfl
      rw [append_nil] at split_
      exact held.1 split_.symm
    simp only at path tidy
    rw [cleaned] at path split_ tidy held
    exact own_apart split_ more held.2.1 tidy path
  rw [findFaces, own, Option.toList_none, nil_append] at perm range
  have found : ∀ e ∈ d.entries, ∀ x, findFace d.path e = some x → Tidy (kept e) ∧ d.path ≠ text "." := by
    intro e member x is
    obtain ⟨tidy, path⟩ := range x (mem_filterMap.mpr ⟨e, member, is⟩)
    rw [cleaned] at is path ⊢
    exact find_in_range is tidy path
  have least : ∀ e ∈ d.entries, (findFace d.path e).toList.length ≤ (lsFaces d.path e).length := by
    intro e member
    cases is : findFace d.path e with
    | none => exact Nat.zero_le _
    | some x =>
      rw [Option.toList_some, length_singleton]
      obtain ⟨tidy, _⟩ := found e member x is
      cases device : e.kind.device with
      | none =>
        rw [ls_tidy device tidy, length_cons]
        omega
      | some numbers => rw [ls_device (Option.isSome_iff_exists.mpr ⟨numbers, device⟩), length_singleton]
  have lengths := lengths_equal least perm.length_eq.symm
  have each : ∀ e ∈ d.entries, e.kind.device = none → lsFaces d.path e = (findFace d.path e).toList := by
    intro e member device
    have length := lengths e member
    cases is : findFace d.path e with
    | none =>
      rw [is, Option.toList_none, length_nil] at length
      exact length_eq_zero_iff.mp length
    | some x =>
      obtain ⟨tidy, other⟩ := found e member x is
      have shown := @ls_tidy d.path e device tidy
      rw [is, Option.toList_some, length_singleton, shown, length_cons, Nat.add_eq_right,
        length_eq_zero_iff] at length
      rw [find_tidy tidy] at is
      rw [shown, length, ← Option.some.inj is, Option.toList_some, cleaned]
      rw [join_below (cleaned ▸ other) (tidy_plain tidy (kept_slash e))]
  refine ⟨own, fun e member => ?_, each, ?_⟩
  · cases is : findFace d.path e with
    | some x => exact .inl (found e member x is)
    | none =>
      have root := is
      rw [find_face] at root
      split at root
      · rename_i both
        refine .inr ⟨both.1, both.2, ?_⟩
        by_contra device
        have length := lengths e member
        rw [is, ls_device (Option.isSome_iff_ne_none.mpr device)] at length
        cases length
      · cases root
  · obtain ⟨left, right⟩ := sides d
    have whole := left.symm.trans (perm.trans right)
    rw [plain_alike each] at whole
    exact (perm_append_left_iff _).mp whole

theorem time_below {query : Text} (other : SlashPath.clean pathSigns query ≠ text ".") (e : Entry) :
    SlashPath.join pathSigns [SlashPath.clean pathSigns query, e.time] = below (SlashPath.clean pathSigns query) e.time :=
  join_below other (tidy_plain (time_tidy e) e.time_plain)

theorem found_devices (tidy : ∀ e ∈ devices d, Tidy (kept e)) : (devices d).filterMap (findFace d.path) =
      (devices d).map fun e => (kept e, below d.path (kept e), .file, (e.size : Int)) := by
  rw [← filterMap_eq_map]
  refine filterMap_congr fun e member => ?_
  rw [find_tidy (tidy e member), device_type (mem_filter.mp member).2]
  rfl

theorem shown_devices : (devices d).flatMap (lsFaces d.path) =
    (devices d).map fun e => (e.time, SlashPath.join pathSigns [d.path, e.time], .file, (0 : Int)) := by
  rw [← flatMap_pure_eq_map]
  refine flatMap_congr fun e member => ?_
  rw [ls_device (mem_filter.mp member).2]
  rfl

theorem matched_alike (matched : Matched d) : Alike d := by
  have tidy : ∀ e ∈ devices d, Tidy (kept e) := by
    intro e member
    obtain ⟨listed, device⟩ := mem_filter.mp member
    rcases matched.tidy e listed with ⟨tidy, _⟩ | ⟨_, _, none_⟩
    · exact tidy
    · rw [none_] at device
      cases device
  have perm := matched.devices
  rw [found_devices tidy, shown_devices] at perm
  refine ⟨?own, ?relative, ?names, ?targets, ?sizes, ?times⟩
  case own =>
    have own := matched.own
    rw [own_face] at own
    by_contra held
    rw [if_neg held] at own
    cases own
  case relative =>
    intro dot
    refine eq_nil_iff_forall_not_mem.mpr fun e member => ?_
    rcases matched.tidy e member with ⟨_, other⟩ | ⟨root, _⟩
    · exact other dot
    · exact absurd (dot.symm.trans root) (by decide)
  case names =>
    intro e member
    rcases matched.tidy e member with ⟨tidy, _⟩ | ⟨root, none_, device⟩
    · exact .inl tidy
    · refine .inr ⟨root, none_, device, ?_⟩
      have each := matched.each e member device
      rw [find_face, if_pos ⟨root, none_⟩] at each
      rcases @ls_blank d.path e device none_ with ⟨_, target⟩ | ⟨some_, _⟩
      · exact target
      · exact absurd each some_
  case targets =>
    intro e member target shown line further
    have device : e.kind.device = none := by
      by_contra device
      cases (device_target (Option.isSome_iff_ne_none.mpr device)).symm.trans shown
    have each := matched.each e member device
    have lines_ : furtherLines e = (target.splitOn newline).tail := by rw [furtherLines, shown]
    rcases matched.tidy e member with ⟨tidy, _⟩ | ⟨root, none_, _⟩
    · rw [ls_tidy device tidy, find_tidy tidy, Option.toList_some] at each
      have gone := map_eq_nil_iff.mp (cons.inj each).2
      rw [lines_, filterMap_eq_nil_iff] at gone
      exact lsNode_none.mp (gone line further)
    · rw [find_face, if_pos ⟨root, none_⟩] at each
      rcases @ls_blank d.path e device none_ with ⟨_, free⟩ | ⟨some_, _⟩
      · cases free.symm.trans shown
      · exact absurd each some_
  case sizes =>
    intro e member
    have held := perm.mem_iff.mp (mem_map_of_mem member)
    obtain ⟨e', _, same⟩ := mem_map.mp held
    have zero := congrArg (fun x => x.2.2.2) same
    exact (Int.ofNat_eq_zero.mp zero.symm)
  case times =>
    have names := perm.map Prod.fst
    rwa [map_map, map_map] at names

theorem alike_matched (alike : Alike d) : Matched d := by
  obtain ⟨query, cleaned⟩ := d.cleaned
  have other : ∀ e ∈ d.entries, d.path ≠ text "." := by
    intro e member dot
    rw [alike.relative dot] at member
    exact not_mem_nil member
  have tidy : ∀ e ∈ devices d, Tidy (kept e) := by
    intro e member
    obtain ⟨listed, device⟩ := mem_filter.mp member
    rcases alike.names e listed with tidy | ⟨_, _, none_, _⟩
    · exact tidy
    · rw [none_] at device
      cases device
  refine ⟨?own, ?tidy, ?each, ?devices⟩
  case own => rw [own_face, if_pos alike.own]
  case tidy =>
    intro e member
    rcases alike.names e member with tidy | ⟨root, none_, device, _⟩
    · exact .inl ⟨tidy, other e member⟩
    · exact .inr ⟨root, none_, device⟩
  case each =>
    intro e member device
    have idle : (furtherLines e).filterMap (lsNode d.path) = [] := by
      rw [filterMap_eq_nil_iff, furtherLines]
      cases shown : e.kind.target with
      | none => exact fun _ member => absurd member not_mem_nil
      | some target => exact fun line further => lsNode_none.mpr (alike.targets e member target shown line further)
    rcases alike.names e member with tidy | ⟨root, none_, _, target⟩
    · rw [ls_tidy device tidy, idle, find_tidy tidy, Option.toList_some, map_nil, cleaned,
        join_below (cleaned ▸ other e member) (tidy_plain tidy (kept_slash e))]
    · rcases @ls_blank d.path e device none_ with ⟨empty, _⟩ | ⟨_, _, link⟩
      · rw [empty, find_face, if_pos ⟨root, none_⟩, Option.toList_none]
      · cases target.symm.trans link
  case devices =>
    rw [found_devices tidy, shown_devices]
    have sizes : (devices d).map (fun e => (kept e, below d.path (kept e), NodeType.file, (e.size : Int))) =
        ((devices d).map kept).map fun name => (name, below d.path name, NodeType.file, (0 : Int)) := by
      rw [map_map]
      refine map_congr_left fun e member => ?_
      rw [alike.sizes e member]
      rfl
    have times : (devices d).map (fun e => (e.time, SlashPath.join pathSigns [d.path, e.time], NodeType.file, (0 : Int))) =
        ((devices d).map Entry.time).map fun name => (name, below d.path name, NodeType.file, (0 : Int)) := by
      rw [map_map]
      refine map_congr_left fun e member => ?_
      have apart := other e (mem_filter.mp member).1
      rw [cleaned] at apart ⊢
      rw [time_below apart]
      rfl
    rw [sizes, times]
    exact alike.times.map _

/-- The two listings have the same entries exactly where names have no blanks but at their end, no device has
    its name's place shifted for the worse, and the path is neither the working directory's nor cut short. -/
theorem listings_agree_iff (sorting : Sorting) (d : Directory) :
    SameEntries (parseFindOutput sorting (findOutput d) d.path).1 (parseLSOutput sorting (lsOutput d) d.path) ↔ Alike d := by
  have left := find_all sorting d
  have right := ls_all sorting d
  constructor
  · intro same
    exact matched_alike (perm_matched (left.symm.trans (List.Perm.trans same right)))
  · intro alike
    exact left.trans ((matched_perm (alike_matched alike)).trans right.symm)

end Settle

section Sample

def rank (n : FileNode) : Nat ×ₗ List Nat :=
  toLex (if n.type = .dir then 0 else 1, (bytesOf n.name).map UInt8.toNat)

theorem less_ranks : Selection.Ranks less rank := by
  intro a b
  rw [rank, rank, Prod.Lex.toLex_lt_toLex, less]
  by_cases first : a.type = .dir <;> by_cases second : b.type = .dir <;> simp [first, second]

def stable : Sorting where
  sort := Arrange.sortStable less
  perm := Arrange.sort_perm less
  ordered nodes := (Arrange.sort_ordered less_ranks nodes).imp (Selection.ranks_not less_ranks _ _).mpr

theorem token_of (some_ : t ≠ []) (plain : t.all (fun c => ! isSpace c) = true) : Token isSpace t :=
  ⟨some_, fun c member => by simpa using all_eq_true.mp plain c member⟩

/-- A file or directory of one byte with the name given. -/
def sample (name : String) (kind : Kind) (some_ : text name ≠ []) (plain : newline ∉ text name ∧ slash ∉ text name) :
    Entry where
  name := text name
  kind := kind
  size := 1
  stamp := text "1714550400.0"
  octal := text "644"
  bits := text "rw-r--r--"
  links := text "1"
  owner := text "root"
  group := text "root"
  month := text "May"
  day := text "1"
  time := text "10:00"
  gaps := fun _ => 0
  size_fits := by decide
  name_some := some_
  name_plain := plain
  bits_plain := by decide
  tokens := by
    intro t member
    simp only [List.mem_cons, List.not_mem_nil, or_false] at member
    rcases member with rfl | rfl | rfl | rfl | rfl | rfl | rfl | rfl <;> exact token_of (by decide) (by decide)
  time_digit := ⟨'1', text "0:00", rfl, rfl⟩
  time_plain := by decide

def spaced : Directory where
  path := text "/srv"
  entries := [sample "a b" .regular (by decide) (by decide)]
  self := sample "." .directory (by decide) (by decide)
  parent := sample ".." .directory (by decide) (by decide)
  total := text "4"
  found := [sample "a b" .regular (by decide) (by decide)]
  listed := [sample "." .directory (by decide) (by decide), sample ".." .directory (by decide) (by decide),
    sample "a b" .regular (by decide) (by decide)]
  cleaned := ⟨text "/srv", by decide⟩
  path_plain := by decide
  self_name := rfl
  self_kind := rfl
  parent_name := rfl
  parent_kind := rfl
  total_token := token_of (by decide) (by decide)
  found_perm := List.Perm.refl _
  listed_perm := List.Perm.refl _

/-- A file named a b is a b to find and a to ls. -/
theorem spaced_differs : ¬ ∀ (sorting : Sorting) (d : Directory),
    SameEntries (parseFindOutput sorting (findOutput d) d.path).1 (parseLSOutput sorting (lsOutput d) d.path) := by
  intro all
  have names := (all stable spaced).map Prod.fst
  have found := names.mem_iff.mp (show text "a b" ∈ _ by decide +kernel)
  revert found
  decide +kernel

end Sample
end PodFileListing
