import Mathlib.Data.List.Basic

/- pkg/ai/context/assemble.go: the sections of a diagnosis put together under a budget of bytes. A
   text is its bytes, as len and slicing have it. -/
namespace Assemble
open List

abbrev Bytes := List UInt8

/-- The bytes of a text of the source, all of them ASCII. -/
def bytes (s : String) : Bytes := s.toList.map fun c => UInt8.ofNat c.toNat

section TrimSpace

/-- The encodings of the characters unicode.IsSpace knows. -/
def spaces : List Bytes :=
  [[0x09], [0x0a], [0x0b], [0x0c], [0x0d], [0x20], [0xc2, 0x85], [0xc2, 0xa0], [0xe1, 0x9a, 0x80],
    [0xe2, 0x80, 0x80], [0xe2, 0x80, 0x81], [0xe2, 0x80, 0x82], [0xe2, 0x80, 0x83],
    [0xe2, 0x80, 0x84], [0xe2, 0x80, 0x85], [0xe2, 0x80, 0x86], [0xe2, 0x80, 0x87],
    [0xe2, 0x80, 0x88], [0xe2, 0x80, 0x89], [0xe2, 0x80, 0x8a], [0xe2, 0x80, 0xa8],
    [0xe2, 0x80, 0xa9], [0xe2, 0x80, 0xaf], [0xe2, 0x81, 0x9f], [0xe3, 0x80, 0x80]]

def trimFront (marks : List Bytes) : Nat → Bytes → Bytes
  | 0, s => s
  | fuel + 1, s =>
    match marks.find? fun mark => mark.isPrefixOf s with
    | none => s
    | some mark => trimFront marks fuel (s.drop mark.length)

/-- strings.TrimSpace: a space at the end ends with its encoding's last byte. -/
def trimSpace (s : Bytes) : Bytes := let front := trimFront spaces s.length s
  (trimFront (spaces.map List.reverse) front.length front.reverse).reverse

theorem trimFront_length (marks : List Bytes) (fuel : Nat) (s : Bytes) :
    (trimFront marks fuel s).length ≤ s.length := by
  induction fuel generalizing s with
  | zero => exact Nat.le_refl _
  | succ fuel ih =>
    rw [trimFront]
    split
    · exact Nat.le_refl _
    · rename_i mark _
      have shorter := ih (s.drop mark.length)
      rw [length_drop] at shorter
      omega

theorem trimSpace_length (s : Bytes) : (trimSpace s).length ≤ s.length := by
  have front := trimFront_length spaces s.length s
  have back := trimFront_length (spaces.map reverse)
    (trimFront spaces s.length s).length (trimFront spaces s.length s).reverse
  rw [length_reverse] at back
  rw [trimSpace, length_reverse]
  omega

theorem trimFront_plain {marks : List Bytes} {b : UInt8} {s : Bytes}
    (plain : marks.find? (fun mark => mark.isPrefixOf (b :: s)) = none) (fuel : Nat) :
    trimFront marks fuel (b :: s) = b :: s := by
  cases fuel with
  | zero => rfl
  | succ fuel => rw [trimFront, plain]

end TrimSpace

section Sections

/-- 0 is the local budget, 1 the cloud's. -/
abbrev BudgetMode := Int

def budgetLocal : BudgetMode := 0
def budgetCloud : BudgetMode := 1
def charsPerToken : Int := 4

def maxChars (b : BudgetMode) : Int := if b = budgetLocal then 3000 * charsPerToken
  else if b = budgetCloud then 8000 * charsPerToken
  else 4000 * charsPerToken

structure ContextSections where
  resourceKind : Bytes
  resourceNamespace : Bytes
  resourceName : Bytes
  minifiedResource : Bytes := []
  events : Bytes := []
  logs : Bytes := []
  metrics : Bytes := []
  relationships : Bytes := []
  gitOps : Bytes := []
  traffic : Bytes := []
  notes : List Bytes := []

structure Section where
  tag : Bytes
  content : Bytes
  priority : Nat
  deriving DecidableEq

def header (sections : ContextSections) : Bytes :=
  bytes "Resource: " ++ sections.resourceKind ++ bytes "/" ++ sections.resourceNamespace ++
    bytes "/" ++ sections.resourceName ++ bytes "\n\n"

def notesTag : Bytes := bytes "context_notes"

def allSections (sections : ContextSections) : List Section :=
  [⟨bytes "resource", sections.minifiedResource, 1⟩, ⟨bytes "events", sections.events, 2⟩,
    ⟨bytes "logs", sections.logs, 3⟩,
    ⟨bytes "metrics", sections.metrics, 4⟩,
    ⟨bytes "relationships", sections.relationships, 5⟩,
    ⟨bytes "gitops", sections.gitOps, 6⟩,
    ⟨bytes "traffic", sections.traffic, 7⟩] ++
  if 0 < sections.notes.length then
    [⟨notesTag, (bytes "\n").intercalate sections.notes, 0⟩]
  else []

def activeSections (sections : ContextSections) : List Section :=
  (allSections sections).filter fun s => trimSpace s.content ≠ []

def sectionSize (s : Section) : Int := s.content.length + s.tag.length * 2 + 10

def totalSize : List Section → Int
  | [] => 0
  | s :: rest => sectionSize s + totalSize rest

end Sections

variable {s : Section} {before after : List Section} {rest : List Section} {left : Int}

section Assembly

/-- A section and the content writeSection is given for it. -/
structure Piece where
  part : Section
  body : Bytes

def whole (s : Section) : Piece := ⟨s, s.content⟩

def truncated (s : Section) (remaining : Int) : Piece where
  part := s
  body := s.content.take (remaining - s.tag.length * 2 - 10).toNat ++ bytes "\n... (truncated)"

def writeSection (tag content : Bytes) : Bytes :=
  bytes "<" ++ tag ++ bytes ">\n" ++ trimSpace content ++ bytes "\n</" ++ tag ++ bytes ">\n\n"

/-- The pass that truncates. -/
def fill : Int → List Section → List Piece
  | _, [] => []
  | remaining, s :: rest =>
    if sectionSize s ≤ remaining then whole s :: fill (remaining - sectionSize s) rest
    else if 100 < remaining then
      if 50 < remaining - s.tag.length * 2 - 10 then [truncated s remaining] else []
    else fill remaining rest

/-- What the header leaves of the budget. -/
def room (sections : ContextSections) (budget : BudgetMode) : Int :=
  maxChars budget - (header sections).length

def pieces (sections : ContextSections) (budget : BudgetMode) : List Piece :=
  if totalSize (activeSections sections) ≤ room sections budget then
    (activeSections sections).map whole
  else fill (room sections budget) (activeSections sections)

def assembleContext (sections : ContextSections) (budget : BudgetMode) : Bytes :=
  header sections ++ (pieces sections budget).flatMap fun p => writeSection p.part.tag p.body

end Assembly

section Spec

def Present (s : Section) (written : List Piece) : Prop := ∃ p ∈ written, p.part = s

structure MeetsBudget (sections : ContextSections) (budget : BudgetMode) : Prop where
  length : ((assembleContext sections budget).length : Int) ≤ maxChars budget
  notes : ∀ s ∈ activeSections sections, s.tag = notesTag → Present s (pieces sections budget)
  priority : ∀ s ∈ activeSections sections, whole s ∉ pieces sections budget →
    ∀ t ∈ activeSections sections, s.priority < t.priority → ¬ Present t (pieces sections budget)

/-- What TrimSpace takes off a text. -/
def trimmedOff (s : Bytes) : Int := s.length - (trimSpace s).length

/-- What the estimate allows the sections and they do not take: the spaces around them, and one byte
    each. -/
def slack : List Section → Int
  | [] => 0
  | s :: rest => trimmedOff s.content + 1 + slack rest

/-- With more than 100 bytes left at the section that overflows, the notes must be that section and
    stand alone (or end with the marker where they are cut), and the marker must fit into the
    slack. -/
def CutSafe (before : List Section) (s : Section) (after : List Section) (left : Int) : Prop :=
  (∀ t ∈ before ++ s :: after, t.tag = notesTag →
      t = s ∧ (before = [] ∨ (truncated s left).body = s.content)) ∧
    15 ≤ slack before + trimmedOff (truncated s left).body

/-- With less, nothing but the notes may still fit, and the notes must. -/
def SkipSafe (s : Section) (after : List Section) (left : Int) : Prop :=
  s.tag ≠ notesTag ∧ ∀ t ∈ after, sectionSize t ≤ left ↔ t.tag = notesTag

/-- The condition at the first section that does not fit, if there is one. -/
def BudgetSafe (sections : ContextSections) (budget : BudgetMode) : Prop :=
  ∀ before s after, activeSections sections = before ++ s :: after →
    totalSize before ≤ room sections budget →
    room sections budget - totalSize before < sectionSize s →
    if 100 < room sections budget - totalSize before then
      CutSafe before s after (room sections budget - totalSize before)
    else SkipSafe s after (room sections budget - totalSize before)

end Spec

section Order

/-- The order of the sections: the notes last, the others by falling priority. -/
def Ahead (s t : Section) : Prop := s.tag ≠ notesTag ∧ (t.tag = notesTag → t.priority < s.priority) ∧
    (t.tag ≠ notesTag → s.priority < t.priority)

theorem ahead_ne {s t : Section} (ahead : Ahead s t) : s ≠ t := by
  intro same
  subst same
  have falls := ahead.2.2 ahead.1
  omega

theorem other_tags : (bytes "resource" ≠ notesTag ∧ bytes "events" ≠ notesTag ∧ bytes "logs" ≠ notesTag) ∧
      bytes "metrics" ≠ notesTag ∧ bytes "relationships" ≠ notesTag ∧
      bytes "gitops" ≠ notesTag ∧ bytes "traffic" ≠ notesTag := by
  decide

theorem allSections_ahead (sections : ContextSections) : (allSections sections).Pairwise Ahead := by
  have tags := other_tags
  unfold allSections
  split <;> simp [Ahead, tags]

theorem activeSections_ahead (sections : ContextSections) : (activeSections sections).Pairwise Ahead :=
  (allSections_ahead sections).filter _

theorem notes_priority (sections : ContextSections) :
    ∀ s ∈ allSections sections, s.tag = notesTag → s.priority = 0 := by
  have tags := other_tags
  unfold allSections
  split <;> simp [tags]

theorem allSections_tags (sections : ContextSections) : ∀ s ∈ allSections sections, s.tag.length ≤ 13 := by
  unfold allSections
  split <;> simp <;> decide

theorem tag_length {sections : ContextSections}
    (active : s ∈ activeSections sections) : s.tag.length ≤ 13 :=
  allSections_tags sections s (mem_filter.mp active).1

end Order

section Fill

theorem sectionSize_pos (s : Section) : 10 ≤ sectionSize s := by
  unfold sectionSize
  omega

theorem totalSize_nonneg (list : List Section) : 0 ≤ totalSize list := by
  induction list with
  | nil => exact Int.le_refl _
  | cons s rest ih =>
    have size := sectionSize_pos s
    rw [totalSize]
    omega

theorem totalSize_append (a b : List Section) : totalSize (a ++ b) = totalSize a + totalSize b := by
  induction a with
  | nil => simp [totalSize]
  | cons s rest ih =>
    rw [cons_append, totalSize, totalSize, ih]
    omega

/-- The sections before the one that overflows are written whole. -/
theorem fill_before {before rest : List Section} (fits : totalSize before ≤ left) :
    fill left (before ++ rest) = before.map whole ++ fill (left - totalSize before) rest := by
  induction before generalizing left with
  | nil => simp [totalSize]
  | cons s before ih =>
    have others := totalSize_nonneg before
    rw [totalSize] at fits
    have one : sectionSize s ≤ left := by omega
    have fewer : totalSize before ≤ left - sectionSize s := by omega
    have same : left - sectionSize s - totalSize before = left - totalSize (s :: before) := by
      rw [totalSize]
      omega
    rw [cons_append, fill, if_pos one, ih fewer, same]
    rfl

theorem fill_cut {after : List Section} (beyond : left < sectionSize s)
    (much : 100 < left) (short : s.tag.length ≤ 13) : fill left (s :: after) = [truncated s left] := by
  have none : ¬ sectionSize s ≤ left := by omega
  have enough : 50 < left - (s.tag.length : Int) * 2 - 10 := by omega
  rw [fill, if_neg none, if_pos much, if_pos enough]

theorem fill_skip {after : List Section} (beyond : left < sectionSize s)
    (little : left ≤ 100) : fill left (s :: after) = fill left after := by
  have none : ¬ sectionSize s ≤ left := by omega
  have low : ¬ 100 < left := by omega
  rw [fill, if_neg none, if_neg low]

/-- With little left whatever is written is written whole. -/
theorem fill_low (little : left ≤ 100) :
    ∀ p ∈ fill left rest, p.part ∈ rest ∧ p = whole p.part ∧ sectionSize p.part ≤ left := by
  induction rest generalizing left with
  | nil =>
    intro p written
    cases written
  | cons s rest ih =>
    intro p written
    by_cases fits : sectionSize s ≤ left
    · have size := sectionSize_pos s
      rw [fill, if_pos fits, mem_cons] at written
      cases written with
      | inl here =>
        subst here
        exact ⟨mem_cons_self, rfl, fits⟩
      | inr later =>
        obtain ⟨member, same, small⟩ := ih (by omega) p later
        exact ⟨mem_cons_of_mem _ member, same, by omega⟩
    · rw [fill_skip (by omega) little] at written
      obtain ⟨member, same, small⟩ := ih little p written
      exact ⟨mem_cons_of_mem _ member, same, small⟩

/-- The first section that fits is written, and it is no note if a later one is none. -/
theorem fill_low_present (little : left ≤ 100)
    (order : rest.Pairwise Ahead) {t : Section} (member : t ∈ rest) (plain : t.tag ≠ notesTag)
    (fits : sectionSize t ≤ left) : ∃ u ∈ rest, u.tag ≠ notesTag ∧ whole u ∈ fill left rest := by
  induction rest with
  | nil => cases member
  | cons s rest ih =>
    rw [pairwise_cons] at order
    by_cases now : sectionSize s ≤ left
    · refine ⟨s, mem_cons_self, ?_, ?_⟩
      · cases mem_cons.mp member with
        | inl here => exact here ▸ plain
        | inr later => exact (order.1 t later).1
      · rw [fill, if_pos now]
        exact mem_cons_self
    · have later : t ∈ rest := by
        cases mem_cons.mp member with
        | inl here => exact absurd (here ▸ fits) now
        | inr later => exact later
      obtain ⟨u, inside, other, written⟩ := ih order.2 later
      rw [fill_skip (by omega) little]
      exact ⟨u, mem_cons_of_mem _ inside, other, written⟩

/-- The notes are written where nothing before them is. -/
theorem fill_low_notes (little : left ≤ 100)
    (only : ∀ t ∈ rest, sectionSize t ≤ left ↔ t.tag = notesTag) (order : rest.Pairwise Ahead)
    {t : Section} (member : t ∈ rest) (notes : t.tag = notesTag) : whole t ∈ fill left rest := by
  induction rest with
  | nil => cases member
  | cons s rest ih =>
    rw [pairwise_cons] at order
    cases mem_cons.mp member with
    | inl here =>
      have fits := (only s mem_cons_self).mpr (here ▸ notes)
      rw [fill, if_pos fits, here]
      exact mem_cons_self
    | inr later =>
      have beyond : ¬ sectionSize s ≤ left := fun fits =>
        (order.1 t later).1 ((only s mem_cons_self).mp fits)
      rw [fill_skip (by omega) little]
      exact ih (fun u inside => only u (mem_cons_of_mem _ inside)) order.2 later

theorem overflow_split {list : List Section} (some_ : 0 ≤ left) (beyond : left < totalSize list) :
    ∃ before s after, list = before ++ s :: after ∧ totalSize before ≤ left ∧
      left - totalSize before < sectionSize s := by
  induction list generalizing left with
  | nil =>
    rw [totalSize] at beyond
    omega
  | cons s rest ih =>
    by_cases fits : sectionSize s ≤ left
    · rw [totalSize] at beyond
      obtain ⟨before, t, after, parts, enough, exceeds⟩ := @ih (left - sectionSize s) (by omega) (by omega)
      refine ⟨s :: before, t, after, by rw [parts]; rfl, ?_, ?_⟩ <;> rw [totalSize] <;> omega
    · exact ⟨[], s, rest, rfl, some_, by simp only [totalSize]; omega⟩

theorem ahead_split (order : (before ++ s :: after).Pairwise Ahead) :
    (∀ t ∈ before, ∀ u ∈ s :: after, Ahead t u) ∧ (∀ t ∈ after, Ahead s t) ∧ after.Pairwise Ahead := by
  rw [pairwise_append, pairwise_cons] at order
  exact ⟨order.2.2, order.2.1.1, order.2.1.2⟩

end Fill

section Length

/-- What a piece takes in the output. -/
def taken (p : Piece) : Int := (trimSpace p.body).length + p.part.tag.length * 2 + 9

def takenAll : List Piece → Int
  | [] => 0
  | p :: rest => taken p + takenAll rest

theorem takenAll_append (a b : List Piece) : takenAll (a ++ b) = takenAll a + takenAll b := by
  induction a with
  | nil => simp [takenAll]
  | cons p rest ih =>
    rw [cons_append, takenAll, takenAll, ih]
    omega

theorem writeSection_length (p : Piece) : ((writeSection p.part.tag p.body).length : Int) = taken p := by
  have lead : (bytes "<").length = 1 ∧ (bytes ">\n").length = 2 ∧ (bytes "\n</").length = 3 ∧
      (bytes ">\n\n").length = 3 := by decide
  simp only [writeSection, length_append, lead, taken]
  omega

theorem written_length (list : List Piece) :
    ((list.flatMap fun p => writeSection p.part.tag p.body).length : Int) = takenAll list := by
  induction list with
  | nil => rfl
  | cons p rest ih =>
    have one := writeSection_length p
    rw [flatMap_cons, length_append, takenAll]
    omega

theorem assembled_length (sections : ContextSections) (budget : BudgetMode) :
    ((assembleContext sections budget).length : Int) ≤ maxChars budget ↔
      takenAll (pieces sections budget) ≤ room sections budget := by
  have rest := written_length (pieces sections budget)
  rw [assembleContext, length_append, room]
  omega

theorem taken_whole (s : Section) : taken (whole s) = sectionSize s - (trimmedOff s.content + 1) := by
  simp only [taken, whole, sectionSize, trimmedOff]
  omega

theorem trimmedOff_nonneg (s : Bytes) : 0 ≤ trimmedOff s := by
  have shorter := trimSpace_length s
  unfold trimmedOff
  omega

theorem taken_before (list : List Section) : takenAll (list.map whole) = totalSize list - slack list := by
  induction list with
  | nil => rfl
  | cons s rest ih =>
    have one := taken_whole s
    rw [map_cons, takenAll, totalSize, slack]
    omega

theorem slack_nonneg (list : List Section) : 0 ≤ slack list := by
  induction list with
  | nil => exact Int.le_refl _
  | cons s rest ih =>
    have one := trimmedOff_nonneg s.content
    rw [slack]
    omega

/-- The marker is put on after the cut is measured, so a section that is cut takes up to 15 bytes
    more than are left. -/
theorem taken_truncated (beyond : left < sectionSize s) (room_ : (s.tag.length : Int) * 2 + 10 ≤ left) :
    taken (truncated s left) = left + 15 - trimmedOff (truncated s left).body := by
  have marker : (bytes "\n... (truncated)").length = 16 := by decide
  have size : ((truncated s left).body.length : Int) = left - s.tag.length * 2 - 10 + 16 := by
    unfold sectionSize at beyond
    simp only [truncated, length_append, length_take, marker]
    omega
  have tag : (truncated s left).part.tag = s.tag := rfl
  rw [taken, trimmedOff, tag]
  omega

theorem taken_low (some_ : 0 ≤ left) (little : left ≤ 100) : takenAll (fill left rest) ≤ left := by
  induction rest generalizing left with
  | nil => exact some_
  | cons s rest ih =>
    by_cases fits : sectionSize s ≤ left
    · have size := sectionSize_pos s
      have off := trimmedOff_nonneg s.content
      have one := taken_whole s
      have others := @ih (left - sectionSize s) (by omega) (by omega)
      rw [fill, if_pos fits, takenAll]
      omega
    · rw [fill_skip (by omega) little]
      exact ih some_ little

end Length

section Exact
variable {sections : ContextSections} {budget : BudgetMode}

theorem fitting_meets (fits : totalSize (activeSections sections) ≤ room sections budget) :
    MeetsBudget sections budget := by
  have shown : pieces sections budget = (activeSections sections).map whole := by
    rw [pieces, if_pos fits]
  constructor
  · have spare := slack_nonneg (activeSections sections)
    rw [assembled_length, shown, taken_before]
    omega
  · intro s active _
    rw [shown]
    exact ⟨whole s, mem_map_of_mem active, rfl⟩
  · intro s active missing
    rw [shown] at missing
    exact absurd (mem_map_of_mem active) missing

theorem fitting_safe (fits : totalSize (activeSections sections) ≤ room sections budget) :
    BudgetSafe sections budget := by
  intro before s after parts enough beyond
  have later := totalSize_nonneg after
  rw [parts, totalSize_append, totalSize] at fits
  omega

/-- Where the sections do not all fit, what is written before the first that does not. -/
theorem pieces_split (parts : activeSections sections = before ++ s :: after)
    (enough : totalSize before ≤ room sections budget)
    (beyond : room sections budget - totalSize before < sectionSize s) :
    pieces sections budget =
      before.map whole ++ fill (room sections budget - totalSize before) (s :: after) := by
  have later := totalSize_nonneg after
  have exceeds : ¬ totalSize (activeSections sections) ≤ room sections budget := by
    rw [parts, totalSize_append, totalSize]
    omega
  rw [pieces, if_neg exceeds, parts, fill_before enough]

theorem whole_before {before : List Section} : whole s ∈ before.map whole ↔ s ∈ before := by
  constructor
  · intro member
    obtain ⟨t, inside, same⟩ := mem_map.mp member
    have equal : t = s := congrArg Piece.part same
    exact equal ▸ inside
  · exact mem_map_of_mem

theorem present_append {before : List Section} {rest : List Piece} :
    Present s (before.map whole ++ rest) ↔ s ∈ before ∨ Present s rest := by
  constructor
  · rintro ⟨p, written, rfl⟩
    cases mem_append.mp written with
    | inl early =>
      obtain ⟨t, inside, rfl⟩ := mem_map.mp early
      exact .inl inside
    | inr late => exact .inr ⟨p, late, rfl⟩
  · intro either
    cases either with
    | inl early => exact ⟨whole s, mem_append_left _ (mem_map_of_mem early), rfl⟩
    | inr late =>
      obtain ⟨p, written, same⟩ := late
      exact ⟨p, mem_append_right _ written, same⟩

theorem cut_iff (parts : activeSections sections = before ++ s :: after)
    (remaining : left = room sections budget - totalSize before)
    (beyond : left < sectionSize s) (much : 100 < left)
    (shown : pieces sections budget = before.map whole ++ [truncated s left]) :
    MeetsBudget sections budget ↔ CutSafe before s after left := by
  have order := ahead_split (parts ▸ activeSections_ahead sections)
  have active : s ∈ activeSections sections := by rw [parts]; simp
  have short := tag_length active
  have present : ∀ t, Present t (pieces sections budget) ↔ t ∈ before ∨ t = s := by
    intro t
    rw [shown, present_append]
    simp [Present, truncated, eq_comm]
  have length : ((assembleContext sections budget).length : Int) ≤ maxChars budget ↔
      15 ≤ slack before + trimmedOff (truncated s left).body := by
    rw [assembled_length, shown, takenAll_append, taken_before, takenAll, takenAll,
      taken_truncated beyond (by omega)]
    omega
  have outside : s ∉ before := fun early => ahead_ne (order.1 s early s mem_cons_self) rfl
  constructor
  · intro meets
    refine ⟨?_, length.mp meets.length⟩
    intro t member notes
    have here : t = s := by
      cases (present t).mp (meets.notes t (parts ▸ member) notes) with
      | inl early => exact absurd notes (order.1 t early s mem_cons_self).1
      | inr here => exact here
    subst here
    refine ⟨rfl, ?_⟩
    by_contra neither
    rw [not_or] at neither
    obtain ⟨b, others, split⟩ := exists_cons_of_ne_nil neither.1
    have early : b ∈ before := by rw [split]; exact mem_cons_self
    have cut : whole t ∉ pieces sections budget := by
      rw [shown, mem_append, whole_before, mem_singleton]
      intro either
      cases either with
      | inl early => exact outside early
      | inr same => exact neither.2 (congrArg Piece.body same).symm
    have lower := (order.1 b early t mem_cons_self).2.1 notes
    have inside : b ∈ activeSections sections := by
      rw [parts]
      exact mem_append_left _ early
    exact meets.priority t active cut b inside lower ((present b).mpr (.inl early))
  · intro safe
    refine ⟨length.mpr safe.2, ?_, ?_⟩
    · intro t member notes
      exact (present t).mpr (.inr (safe.1 t (parts ▸ member) notes).1)
    · intro t member missing u _ lower seen
      rw [parts] at member
      rw [shown, mem_append, whole_before, mem_singleton, not_or] at missing
      have late : t ∈ s :: after := (mem_append.mp member).resolve_left missing.1
      cases (present u).mp seen with
      | inl early =>
        have ahead := order.1 u early t late
        by_cases notes : t.tag = notesTag
        · obtain ⟨rfl, alone | marked⟩ := safe.1 t member notes
          · rw [alone] at early
            cases early
          · exact missing.2 (by rw [whole, ← marked]; rfl)
        · have above := ahead.2.2 notes
          omega
      | inr here =>
        subst here
        cases mem_cons.mp late with
        | inl same =>
          rw [same] at lower
          omega
        | inr later =>
          have ahead := order.2.1 t later
          have plain : t.tag ≠ notesTag := fun notes => ahead_ne ahead (safe.1 t member notes).1.symm
          have above := ahead.2.2 plain
          omega

theorem skip_iff (parts : activeSections sections = before ++ s :: after)
    (remaining : left = room sections budget - totalSize before)
    (enough : 0 ≤ left) (little : left ≤ 100)
    (shown : pieces sections budget = before.map whole ++ fill left after) :
    MeetsBudget sections budget ↔ SkipSafe s after left := by
  have order := ahead_split (parts ▸ activeSections_ahead sections)
  have active : s ∈ activeSections sections := by rw [parts]; simp
  have inside : ∀ t ∈ after, t ∈ activeSections sections := by
    intro t later
    rw [parts]
    simp [later]
  have present : ∀ t, Present t (pieces sections budget) ↔ t ∈ before ∨ Present t (fill left after) := by
    intro t
    rw [shown, present_append]
  have filled : ∀ t, Present t (fill left after) → t ∈ after ∧ sectionSize t ≤ left := by
    rintro t ⟨p, written, rfl⟩
    have low := fill_low little p written
    exact ⟨low.1, low.2.2⟩
  have absent : ¬ Present s (pieces sections budget) := by
    intro seen
    cases (present s).mp seen with
    | inl early => exact ahead_ne (order.1 s early s mem_cons_self) rfl
    | inr late => exact ahead_ne (order.2.1 s (filled s late).1) rfl
  have left_out : whole s ∉ pieces sections budget := fun written => absent ⟨whole s, written, rfl⟩
  constructor
  · intro meets
    refine ⟨fun notes => absent (meets.notes s active notes), ?_⟩
    intro t later
    constructor
    · intro fits
      by_contra plain
      obtain ⟨u, member, other, written⟩ := fill_low_present little order.2.2 later plain fits
      have lower := (order.2.1 u member).2.2 other
      exact meets.priority s active left_out u (inside u member) lower
        ((present u).mpr (.inr ⟨whole u, written, rfl⟩))
    · intro notes
      cases (present t).mp (meets.notes t (inside t later) notes) with
      | inl early =>
        exact absurd notes (order.1 t early s mem_cons_self).1
      | inr late => exact (filled t late).2
  · intro safe
    have noted : ∀ t ∈ after, t.tag = notesTag → whole t ∈ fill left after := fun t later notes =>
      fill_low_notes little safe.2 order.2.2 later notes
    refine ⟨?_, ?_, ?_⟩
    · have spare := slack_nonneg before
      have rest := @taken_low after left enough little
      rw [assembled_length, shown, takenAll_append, taken_before]
      omega
    · intro t member notes
      rw [parts, mem_append, mem_cons] at member
      rw [present]
      obtain early | rfl | later := member
      · exact .inl early
      · exact absurd notes safe.1
      · exact .inr ⟨whole t, noted t later notes, rfl⟩
    · intro t member missing u other lower seen
      rw [parts] at member
      rw [shown, mem_append, whole_before, not_or] at missing
      have late : t ∈ s :: after := (mem_append.mp member).resolve_left missing.1
      have plain : t.tag ≠ notesTag := by
        intro notes
        cases mem_cons.mp late with
        | inl here => exact safe.1 (here ▸ notes)
        | inr later => exact missing.2 (noted t later notes)
      cases (present u).mp seen with
      | inl early =>
        have above := (order.1 u early t late).2.2 plain
        omega
      | inr written =>
        have fits := filled u written
        have notes := (safe.2 u fits.1).mp fits.2
        have top := notes_priority sections u (mem_filter.mp other).1 notes
        omega

/-- The budget, the notes and the priorities are kept exactly when the first section that does not
    fit is cut or skipped harmlessly. -/
theorem budget_iff (fits : ((header sections).length : Int) ≤ maxChars budget) :
    MeetsBudget sections budget ↔ BudgetSafe sections budget := by
  have some_ : 0 ≤ room sections budget := by
    rw [room]
    omega
  have at_overflow : ∀ before s after, activeSections sections = before ++ s :: after →
      totalSize before ≤ room sections budget →
      room sections budget - totalSize before < sectionSize s →
      (MeetsBudget sections budget ↔ if 100 < room sections budget - totalSize before then
          CutSafe before s after (room sections budget - totalSize before)
        else SkipSafe s after (room sections budget - totalSize before)) := by
    intro before s after parts enough beyond
    have shown := pieces_split parts enough beyond
    have active : s ∈ activeSections sections := by rw [parts]; simp
    split
    · rename_i much
      rw [fill_cut beyond much (tag_length active)] at shown
      exact cut_iff parts rfl beyond much shown
    · rename_i low
      rw [fill_skip beyond (by omega)] at shown
      exact skip_iff parts rfl (by omega) (by omega) shown
  by_cases all : totalSize (activeSections sections) ≤ room sections budget
  · exact iff_of_true (fitting_meets all) (fitting_safe all)
  · constructor
    · intro meets before s after parts enough beyond
      exact (at_overflow before s after parts enough beyond).mp meets
    · intro safe
      have exceeds : room sections budget < totalSize (activeSections sections) := by omega
      obtain ⟨before, s, after, parts, enough, beyond⟩ := overflow_split some_ exceeds
      exact (at_overflow before s after parts enough beyond).mpr (safe before s after parts enough beyond)

end Exact

section Example

def crashingPod (resource : Bytes) : ContextSections where
  resourceKind := bytes "Pod"
  resourceNamespace := bytes "shop"
  resourceName := bytes "web-1"
  minifiedResource := resource
  notes := [bytes "0 traffic metrics available"]

theorem crashing_pod_exact : ((header (crashingPod (bytes "ok"))).length : Int) ≤ maxChars budgetCloud ∧
      (MeetsBudget (crashingPod (bytes "ok")) budgetCloud ↔
        BudgetSafe (crashingPod (bytes "ok")) budgetCloud) :=
  ⟨by decide, budget_iff (by decide)⟩

theorem trimSpace_plain (n : Nat) : trimSpace (replicate (n + 1) 0x78) ≠ [] := by
  have front : spaces.find? (fun mark => mark.isPrefixOf (0x78 :: replicate n 0x78)) = none := by
    simp [spaces, isPrefixOf]
  have back : (spaces.map reverse).find?
      (fun mark => mark.isPrefixOf (0x78 :: replicate n 0x78)) = none := by
    simp [spaces, isPrefixOf]
  rw [trimSpace, replicate_succ, trimFront_plain front, ← replicate_succ,
    reverse_replicate, replicate_succ, trimFront_plain back]
  simp

/-- A long resource is cut, and the notes after it are lost. -/
theorem cut_loses_notes {content : Bytes} (plain : trimSpace content ≠ [])
    (long : content.length = 13000) : ¬ MeetsBudget (crashingPod content) budgetLocal := by
  intro meets
  have blank : trimSpace [] = [] := rfl
  have noted : trimSpace (bytes "0 traffic metrics available") ≠ [] := by decide
  have active : activeSections (crashingPod content) = [⟨bytes "resource", content, 1⟩,
        ⟨notesTag, (bytes "\n").intercalate [bytes "0 traffic metrics available"], 0⟩] := by
    simp [activeSections, allSections, crashingPod, plain, blank, noted]
  have size : sectionSize ⟨bytes "resource", content, 1⟩ = 13026 := by
    have tag : (bytes "resource").length = 8 := by decide
    simp [sectionSize, tag, long]
  have lead : (header (crashingPod content)).length = (header (crashingPod [])).length := rfl
  have counted : (header (crashingPod [])).length = 26 := by decide
  have left : room (crashingPod content) budgetLocal = 11974 := by
    rw [room, lead, counted]
    decide
  have rest := totalSize_nonneg
    [⟨notesTag, (bytes "\n").intercalate [bytes "0 traffic metrics available"], 0⟩]
  have beyond : 11974 < totalSize (activeSections (crashingPod content)) := by
    rw [active, totalSize, size]
    omega
  have shown : pieces (crashingPod content) budgetLocal =
      [truncated ⟨bytes "resource", content, 1⟩ 11974] := by
    rw [pieces, if_neg (by omega), active, left]
    exact fill_cut (by omega) (by omega) (show (bytes "resource").length ≤ 13 by decide)
  obtain ⟨p, written, part⟩ := meets.notes
    ⟨notesTag, (bytes "\n").intercalate [bytes "0 traffic metrics available"], 0⟩
    (by rw [active]; simp) rfl
  rw [shown, mem_singleton] at written
  subst written
  exact absurd (congrArg Section.tag part) (show bytes "resource" ≠ notesTag by decide)

theorem notes_lost :
    ((header (crashingPod (replicate 13000 0x78))).length : Int) ≤ maxChars budgetLocal ∧
      ¬ MeetsBudget (crashingPod (replicate 13000 0x78)) budgetLocal :=
  ⟨by decide, cut_loses_notes (trimSpace_plain 12999) length_replicate⟩

end Example

end Assemble
