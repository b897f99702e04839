import Radar.Issues.Grouping
import Radar.Timeline.Rfc3339

/- packages/k8s-ui/src/components/issues/types.ts: the order in which the browser sorts the issues it received, beside the
   server's. Fields are ASCII, so that the code units of a text are its characters. -/
namespace ClientOrder
open Timeline Issues IssueGrouping TextOrder Rfc3339 Arrange Selection

section Model

/-- What the comparator reads of a row of the response, with the fields that may be absent. -/
structure WireIssue where
  severity : Severity
  source : String
  first_seen : Option String
  cluster_name : Option String
  namespace_ : Option String
  name : String
  id : String

def issueSeverityRank : Severity → Int
  | .critical => 2
  | .warning => 1

def issueSourceRanks : List (String × Int) :=
  [("scheduling", 4), ("missing_ref", 3), ("condition", 2), ("problem", 1)]

def localeCompare (a b : String) : Int := match cmp a b with
  | .lt => -1
  | .eq => 0
  | .gt => 1

def compareIssues (a b : WireIssue) : Int :=
  let r := issueSeverityRank b.severity - issueSeverityRank a.severity
  let sr := (issueSourceRanks.lookup b.source).getD 0 - (issueSourceRanks.lookup a.source).getD 0
  let fa := a.first_seen.getD ""
  let fb := b.first_seen.getD ""
  let c := localeCompare (a.cluster_name.getD "") (b.cluster_name.getD "")
  let ns := localeCompare (a.namespace_.getD "") (b.namespace_.getD "")
  let nm := localeCompare a.name b.name
  if r ≠ 0 then r
  else if sr ≠ 0 then sr
  else if fa ≠ fb then localeCompare fb fa
  else if c ≠ 0 then c
  else if ns ≠ 0 then ns
  else if nm ≠ 0 then nm
  else localeCompare a.id b.id

/-- The tags of the fields: first_seen is left out when zero, namespace when empty. -/
def wire (i : Issue) : WireIssue where
  severity := i.severity
  source := i.source.text
  first_seen := if i.firstSeen.isZero then none else some (String.ofList (formatRFC3339Nano i.firstSeen))
  cluster_name := none
  namespace_ := if i.namespace_ = "" then none else some i.namespace_
  name := i.name
  id := i.id

def clientLess (a b : Issue) : Bool := decide (compareIssues (wire a) (wire b) < 0)

end Model

section Keys

theorem locale_compare_neg (a b : String) : localeCompare a b < 0 ↔ a < b := by
  rw [← cmp_eq_lt_iff a b, localeCompare]
  cases cmp a b <;> decide

theorem locale_compare_zero (a b : String) : localeCompare a b = 0 ↔ a = b := by
  rw [← cmp_eq_eq_iff a b, localeCompare]
  cases cmp a b <;> decide

/-- A comparison that goes on to the next key where the first one ties. -/
theorem next_neg (x y : Int) : (if x ≠ 0 then x else y) < 0 ↔ x < 0 ∨ x = 0 ∧ y < 0 := by
  split <;> omega

theorem seen_neg (fa fb : String) (y : Int) :
    (if fa ≠ fb then localeCompare fb fa else y) < 0 ↔ fb < fa ∨ fa = fb ∧ y < 0 := by
  by_cases same : fa = fb
  · simp [same]
  · simp [same, locale_compare_neg]

theorem severity_rank_lt (a b : Severity) :
    issueSeverityRank b - issueSeverityRank a < 0 ↔ severityRank b < severityRank a := by
  cases a <;> cases b <;> decide

theorem severity_rank_zero (a b : Severity) :
    issueSeverityRank b - issueSeverityRank a = 0 ↔ severityRank a = severityRank b := by
  cases a <;> cases b <;> decide

theorem source_rank (s : Source) : (issueSourceRanks.lookup s.text).getD 0 = (issueSourceRank s : Int) := by
  cases s with
  | other name undeclared =>
    have apart := other_text undeclared
    simp [issueSourceRanks, issueSourceRank, Source.text, List.lookup_cons, apart, beq_eq_false_iff_ne.mpr, Ne.symm]
  | _ => rfl

theorem source_rank_lt (a b : Source) :
    (issueSourceRanks.lookup b.text).getD 0 - (issueSourceRanks.lookup a.text).getD 0 < 0 ↔ issueSourceRank b < issueSourceRank a := by
  rw [source_rank, source_rank]
  omega

theorem source_rank_zero (a b : Source) :
    (issueSourceRanks.lookup b.text).getD 0 - (issueSourceRanks.lookup a.text).getD 0 = 0 ↔ issueSourceRank a = issueSourceRank b := by
  rw [source_rank, source_rank]
  omega

/-- The text of first_seen as the comparator sees it. -/
def seenText (t : Time) : String := if t.isZero then "" else String.ofList (formatRFC3339Nano t)

def clientKey (i : Issue) : ℕᵒᵈ ×ₗ ℕᵒᵈ ×ₗ Stringᵒᵈ ×ₗ String ×ₗ String ×ₗ String :=
  toLex (OrderDual.toDual (severityRank i.severity), toLex (OrderDual.toDual (issueSourceRank i.source),
      toLex (OrderDual.toDual (seenText i.firstSeen), toLex (i.namespace_, toLex (i.name, i.id)))))

theorem wire_seen (i : Issue) : (wire i).first_seen.getD "" = seenText i.firstSeen := by
  rw [wire, seenText]
  split <;> rfl

theorem wire_namespace (i : Issue) : (wire i).namespace_.getD "" = i.namespace_ := by
  change (if i.namespace_ = "" then none else some i.namespace_).getD "" = i.namespace_
  split
  · exact Eq.symm ‹_›
  · rfl

theorem client_ranks : Ranks clientLess clientKey := by
  intro a b
  have clusters : localeCompare ((wire a).cluster_name.getD "") ((wire b).cluster_name.getD "") = 0 :=
    (locale_compare_zero _ _).mpr rfl
  rw [clientLess, decide_eq_true_iff, compareIssues]
  simp only [next_neg, seen_neg, clusters, wire_seen, wire_namespace, locale_compare_neg, locale_compare_zero]
  simp only [wire, source_rank_lt, source_rank_zero, severity_rank_lt, severity_rank_zero, clientKey, Prod.Lex.toLex_lt_toLex,
    OrderDual.toDual_lt_toDual, OrderDual.toDual_inj, lt_irrefl, false_or, true_and]

end Keys

section Onsets

theorem lex_lt_iff (x y : List Char) : lexCompare x y = .lt ↔ x < y := by
  induction x generalizing y with
  | nil => cases y <;> simp
  | cons c x ih =>
    cases y with
    | nil => simp
    | cons d y => rw [lex_cons, Ordering.then_eq_lt, cmp_eq_lt_iff, cmp_eq_eq_iff, ih, List.cons_lt_cons_iff]

theorem cmp_texts (x y : List Char) : cmp (String.ofList x) (String.ofList y) = lexCompare x y := by
  have lists : ∀ u v : List Char, String.ofList u < String.ofList v ↔ lexCompare u v = .lt := by
    intro u v
    rw [lex_lt_iff, String.lt_iff_toList_lt, String.toList_ofList, String.toList_ofList]
  cases order : lexCompare x y with
  | lt => exact (cmp_eq_lt_iff _ _).mpr ((lists x y).mpr order)
  | eq => exact (cmp_eq_eq_iff _ _).mpr (congrArg String.ofList (lex_eq_iff.mp order))
  | gt => exact (cmp_eq_gt_iff _ _).mpr ((lists y x).mpr (by rw [← lex_swap, order]; rfl))

/-- The texts of two onsets compare as the onsets do; the zero time has no text. -/
def OnsetsKept (t u : Time) : Prop := if t.isZero ∨ u.isZero then 0 ≤ t.ns ∧ 0 ≤ u.ns else KeepsOrder t u

theorem text_head (t : Time) : "" < String.ofList (formatRFC3339Nano t) := by
  obtain ⟨c, rest, text⟩ : ∃ c rest, formatRFC3339Nano t = c :: rest := by
    unfold formatRFC3339Nano
    cases whole : appendInt (year t) 4 with
    | nil => exact ⟨_, _, rfl⟩
    | cons c digits => exact ⟨_, _, rfl⟩
  rw [text, String.lt_iff_toList_lt, String.toList_ofList (l := c :: rest)]
  exact List.nil_lt_cons c rest

theorem onsets_kept_iff (t u : Time) : cmp (seenText t) (seenText u) = cmp t.ns u.ns ↔ OnsetsKept t u := by
  unfold seenText OnsetsKept
  have zero : ∀ v : Time, v.isZero = true ↔ v.ns = 0 := fun v => beq_iff_eq
  by_cases first : t.isZero = true
  · have instant := (zero t).mp first
    rw [if_pos first, if_pos (Or.inl first), instant]
    by_cases second : u.isZero = true
    · rw [if_pos second, (zero u).mp second, cmp_self_eq_eq, cmp_self_eq_eq]
      simp
    · have differ := (zero u).not.mp second
      rw [if_neg second, (cmp_eq_lt_iff _ _).mpr (text_head u), eq_comm, cmp_eq_lt_iff]
      omega
  · by_cases second : u.isZero = true
    · have instant := (zero u).mp second
      have differ := (zero t).not.mp first
      rw [if_neg first, if_pos second, if_pos (Or.inr second), instant, (cmp_eq_gt_iff _ _).mpr (text_head t), eq_comm,
        cmp_eq_gt_iff]
      omega
    · rw [if_neg first, if_neg second, if_neg (by simp [first, second]), cmp_texts, keeps_order_iff]

end Onsets

section Agreement

/-- The keys behind the onset: namespace, name and ID. -/
def tailKey (i : Issue) : String ×ₗ String ×ₗ String := toLex (i.namespace_, toLex (i.name, i.id))

/-- Of two issues of one severity and one rank of source: their onsets compare alike, or they tie on one side only
    and the keys behind decide as the other side does. -/
def Agree (x y : Issue) : Prop :=
  severityRank x.severity = severityRank y.severity → issueSourceRank x.source = issueSourceRank y.source →
    OnsetsKept x.firstSeen y.firstSeen ∨
    (x.firstSeen.ns = y.firstSeen.ns ∧ (seenText x.firstSeen < seenText y.firstSeen ↔ tailKey y < tailKey x)) ∨
    (seenText x.firstSeen = seenText y.firstSeen ∧ (x.firstSeen.ns < y.firstSeen.ns ↔ tailKey y < tailKey x))

/-- Two comparisons that share what follows them agree on a pair. -/
theorem ties_agree_iff {α β : Type} [LinearOrder α] [LinearOrder β] (a a' : α) (b b' : β) (behind : Prop) :
    ((a < a' ∨ a' = a ∧ behind) ↔ (b < b' ∨ b' = b ∧ behind)) ↔
      cmp b b' = cmp a a' ∨ (a = a' ∧ (b < b' ↔ behind)) ∨ (b = b' ∧ (a < a' ↔ behind)) := by
  rcases lt_trichotomy a a' with less | rfl | more
  · rw [(cmp_eq_lt_iff a a').mpr less, cmp_eq_lt_iff]
    simp only [less, less.ne, less.ne', true_or, true_iff, false_and, false_or]
    tauto
  · rw [cmp_self_eq_eq, cmp_eq_eq_iff]
    rcases lt_trichotomy b b' with less | rfl | more
    · simp [less, less.ne, less.ne']
    · simp
    · simp [more.not_gt, more.ne, more.ne']
  · rw [(cmp_eq_gt_iff a a').mpr more, cmp_eq_gt_iff]
    rcases lt_trichotomy b b' with less | rfl | later
    · simp [more.not_gt, more.ne, more.ne', less, less.ne, less.ne', less.not_gt]
    · simp [more.not_gt, more.ne, more.ne']
    · simp [more.not_gt, more.ne, more.ne', later.not_gt, later.ne, later.ne', later]

theorem less_agree_iff (x y : Issue) : lessIssue y x = clientLess y x ↔ Agree x y := by
  rw [Bool.eq_iff_iff, issue_ranks, client_ranks, Agree, ← onsets_kept_iff, ← ties_agree_iff]
  simp only [issueKey, clientKey, tailKey, Prod.Lex.toLex_lt_toLex, OrderDual.toDual_lt_toDual, OrderDual.toDual_inj]
  by_cases severities : severityRank x.severity = severityRank y.severity
  · by_cases sources : issueSourceRank x.source = issueSourceRank y.source
    · simp only [severities, sources, lt_irrefl, false_or, true_and, true_implies]
    · simp only [severities, sources, Ne.symm sources, lt_irrefl, false_or, true_and, false_and, or_false, true_implies,
        false_implies]
  · simp only [severities, Ne.symm severities, false_and, or_false, false_implies]

/-- The browser's sort of a list gives the server's order exactly when every two of its issues agree. -/
theorem queues_agree_iff (issues : List Issue) :
    sortStable clientLess issues = sortStable lessIssue issues ↔ issues.Pairwise Agree := by
  rw [eq_comm, sorts_agree_iff issue_ranks client_ranks]
  simp only [less_agree_iff]

/-- A critical problem row of a pod, first seen some nanoseconds after noon of January 1, 2024. -/
def podIssue (id : String) (ns : Int) : Issue where
  severity := .critical
  source := .problem
  category := ⟨"crashloop"⟩
  categoryGroup := ⟨"runtime"⟩
  id := id
  groupingScope := ⟨"resource"⟩
  kind := "Pod"
  group := ""
  namespace_ := "shop"
  name := id
  reason := ""
  message := ""
  diagnosis := noDiagnosis
  firstSeen := ⟨63839707200000000000 + ns, 0⟩
  lastSeen := ⟨63839707200000000000 + ns, 0⟩
  count := 1
  owner := ⟨"", "", "", ""⟩
  restartCount := 0
  lastTerminatedReason := ""
  affected := ⟨0, 0, 0, 0, 0⟩
  members := []
  membersTruncated := false
  issueTiming := ""
  issueTimingBasis := ""

/-- Half a second later, and first in the server's order; the browser puts it last. -/
theorem fraction_reordered :
    sortStable lessIssue [podIssue "web-0" 0, podIssue "web-1" 500000000] = [podIssue "web-1" 500000000, podIssue "web-0" 0] ∧
    sortStable clientLess [podIssue "web-0" 0, podIssue "web-1" 500000000] = [podIssue "web-0" 0, podIssue "web-1" 500000000] := by
  have server : lessIssue (podIssue "web-1" 500000000) (podIssue "web-0" 0) = true := by decide
  have text : lexCompare (formatRFC3339Nano ⟨63839707200500000000, 0⟩) (formatRFC3339Nano ⟨63839707200000000000, 0⟩) = .lt := by
    decide
  have client : clientLess (podIssue "web-1" 500000000) (podIssue "web-0" 0) = false := by
    rw [ranks_not client_ranks]
    simp only [clientKey, podIssue, seenText, Time.isZero, Prod.Lex.toLex_le_toLex, lt_irrefl, false_or, true_and,
      OrderDual.toDual_lt_toDual]
    left
    rw [← cmp_eq_lt_iff]
    exact (cmp_texts _ _).trans text
  exact ⟨by simp [sortStable, server], by simp [sortStable, client]⟩

end Agreement

end ClientOrder
