import Mathlib.Data.List.Dedup
import Mathlib.Data.Prod.Lex
import Mathlib.Data.String.Basic
import Mathlib.Order.WithBot
import Radar.Base.Arrange
import Radar.Issues.Types

/- internal/issues/grouping.go: flat rows of issues folded into one row for each ID. -/
namespace IssueGrouping
open Timeline Issues Selection Arrange List
variable {xs ys : List Issue} {id : String}

def maxInlineMembers : Nat := 10

def noDiagnosis : Diagnosis := ⟨"", "", "", "", 0, false⟩

def hasDiagnosis (d : Diagnosis) : Bool :=
  d.cause != "" || d.action != "" || d.remediationKind != "" || d.remediationTarget != "" ||
    d.operationRetryCount != 0 || d.stuck

/-- The loop of agreedDiagnosis over the rows left, with the diagnosis picked so far. -/
def agreedFrom (picked : Diagnosis) : List Issue → Option Diagnosis
  | [] => some picked
  | m :: rest =>
    if ¬ hasDiagnosis m.diagnosis then none
    else if ¬ hasDiagnosis picked then agreedFrom m.diagnosis rest
    else if m.diagnosis ≠ picked then none
    else agreedFrom picked rest

def agreedDiagnosis (members : List Issue) : Option Diagnosis :=
  if members.isEmpty then none else agreedFrom noDiagnosis members

/-- The first pair of texts that differ decides. -/
def lessTexts : List String → List String → Bool
  | a :: x, b :: y => if a ≠ b then decide (a < b) else lessTexts x y
  | _, _ => false

def representativeTexts (i : Issue) : List String :=
  [i.group, i.kind, i.namespace_, i.name, i.source.text, i.reason, i.message]

def betterRepresentative (cand cur : Issue) : Bool :=
  if severityRank cand.severity ≠ severityRank cur.severity then
    decide (severityRank cur.severity < severityRank cand.severity)
  else if ¬ cand.lastSeen.equal cur.lastSeen then cand.lastSeen.after cur.lastSeen
  else lessTexts (representativeTexts cand) (representativeTexts cur)

def affectedOf (refs : List Ref) : Affected :=
  let count := fun kinds : List String => refs.countP fun r => kinds.contains r.kind
  { pods := count ["Pod"]
    workloads := count ["Deployment", "StatefulSet", "DaemonSet", "ReplicaSet", "Job", "CronJob"]
    services := count ["Service"]
    pvcs := count ["PersistentVolumeClaim"]
    nodes := count ["Node"] }

def lessRef (a b : Ref) : Bool := if a.namespace_ ≠ b.namespace_ then decide (a.namespace_ < b.namespace_)
  else if a.name ≠ b.name then decide (a.name < b.name)
  else if a.kind ≠ b.kind then decide (a.kind < b.kind)
  else decide (a.group < b.group)

/-- Whether a row's first time takes over from the group's, and its last time. -/
def earlier (t g : Time) : Bool := !t.isZero && (g.isZero || t.before g)

def later (t g : Time) : Bool := t.after g

/-- The agreement scan over the rows left, with the timing and basis found so far. -/
def timingFrom (timing basis : String) : List Issue → String × String
  | [] => (timing, basis)
  | m :: rest =>
    if m.issueTiming = "" then timingFrom timing basis rest
    else if timing = "" then timingFrom m.issueTiming m.issueTimingBasis rest
    else if timing ≠ m.issueTiming then ("", "")
    else if basis ≠ m.issueTimingBasis then timingFrom timing "" rest
    else timingFrom timing basis rest

def subjectOf (rep : Issue) : Ref := if rep.owner.kind ≠ "" then rep.owner else rep.ref

def foldGroup (first : Issue) (rest : List Issue) : Issue := let members := first :: rest
  let rep := select betterRepresentative first rest
  let subject := subjectOf rep
  let refs := sortStable lessRef ((members.map Issue.ref).filter fun own => own ≠ subject)
  let timing := timingFrom "" "" members
  { severity := rep.severity
    source := rep.source
    category := rep.category
    categoryGroup := rep.categoryGroup
    id := rep.id
    groupingScope := rep.groupingScope
    kind := subject.kind
    group := subject.group
    namespace_ := subject.namespace_
    name := subject.name
    reason := rep.reason
    message := rep.message
    diagnosis := (agreedDiagnosis members).getD noDiagnosis
    firstSeen := select earlier rep.firstSeen (members.map Issue.firstSeen)
    lastSeen := select later rep.lastSeen (members.map Issue.lastSeen)
    count := refs.length
    owner := ⟨"", "", "", ""⟩
    restartCount := rep.restartCount
    lastTerminatedReason := rep.lastTerminatedReason
    affected := affectedOf refs
    members := if maxInlineMembers < refs.length then refs.take maxInlineMembers else refs
    membersTruncated := decide (maxInlineMembers < refs.length)
    issueTiming := timing.1
    issueTimingBasis := timing.2 }

def issueSourceRank : Source → Nat
  | .scheduling => 4
  | .missingRef => 3
  | .condition => 2
  | .problem => 1
  | .other _ _ => 0

def lessIssue (a b : Issue) : Bool :=
  if a.severity ≠ b.severity then decide (severityRank b.severity < severityRank a.severity)
  else if issueSourceRank a.source ≠ issueSourceRank b.source then
    decide (issueSourceRank b.source < issueSourceRank a.source)
  else if ¬ a.firstSeen.equal b.firstSeen then a.firstSeen.after b.firstSeen
  else if a.namespace_ ≠ b.namespace_ then decide (a.namespace_ < b.namespace_)
  else if a.name ≠ b.name then decide (a.name < b.name)
  else decide (a.id < b.id)

def bucket (flat : List Issue) (id : String) : List Issue := flat.filter fun r => r.id == id

def foldBucket : List Issue → Option Issue
  | [] => none
  | first :: rest => some (foldGroup first rest)

/-- GroupIssues, its map of buckets visited in the order of the given IDs. -/
def groupIssues (ids : List String) (flat : List Issue) : List Issue :=
  sortStable lessIssue (ids.filterMap fun id => foldBucket (bucket flat id))

/-- An order in which the map may be visited: every ID of a row, each of them once. -/
structure Visits (ids : List String) (flat : List Issue) : Prop where
  once : ids.Nodup
  all : ∀ id, id ∈ ids ↔ ∃ r ∈ flat, r.id = id

section Keys

theorem less_texts_iff {x y : List String} (width : x.length = y.length) :
    lessTexts x y = true ↔ x < y := by
  induction x generalizing y with
  | nil =>
    rw [length_eq_zero_iff.mp width.symm]
    simp [lessTexts]
  | cons a x ih =>
    cases y with
    | nil => simp at width
    | cons b y =>
      rw [lessTexts, cons_lt_cons_iff]
      by_cases same : a = b
      · simp [same, ih (by simpa using width)]
      · simp [same]

def representativeKey (i : Issue) : ℕᵒᵈ ×ₗ ℤᵒᵈ ×ₗ List String :=
  toLex (OrderDual.toDual (severityRank i.severity),
    toLex (OrderDual.toDual i.lastSeen.ns, representativeTexts i))

theorem representative_ranks : Ranks betterRepresentative representativeKey := by
  intro x y
  have texts := less_texts_iff (x := representativeTexts x) (y := representativeTexts y) rfl
  rw [betterRepresentative, representativeKey, representativeKey, Prod.Lex.toLex_lt_toLex,
    Prod.Lex.toLex_lt_toLex]
  by_cases severity : severityRank x.severity = severityRank y.severity
  · by_cases seen : x.lastSeen.ns = y.lastSeen.ns
    · simp [severity, seen, Time.equal, texts]
    · simp [severity, seen, Time.equal, Time.after]
  · simp [severity]

def refKey (r : Ref) : String ×ₗ String ×ₗ String ×ₗ String :=
  toLex (r.namespace_, toLex (r.name, toLex (r.kind, r.group)))

theorem ref_ranks : Ranks lessRef refKey := by
  intro a b
  rw [lessRef, refKey, refKey, Prod.Lex.toLex_lt_toLex, Prod.Lex.toLex_lt_toLex, Prod.Lex.toLex_lt_toLex]
  by_cases namespaces : a.namespace_ = b.namespace_
  · by_cases names : a.name = b.name
    · by_cases kinds : a.kind = b.kind
      · simp [namespaces, names, kinds]
      · simp [namespaces, names, kinds]
    · simp [namespaces, names]
  · simp [namespaces]

theorem ref_key_inj {a b : Ref} (same : refKey a = refKey b) : a = b := by
  obtain ⟨group, kind, namespace_, name⟩ := a
  obtain ⟨group', kind', namespace', name'⟩ := b
  simp only [refKey, EmbeddingLike.apply_eq_iff_eq, Prod.mk.injEq] at same
  obtain ⟨namespaces, names, kinds, groups⟩ := same
  rw [namespaces, names, kinds, groups]

def firstSeenKey (t : Time) : WithTop ℤ := if t.isZero then ⊤ else (t.ns : WithTop ℤ)

theorem earlier_ranks : Ranks earlier firstSeenKey := by
  intro t g
  unfold earlier firstSeenKey
  cases zero : t.isZero <;> cases zero' : g.isZero <;> simp [Time.before]

def lastSeenKey (t : Time) : ℤᵒᵈ := OrderDual.toDual t.ns

theorem later_ranks : Ranks later lastSeenKey := by
  intro t g
  simp [later, lastSeenKey, Time.after]

def issueKey (i : Issue) : ℕᵒᵈ ×ₗ ℕᵒᵈ ×ₗ ℤᵒᵈ ×ₗ String ×ₗ String ×ₗ String :=
  toLex (OrderDual.toDual (severityRank i.severity), toLex (OrderDual.toDual (issueSourceRank i.source),
      toLex (OrderDual.toDual i.firstSeen.ns, toLex (i.namespace_, toLex (i.name, i.id)))))

theorem severity_rank_inj {a b : Severity} : severityRank a = severityRank b ↔ a = b := by
  cases a <;> cases b <;> decide

theorem issue_ranks : Ranks lessIssue issueKey := by
  intro a b
  rw [lessIssue, issueKey, issueKey, Prod.Lex.toLex_lt_toLex, Prod.Lex.toLex_lt_toLex,
    Prod.Lex.toLex_lt_toLex, Prod.Lex.toLex_lt_toLex, Prod.Lex.toLex_lt_toLex]
  by_cases severities : a.severity = b.severity
  · by_cases sources : issueSourceRank a.source = issueSourceRank b.source
    · by_cases seen : a.firstSeen.ns = b.firstSeen.ns
      · by_cases namespaces : a.namespace_ = b.namespace_
        · by_cases names : a.name = b.name
          · simp [severities, sources, seen, namespaces, names, Time.equal]
          · simp [severities, sources, seen, namespaces, names, Time.equal]
        · simp [severities, sources, seen, namespaces, Time.equal]
      · simp [severities, sources, seen, Time.equal, Time.after]
    · simp [severities, sources]
  · have ranks : severityRank a.severity ≠ severityRank b.severity := severity_rank_inj.not.mpr severities
    simp [severities, ranks]

theorem issue_key_id {a b : Issue} (same : issueKey a = issueKey b) : a.id = b.id := by
  simp only [issueKey, EmbeddingLike.apply_eq_iff_eq, Prod.mk.injEq] at same
  exact same.2.2.2.2.2

end Keys

section Scans

theorem agreed_from_iff {picked d : Diagnosis} (given : hasDiagnosis picked = true)
    (members : List Issue) :
    agreedFrom picked members = some d ↔ picked = d ∧ ∀ m ∈ members, m.diagnosis = d := by
  induction members with
  | nil => simp [agreedFrom]
  | cons m rest ih =>
    rw [agreedFrom]
    by_cases parsed : hasDiagnosis m.diagnosis = true
    · by_cases same : m.diagnosis = picked
      · simp only [given, same, not_true_eq_false, ne_eq, if_false, ih, mem_cons, forall_eq_or_imp]
        grind
      · simp only [given, same, not_true_eq_false, not_false_eq_true, ne_eq, if_true,
          if_false, mem_cons, forall_eq_or_imp]
        grind
    · simp only [parsed, not_false_eq_true, if_true, reduceCtorEq, false_iff, mem_cons,
        forall_eq_or_imp]
      grind

/-- A diagnosis is carried over exactly when it is one and every row has it. -/
theorem agreed_iff (members : List Issue) (d : Diagnosis) : agreedDiagnosis members = some d ↔
      members ≠ [] ∧ hasDiagnosis d = true ∧ ∀ m ∈ members, m.diagnosis = d := by
  cases members with
  | nil => simp [agreedDiagnosis]
  | cons first rest =>
    have none : hasDiagnosis noDiagnosis = false := by decide
    rw [agreedDiagnosis, isEmpty_cons, if_neg Bool.false_ne_true, agreedFrom]
    by_cases parsed : hasDiagnosis first.diagnosis = true
    · rw [if_neg (not_not.mpr parsed), none, if_pos Bool.false_ne_true, agreed_from_iff parsed]
      simp only [ne_eq, reduceCtorEq, not_false_eq_true, mem_cons, forall_eq_or_imp]
      grind
    · rw [if_pos parsed]
      simp only [reduceCtorEq, mem_cons, forall_eq_or_imp, false_iff]
      grind

theorem agreed_perm (perm : xs.Perm ys) : agreedDiagnosis xs = agreedDiagnosis ys := by
  apply Option.ext
  intro d
  have empty : xs = [] ↔ ys = [] := by
    rw [← length_eq_zero_iff, ← length_eq_zero_iff, perm.length_eq]
  simp only [agreed_iff, ne_eq, empty, perm.mem_iff]

/-- What the timing scan has found: nothing, one timing with its basis, or two timings. -/
inductive Agreement where
  | unknown
  | agreed (timing basis : String)
  | conflict

def Agreement.add (found : Agreement) (m : Issue) : Agreement := if m.issueTiming = "" then found
  else
    match found with
    | .unknown => .agreed m.issueTiming m.issueTimingBasis
    | .agreed timing basis =>
      if timing = m.issueTiming then
        .agreed timing (if basis = m.issueTimingBasis then basis else "")
      else .conflict
    | .conflict => .conflict

def Agreement.texts : Agreement → String × String
  | .agreed timing basis => (timing, basis)
  | _ => ("", "")

theorem conflict_final (members : List Issue) : members.foldl Agreement.add .conflict = .conflict := by
  induction members with
  | nil => rfl
  | cons m rest ih =>
    have kept : Agreement.conflict.add m = .conflict := by
      unfold Agreement.add
      split <;> rfl
    rw [foldl_cons, kept, ih]

theorem timing_agreed {timing : String} (known : timing ≠ "") (basis : String)
    (members : List Issue) : timingFrom timing basis members =
      (members.foldl Agreement.add (.agreed timing basis)).texts := by
  induction members generalizing basis with
  | nil => rfl
  | cons m rest ih =>
    rw [timingFrom, foldl_cons, Agreement.add]
    by_cases silent : m.issueTiming = ""
    · rw [if_pos silent, if_pos silent, ih]
    · rw [if_neg silent, if_neg silent, if_neg known]
      by_cases same : timing = m.issueTiming
      · by_cases bases : basis = m.issueTimingBasis
        · simp only [same, bases, ne_eq, not_true_eq_false, if_false, if_true]
          rw [← same, ih]
        · simp only [same, bases, ne_eq, not_true_eq_false, not_false_eq_true, if_false, if_true]
          rw [← same, ih]
      · simp only [same, ne_eq, not_false_eq_true, if_true, if_false]
        rw [conflict_final]
        rfl

theorem timing_eq (members : List Issue) :
    timingFrom "" "" members = (members.foldl Agreement.add .unknown).texts := by
  induction members with
  | nil => rfl
  | cons m rest ih =>
    rw [timingFrom, foldl_cons, Agreement.add]
    by_cases silent : m.issueTiming = ""
    · rw [if_pos silent, if_pos silent, ih]
    · rw [if_neg silent, if_neg silent, if_pos rfl, timing_agreed silent]

/-- The basis two rows of one timing leave. -/
def shared (basis other : String) : String := if basis = other then basis else ""

theorem shared_comm (a b : String) : shared a b = shared b a := by
  unfold shared
  by_cases same : a = b
  · rw [if_pos same, if_pos same.symm, same]
  · rw [if_neg same, if_neg (Ne.symm same)]

theorem shared_right_comm (a b c : String) : shared (shared a b) c = shared (shared a c) b := by
  unfold shared
  grind

theorem add_silent (found : Agreement) {m : Issue} (silent : m.issueTiming = "") : found.add m = found := by
  unfold Agreement.add
  rw [if_pos silent]

theorem add_timed (found : Agreement) {m : Issue} (timed : m.issueTiming ≠ "") :
    found.add m = match found with
      | .unknown => .agreed m.issueTiming m.issueTimingBasis
      | .agreed timing basis =>
        if timing = m.issueTiming then .agreed timing (shared basis m.issueTimingBasis)
        else .conflict
      | .conflict => .conflict := by
  unfold Agreement.add
  rw [if_neg timed]
  rfl

theorem add_comm (found : Agreement) (x y : Issue) : (found.add x).add y = (found.add y).add x := by
  by_cases silent : x.issueTiming = ""
  · rw [add_silent _ silent, add_silent _ silent]
  by_cases silent' : y.issueTiming = ""
  · rw [add_silent _ silent', add_silent _ silent']
  simp only [add_timed _ silent, add_timed _ silent']
  cases found with
  | unknown =>
    by_cases same : x.issueTiming = y.issueTiming
    · simp [same, shared_comm]
    · simp [same, Ne.symm same]
  | agreed timing basis =>
    by_cases same : timing = x.issueTiming
    · by_cases same' : timing = y.issueTiming
      · simp [← same, ← same', shared_right_comm]
      · simp [same, same ▸ same']
    · by_cases same' : timing = y.issueTiming
      · simp [same', same' ▸ same]
      · simp [same, same']
  | conflict => rfl

theorem timing_perm (perm : xs.Perm ys) : timingFrom "" "" xs = timingFrom "" "" ys := by
  have folds := perm.foldl_eq' (f := Agreement.add) (fun x _ y _ found => add_comm found x y)
    .unknown
  rw [timing_eq, timing_eq, folds]

end Scans

section Fold

/-- What foldGroup copies from its representative while betterRepresentative does not look at it. -/
structure Uncompared where
  subject : Ref
  category : Category
  categoryGroup : CategoryGroup
  groupingScope : Scope
  restartCount : Int
  lastTerminatedReason : String

def uncompared (subject : Issue → Ref) (i : Issue) : Uncompared :=
  { subject := subject i
    category := i.category
    categoryGroup := i.categoryGroup
    groupingScope := i.groupingScope
    restartCount := i.restartCount
    lastTerminatedReason := i.lastTerminatedReason }

/-- The rows tied for representative agree on what it hands on uncompared, and the rows whose first
    or last time the group may take write that time alike. -/
structure Settled (members : List Issue) : Prop where
  copied : ∀ x ∈ members, ∀ y ∈ members, Best betterRepresentative members x →
    Best betterRepresentative members y → uncompared subjectOf x = uncompared subjectOf y
  firstSeen : ∀ x ∈ members, ∀ y ∈ members,
    Decisive betterRepresentative earlier Issue.firstSeen members x →
    Decisive betterRepresentative earlier Issue.firstSeen members y → x.firstSeen = y.firstSeen
  lastSeen : ∀ x ∈ members, ∀ y ∈ members, Decisive betterRepresentative later Issue.lastSeen members x →
    Decisive betterRepresentative later Issue.lastSeen members y → x.lastSeen = y.lastSeen

theorem fold_uncompared (members : List Issue) : (foldBucket members).map (uncompared Issue.ref) =
      winner betterRepresentative (uncompared subjectOf) members := by
  cases members <;> rfl

theorem fold_first_seen (members : List Issue) : (foldBucket members).map Issue.firstSeen =
      second betterRepresentative earlier Issue.firstSeen members := by
  cases members <;> rfl

theorem fold_last_seen (members : List Issue) : (foldBucket members).map Issue.lastSeen =
      second betterRepresentative later Issue.lastSeen members := by
  cases members <;> rfl

/-- Two rows tied for representative agree on all that is compared. -/
theorem best_agree {members : List Issue} {x y : Issue} (present : x ∈ members)
    (present' : y ∈ members) (best : Best betterRepresentative members x)
    (best' : Best betterRepresentative members y) :
    x.severity = y.severity ∧ x.source = y.source ∧ x.reason = y.reason ∧ x.message = y.message := by
  have le := (ranks_not representative_ranks y x).mp (best y present')
  have ge := (ranks_not representative_ranks x y).mp (best' x present)
  have same : representativeKey x = representativeKey y := le_antisymm le ge
  simp only [representativeKey, representativeTexts, EmbeddingLike.apply_eq_iff_eq, Prod.mk.injEq,
    cons.injEq] at same
  obtain ⟨severity, -, -, -, -, -, source, reason, message, -⟩ := same
  exact ⟨severity_rank_inj.mp severity, source_text_inj source, reason, message⟩

theorem refs_perm (perm : ys.Perm xs) (subject : Ref) :
    sortStable lessRef ((ys.map Issue.ref).filter fun own => own ≠ subject) =
      sortStable lessRef ((xs.map Issue.ref).filter fun own => own ≠ subject) :=
  sort_unique ref_ranks ((perm.map Issue.ref).filter _) fun _ _ _ _ => ref_key_inj

theorem folded_settled (ids : ∀ m ∈ xs, m.id = id)
    (settled : Settled xs) (perm : ys.Perm xs) : foldBucket ys = foldBucket xs := by
  have firstSeen := (second_free_iff representative_ranks earlier_ranks Issue.firstSeen xs).mpr
    settled.firstSeen ys perm
  have lastSeen := (second_free_iff representative_ranks later_ranks Issue.lastSeen xs).mpr
    settled.lastSeen ys perm
  cases ys with
  | nil => rw [nil_perm.mp perm]
  | cons first rest =>
    cases xs with
    | nil => exact absurd perm.symm (by simp)
    | cons first' rest' =>
      have member := perm.mem_iff.mp (select_mem betterRepresentative first rest)
      have member' := select_mem betterRepresentative first' rest'
      have best := (best_perm perm _).mp (select_best representative_ranks first rest)
      have best' := select_best representative_ranks first' rest'
      have copied := settled.copied _ member _ member' best best'
      simp only [uncompared, Uncompared.mk.injEq] at copied
      obtain ⟨subject, category, categoryGroup, scope, restarts, terminated⟩ := copied
      obtain ⟨severity, source, reason, message⟩ := best_agree member member' best best'
      have id : (select betterRepresentative first rest).id =
          (select betterRepresentative first' rest').id :=
        (ids _ member).trans (ids _ member').symm
      have firstSeen := Option.some.inj firstSeen
      have lastSeen := Option.some.inj lastSeen
      simp only [foldBucket, foldGroup, subject, category, categoryGroup, scope, restarts,
        terminated, severity, source, reason, message, id, firstSeen, lastSeen, refs_perm perm,
        agreed_perm perm, timing_perm perm]

/-- A group's row is a function of the multiset of its members exactly when they are settled. -/
theorem fold_free_iff {xs : List Issue} (ids : ∀ m ∈ xs, m.id = id) :
    (∀ ys, ys.Perm xs → foldBucket ys = foldBucket xs) ↔ Settled xs := by
  constructor
  · intro free
    constructor
    · apply (winner_free_iff representative_ranks (uncompared subjectOf) xs).mp
      intro ys perm
      rw [← fold_uncompared, ← fold_uncompared, free ys perm]
    · apply (second_free_iff representative_ranks earlier_ranks Issue.firstSeen xs).mp
      intro ys perm
      rw [← fold_first_seen, ← fold_first_seen, free ys perm]
    · apply (second_free_iff representative_ranks later_ranks Issue.lastSeen xs).mp
      intro ys perm
      rw [← fold_last_seen, ← fold_last_seen, free ys perm]
  · intro settled ys perm
    exact folded_settled ids settled perm

end Fold

section Groups

theorem bucket_ids (flat : List Issue) (id : String) : ∀ m ∈ bucket flat id, m.id = id := by
  intro m member
  exact eq_of_beq (mem_filter.mp member).2

/-- A folded row carries the ID of one of its members. -/
theorem fold_member {members : List Issue} {g : Issue} (folded : foldBucket members = some g) :
    ∃ m ∈ members, g.id = m.id := by
  cases members with
  | nil => exact absurd folded (by simp [foldBucket])
  | cons first rest =>
    refine ⟨_, select_mem betterRepresentative first rest, ?_⟩
    rw [← Option.some.inj folded]
    rfl

theorem fold_id {flat : List Issue} {g : Issue}
    (folded : foldBucket (bucket flat id) = some g) : g.id = id := by
  obtain ⟨m, member, same⟩ := fold_member folded
  exact same.trans (bucket_ids flat id m member)

theorem mem_group_iff {ids : List String} {flat : List Issue} {g : Issue} :
    g ∈ groupIssues ids flat ↔ g.id ∈ ids ∧ foldBucket (bucket flat g.id) = some g := by
  rw [groupIssues, (sort_perm lessIssue _).mem_iff, mem_filterMap]
  constructor
  · rintro ⟨id, visited, folded⟩
    have same := fold_id folded
    rw [same]
    exact ⟨visited, folded⟩
  · rintro ⟨visited, folded⟩
    exact ⟨g.id, visited, folded⟩

/-- The rows of one ID may be put in front in any order of their own. -/
theorem bucket_front {flat members : List Issue} (perm : members.Perm (bucket flat id)) :
    (members ++ flat.filter fun r => ! r.id == id).Perm flat ∧
      bucket (members ++ flat.filter fun r => ! r.id == id) id = members := by
  constructor
  · have split := filter_append_perm (fun r => r.id == id) flat
    exact (perm.append_right _).trans split
  · have mine : members.filter (fun r => r.id == id) = members := by
      rw [filter_eq_self]
      intro m member
      rw [bucket_ids flat id m (perm.mem_iff.mp member), beq_self_eq_true]
    have others : (flat.filter fun r => ! r.id == id).filter (fun r => r.id == id) = [] := by
      rw [filter_filter, filter_eq_nil_iff]
      intro m _
      simp
    rw [bucket, filter_append, mine, others, append_nil]

theorem visits_perm {ids ids' : List String} {flat flat' : List Issue} (perm : flat'.Perm flat)
    (visits : Visits ids flat) (visits' : Visits ids' flat') : ids.Perm ids' := by
  rw [perm_ext_iff_of_nodup visits.once visits'.once]
  intro id
  rw [visits.all, visits'.all]
  simp only [perm.mem_iff]

theorem visits_dedup (flat : List Issue) : Visits (flat.map Issue.id).dedup flat := by
  constructor
  · exact nodup_dedup _
  · intro id
    rw [mem_dedup, mem_map]

/-- The grouped rows are one and the same for every order of the flat rows, whatever the order in
    which the map of buckets is visited. -/
def OrderFree (flat : List Issue) : Prop :=
  ∀ flat', flat'.Perm flat → ∀ ids ids', Visits ids flat → Visits ids' flat' →
    groupIssues ids flat = groupIssues ids' flat'

theorem grouping_order_free_iff (flat : List Issue) : OrderFree flat ↔ ∀ id, Settled (bucket flat id) := by
  constructor
  · intro free id
    rw [← fold_free_iff (bucket_ids flat id)]
    intro members perm
    obtain ⟨whole, mine⟩ := bucket_front perm
    have same := free _ whole _ _ (visits_dedup flat) (visits_dedup _)
    cases folded : foldBucket (bucket flat id) with
    | none =>
      cases rows : bucket flat id with
      | nil =>
        rw [rows, List.perm_nil] at perm
        rw [perm]
        rfl
      | cons first rest =>
        rw [rows] at folded
        exact absurd folded (by simp [foldBucket])
    | some g =>
      obtain rfl := fold_id folded
      have visited : g.id ∈ (flat.map Issue.id).dedup := by
        obtain ⟨m, member, own⟩ := fold_member folded
        exact (visits_dedup flat).all _ |>.mpr ⟨m, (List.mem_filter.mp member).1, own.symm⟩
      have present := mem_group_iff.mpr ⟨visited, folded⟩
      rw [same, mem_group_iff, mine] at present
      exact present.2
  · intro settled flat' perm ids ids' visits visits'
    have folds : ∀ id, foldBucket (bucket flat' id) = foldBucket (bucket flat id) := fun id =>
      folded_settled (bucket_ids flat id) (settled id) (perm.filter _)
    simp only [groupIssues, folds]
    apply sort_unique issue_ranks ((visits_perm perm visits visits').filterMap _)
    intro g member g' member' key
    obtain ⟨id, _, folded⟩ := List.mem_filterMap.mp member
    obtain ⟨id', _, folded'⟩ := List.mem_filterMap.mp member'
    have same := issue_key_id key
    rw [fold_id folded, fold_id folded'] at same
    rw [same, folded'] at folded
    exact (Option.some.inj folded).symm

def crashRow (restartCount : Int) : Issue :=
  { severity := .critical
    source := .problem
    category := ⟨"crashloop"⟩
    categoryGroup := ⟨"runtime"⟩
    id := "web-crashloop"
    groupingScope := ⟨"workload"⟩
    kind := "Pod"
    group := ""
    namespace_ := "shop"
    name := "web-0"
    reason := "CrashLoopBackOff"
    message := "back-off restarting failed container"
    diagnosis := noDiagnosis
    firstSeen := ⟨1, 0⟩
    lastSeen := ⟨2, 0⟩
    count := 1
    owner := ⟨"apps", "StatefulSet", "shop", "web"⟩
    restartCount := restartCount
    lastTerminatedReason := "Error"
    affected := ⟨0, 0, 0, 0, 0⟩
    members := []
    membersTruncated := false
    issueTiming := ""
    issueTimingBasis := "" }

/-- Two containers of one pod that differ in their restarts only: the first one listed counts. -/
theorem listed_first_restart_count : ¬ OrderFree [crashRow 1, crashRow 5] := by
  intro free
  have visits : ∀ a b, Visits ["web-crashloop"] [crashRow a, crashRow b] := by
    intro a b
    constructor
    · exact List.nodup_singleton _
    · intro id
      simp [crashRow, eq_comm]
  have same := free [crashRow 5, crashRow 1] (List.Perm.swap _ _ _) _ _ (visits 1 5) (visits 5 1)
  exact absurd same (by decide +kernel)

end Groups

end IssueGrouping
