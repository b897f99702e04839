import Mathlib.Data.List.AList
import Radar.Issues.Types

/- internal/issues/dedupe.go: the passes that drop a flat row when a richer one says the same, in the
   order in which Compose runs them. -/
namespace IssueDedupe
open Issues List
variable {covered : List Issue → Issue → Bool} {i : Issue}

def resourceKey (group kind namespace_ name : String) : String :=
  group ++ "|" ++ kind ++ "|" ++ namespace_ ++ "|" ++ name

/-- The topmost owner when there is one, else the resource itself. -/
def subjectRef (i : Issue) : Ref := if i.owner.kind ≠ "" then i.owner else i.ref

def subjectKeyOf (r : Ref) : String := resourceKey r.group r.kind r.namespace_ r.name

def issueResourceCategoryKey (i : Issue) : String :=
  resourceKey i.group i.kind i.namespace_ i.name ++ "\x00" ++ i.category.text

def categoryPVCPending : Category := ⟨"pvc_pending"⟩

def childCategories : List Category :=
  [⟨"crashloop"⟩, ⟨"high_restart"⟩, ⟨"image_pull_failed"⟩, ⟨"oom_killed"⟩, ⟨"container_waiting"⟩,
    ⟨"init_container_failed"⟩, ⟨"liveness_probe_failed"⟩, ⟨"readiness_failed"⟩, ⟨"unschedulable"⟩,
    ⟨"quota_exceeded"⟩, ⟨"missing_config_ref"⟩, ⟨"volume_mount_failed"⟩, categoryPVCPending]

def parentRollupCategories : List Category := [⟨"workload_degraded"⟩, ⟨"rollout_stalled"⟩]

def restartCycleCategories : List Category :=
  [⟨"crashloop"⟩, ⟨"high_restart"⟩, ⟨"oom_killed"⟩, ⟨"liveness_probe_failed"⟩]

def podKey (i : Issue) : String := i.namespace_ ++ "/" ++ i.name

def dedupePodSchedulingOverProblem (rows : List Issue) : List Issue :=
  let schedPods := (rows.filter fun i => i.source == .scheduling && i.kind == "Pod").map podKey
  if schedPods.isEmpty then rows
  else rows.filter fun i => !(i.source == .problem && i.kind == "Pod" && schedPods.contains (podKey i))

/-- The worst severity among the child symptoms of each subject. -/
def addChildSev (worst : AList fun _ : String => Nat) (i : Issue) : AList fun _ : String => Nat :=
  if childCategories.contains i.category then
    let key := subjectKeyOf (subjectRef i)
    if (worst.lookup key).getD 0 < severityRank i.severity then
      worst.insert key (severityRank i.severity)
    else worst
  else worst

def maxChildSev (rows : List Issue) : AList fun _ : String => Nat := rows.foldl addChildSev ∅

def suppressed (worst : AList fun _ : String => Nat) (i : Issue) : Bool :=
  parentRollupCategories.contains i.category && match worst.lookup (subjectKeyOf (subjectRef i)) with
    | some r => decide (severityRank i.severity ≤ r)
    | none => false

/-- A dropped parent's timing is kept for its subject; parents that disagree leave none. -/
def recordTiming (timings : AList fun _ : String => String) (i : Issue) : AList fun _ : String => String :=
  if i.issueTiming = "" then timings
  else
    let key := subjectKeyOf (subjectRef i)
    match timings.lookup key with
    | some prev => if prev ≠ i.issueTiming then timings.insert key "" else timings
    | none => timings.insert key i.issueTiming

def donate (timings : AList fun _ : String => String) (atCreation : List String) (i : Issue) : Issue :=
  let key := subjectKeyOf (subjectRef i)
  let timing := (timings.lookup key).getD ""
  if i.issueTiming ≠ "" ∨ ¬ childCategories.contains i.category then i
  else if timing = "" then i
  else if timing = "started_after_resource_was_healthy" ∧
      (3 ≤ i.restartCount ∨ restartCycleCategories.contains i.category ∨ atCreation.contains key) then
    i
  else { i with issueTiming := timing, issueTimingBasis := "owner_condition" }

def dedupeWorkloadDegradedOverChild (rows : List Issue) : List Issue := let worst := maxChildSev rows
  if worst.entries.isEmpty then rows
  else
    let out := rows.filter fun i => !suppressed worst i
    let timings := (rows.filter (suppressed worst)).foldl recordTiming ∅
    let atCreation := (out.filter fun i => i.issueTiming == "started_at_resource_creation").map
      fun i => subjectKeyOf (subjectRef i)
    out.map (donate timings atCreation)

def isMissingRefEchoCondition (i : Issue) : Bool := i.group == "gateway.networking.k8s.io" &&
    ["HTTPRoute", "GRPCRoute", "TCPRoute", "TLSRoute"].contains i.kind &&
    "ResolvedRefs:".toList.isPrefixOf i.reason.toList

def dedupeConditionOverMissingRef (rows : List Issue) : List Issue :=
  let structural := (rows.filter fun i => i.source == .missingRef).map issueResourceCategoryKey
  if structural.isEmpty then rows
  else rows.filter fun i => !(i.source == .condition && structural.contains (issueResourceCategoryKey i) &&
      isMissingRefEchoCondition i)

def pvcPending (i : Issue) : Bool := i.kind == "PersistentVolumeClaim" && i.category == categoryPVCPending

def dedupePVCPendingOverMissingRef (rows : List Issue) : List Issue :=
  let structural := (rows.filter fun i => i.source == .missingRef && pvcPending i).map
    issueResourceCategoryKey
  if structural.isEmpty then rows
  else rows.filter fun i =>
    !(i.source == .problem && pvcPending i && structural.contains (issueResourceCategoryKey i))

def dedupe (flat : List Issue) : List Issue := dedupePVCPendingOverMissingRef (dedupeConditionOverMissingRef
    (dedupeWorkloadDegradedOverChild (dedupePodSchedulingOverProblem flat)))

section Passes

/-- A pass that drops the rows which others cover. -/
def uncovered (covered : List Issue → Issue → Bool) (rows : List Issue) : List Issue :=
  rows.filter fun i => !covered rows i

theorem mem_uncovered {rows : List Issue} :
    i ∈ uncovered covered rows ↔ i ∈ rows ∧ covered rows i = false := by
  simp [uncovered]

def podCovered (rows : List Issue) (i : Issue) : Bool := i.source == .problem && i.kind == "Pod" &&
    rows.any fun j => j.source == .scheduling && j.kind == "Pod" && podKey j == podKey i

def outranked (rows : List Issue) (i : Issue) : Bool := parentRollupCategories.contains i.category &&
    rows.any fun c => childCategories.contains c.category &&
      subjectKeyOf (subjectRef c) == subjectKeyOf (subjectRef i) &&
      decide (severityRank i.severity ≤ severityRank c.severity)

def echoCovered (rows : List Issue) (i : Issue) : Bool :=
  i.source == .condition && isMissingRefEchoCondition i && rows.any fun m => m.source == .missingRef &&
      issueResourceCategoryKey m == issueResourceCategoryKey i

def pvcCovered (rows : List Issue) (i : Issue) : Bool := i.source == .problem && pvcPending i &&
    rows.any fun m => m.source == .missingRef && pvcPending m &&
      issueResourceCategoryKey m == issueResourceCategoryKey i

/-- Membership in a collected set of keys. -/
theorem contains_keys (rows : List Issue) (p : Issue → Bool) (key : Issue → String) (k : String) :
    ((rows.filter p).map key).contains k = rows.any fun j => p j && key j == k := by
  rw [Bool.eq_iff_iff]
  simp [and_assoc]

theorem empty_keys {rows : List Issue} {p : Issue → Bool} {key : Issue → String}
    (none : ((rows.filter p).map key).isEmpty = true) (k : String) :
    (rows.any fun j => p j && key j == k) = false := by
  rw [← contains_keys, isEmpty_iff.mp none]
  rfl

theorem scheduling_pass (rows : List Issue) :
    dedupePodSchedulingOverProblem rows = uncovered podCovered rows := by
  unfold dedupePodSchedulingOverProblem uncovered podCovered
  simp only [contains_keys]
  split
  next none =>
    have nothing := empty_keys none
    simp [nothing]
  next some => rfl

theorem condition_pass (rows : List Issue) :
    dedupeConditionOverMissingRef rows = uncovered echoCovered rows := by
  unfold dedupeConditionOverMissingRef uncovered echoCovered
  simp only [contains_keys]
  split
  next none =>
    have nothing := empty_keys none
    simp [nothing]
  next some =>
    apply filter_congr
    intro i _
    rw [Bool.and_right_comm]

theorem pvc_pass (rows : List Issue) : dedupePVCPendingOverMissingRef rows = uncovered pvcCovered rows := by
  unfold dedupePVCPendingOverMissingRef uncovered pvcCovered
  simp only [contains_keys]
  split
  next none =>
    have nothing := empty_keys none
    simp [nothing]
  next some => rfl

end Passes

section WorstChild

/-- The recorded severity of a subject is at least `n`. -/
def Reaches (worst : AList fun _ : String => Nat) (key : String) (n : Nat) : Prop :=
  ∃ r, worst.lookup key = some r ∧ n ≤ r

theorem reaches_add (worst : AList fun _ : String => Nat) (c : Issue) {key : String} {n : Nat}
    (positive : 0 < n) : Reaches (addChildSev worst c) key n ↔
      Reaches worst key n ∨ (childCategories.contains c.category = true ∧
        subjectKeyOf (subjectRef c) = key ∧ n ≤ severityRank c.severity) := by
  unfold addChildSev Reaches
  by_cases child : childCategories.contains c.category = true
  · rw [if_pos child]
    by_cases own : subjectKeyOf (subjectRef c) = key
    · subst own
      by_cases worse : (worst.lookup (subjectKeyOf (subjectRef c))).getD 0 < severityRank c.severity
      · simp only [worse, if_true, AList.lookup_insert, child, true_and]
        cases held : worst.lookup (subjectKeyOf (subjectRef c)) with
        | none => simp
        | some r =>
          rw [held, Option.getD_some] at worse
          simp only [Option.some.injEq, exists_eq_left']
          omega
      · simp only [worse, if_false, child, true_and]
        cases held : worst.lookup (subjectKeyOf (subjectRef c)) with
        | none =>
          rw [held, Option.getD_none] at worse
          simp only [reduceCtorEq, false_and, exists_false, false_or, false_iff]
          omega
        | some r =>
          rw [held, Option.getD_some] at worse
          simp only [Option.some.injEq, exists_eq_left']
          omega
    · have other : key ≠ subjectKeyOf (subjectRef c) := Ne.symm own
      simp only [own, false_and, and_false, or_false]
      split
      · rw [AList.lookup_insert_ne other]
      · rfl
  · rw [if_neg child]
    simp only [child, false_and, or_false, Bool.false_eq_true]

theorem reaches_fold (rows : List Issue) (worst : AList fun _ : String => Nat) {key : String}
    {n : Nat} (positive : 0 < n) : Reaches (rows.foldl addChildSev worst) key n ↔
      Reaches worst key n ∨ ∃ c ∈ rows, childCategories.contains c.category = true ∧
        subjectKeyOf (subjectRef c) = key ∧ n ≤ severityRank c.severity := by
  induction rows generalizing worst with
  | nil => simp
  | cons c rest ih =>
    rw [foldl_cons, ih, reaches_add worst c positive, or_assoc]
    simp only [mem_cons, exists_eq_or_imp]

theorem severity_rank_pos (s : Severity) : 0 < severityRank s := by
  cases s <;> decide

theorem suppressed_eq (rows : List Issue) (i : Issue) :
    suppressed (maxChildSev rows) i = outranked rows i := by
  have reached := @reaches_fold rows ∅ (subjectKeyOf (subjectRef i)) _
    (severity_rank_pos i.severity)
  have start : ¬ Reaches ∅ (subjectKeyOf (subjectRef i)) (severityRank i.severity) := by
    simp [Reaches]
  rw [or_iff_right start] at reached
  unfold suppressed outranked
  congr 1
  rw [Bool.eq_iff_iff]
  have held : (match (maxChildSev rows).lookup (subjectKeyOf (subjectRef i)) with
      | some r => decide (severityRank i.severity ≤ r)
      | none => false) = true ↔
      Reaches (maxChildSev rows) (subjectKeyOf (subjectRef i)) (severityRank i.severity) := by
    unfold Reaches
    cases (maxChildSev rows).lookup (subjectKeyOf (subjectRef i)) <;> simp
  rw [held, maxChildSev, reached]
  simp [and_assoc]

end WorstChild

section Timing

/-- A row but for its timing, which only the workload pass writes. -/
def untimed (i : Issue) : Issue := { i with issueTiming := "", issueTimingBasis := "" }

theorem untimed_donate (timings : AList fun _ : String => String) (atCreation : List String)
    (i : Issue) : untimed (donate timings atCreation i) = untimed i := by
  unfold donate
  dsimp only
  split
  · rfl
  · split
    · rfl
    · split <;> rfl

theorem workload_pass (rows : List Issue) :
    (dedupeWorkloadDegradedOverChild rows).map untimed = (uncovered outranked rows).map untimed := by
  unfold dedupeWorkloadDegradedOverChild uncovered
  by_cases none : (maxChildSev rows).entries.isEmpty = true
  · have nothing : ∀ i, outranked rows i = false := by
      intro i
      have absent : (maxChildSev rows).lookup (subjectKeyOf (subjectRef i)) = Option.none := by
        rw [AList.lookup, isEmpty_iff.mp none]
        rfl
      rw [← suppressed_eq, suppressed, absent, Bool.and_false]
    simp [none, nothing]
  · simp only [none, Bool.false_eq_true, if_false, suppressed_eq, map_map]
    apply map_congr_left
    intro i _
    exact untimed_donate _ _ i

/-- A pass whose test does not look at the timing. -/
def Blind (covered : List Issue → Issue → Bool) : Prop :=
  ∀ rows i, covered (rows.map untimed) (untimed i) = covered rows i

theorem uncovered_untimed (blind : Blind covered) (rows : List Issue) :
    (uncovered covered rows).map untimed = uncovered covered (rows.map untimed) := by
  unfold uncovered
  rw [filter_map]
  congr 1
  apply filter_congr
  intro i _
  exact congrArg not (blind rows i).symm

theorem echo_blind : Blind echoCovered := by
  intro rows i
  simp only [echoCovered, any_map]
  rfl

theorem pvc_blind : Blind pvcCovered := by
  intro rows i
  simp only [pvcCovered, any_map]
  rfl

/-- Timing apart, the passes drop what is covered, one after the other. -/
theorem dedupe_untimed (flat : List Issue) : (dedupe flat).map untimed =
    (uncovered pvcCovered (uncovered echoCovered
      (uncovered outranked (uncovered podCovered flat)))).map untimed := by
  unfold dedupe
  rw [pvc_pass, condition_pass, scheduling_pass, uncovered_untimed pvc_blind,
    uncovered_untimed echo_blind, workload_pass, ← uncovered_untimed echo_blind,
    ← uncovered_untimed pvc_blind]

end Timing

section Incidents
variable {flat : List Issue}

/-- A pod's problem row that a scheduling row of the same pod replaces. -/
def ScheduledPod (flat : List Issue) (i : Issue) : Prop := i.source = .problem ∧ i.kind = "Pod" ∧
    ∃ j ∈ flat, j.source = .scheduling ∧ j.kind = "Pod" ∧ podKey j = podKey i

/-- A workload's rollup row that a child symptom at least as severe replaces. -/
def RolledDown (flat : List Issue) (i : Issue) : Prop := i.category ∈ parentRollupCategories ∧
    ∃ c ∈ flat, ¬ ScheduledPod flat c ∧ c.category ∈ childCategories ∧
      subjectKeyOf (subjectRef c) = subjectKeyOf (subjectRef i) ∧
      severityRank i.severity ≤ severityRank c.severity

/-- A route's condition row that a missing reference of the same category replaces. -/
def Echoed (flat : List Issue) (i : Issue) : Prop :=
  i.source = .condition ∧ isMissingRefEchoCondition i = true ∧
    ∃ m ∈ flat, ¬ RolledDown flat m ∧ m.source = .missingRef ∧
      issueResourceCategoryKey m = issueResourceCategoryKey i

/-- A pending claim's problem row that a missing reference of the same claim replaces. -/
def ReferencedClaim (flat : List Issue) (i : Issue) : Prop := i.source = .problem ∧ pvcPending i = true ∧
    ∃ m ∈ flat, m.source = .missingRef ∧ pvcPending m = true ∧
      issueResourceCategoryKey m = issueResourceCategoryKey i

theorem pod_covered_iff (flat : List Issue) (i : Issue) :
    podCovered flat i = false ↔ ¬ ScheduledPod flat i := by
  rw [← Bool.not_eq_true, not_iff_not]
  simp [podCovered, ScheduledPod, and_assoc]

theorem mem_scheduling : i ∈ uncovered podCovered flat ↔ i ∈ flat ∧ ¬ ScheduledPod flat i := by
  rw [mem_uncovered, pod_covered_iff]

theorem outranked_iff (flat : List Issue) (i : Issue) :
    outranked (uncovered podCovered flat) i = false ↔ ¬ RolledDown flat i := by
  rw [← Bool.not_eq_true, not_iff_not]
  simp only [outranked, RolledDown, Bool.and_eq_true, any_eq_true, mem_scheduling,
    contains_iff_mem, beq_iff_eq, decide_eq_true_eq, and_assoc]

theorem reference_scheduled {m : Issue} (reference : m.source = .missingRef) : ¬ ScheduledPod flat m := by
  intro covered
  have source := covered.1
  rw [reference] at source
  exact absurd source (by decide)

theorem mem_workload : i ∈ uncovered outranked (uncovered podCovered flat) ↔
      i ∈ flat ∧ ¬ ScheduledPod flat i ∧ ¬ RolledDown flat i := by
  rw [mem_uncovered, mem_scheduling, outranked_iff, and_assoc]

theorem echo_covered_iff (flat : List Issue) (i : Issue) :
    echoCovered (uncovered outranked (uncovered podCovered flat)) i = false ↔ ¬ Echoed flat i := by
  rw [← Bool.not_eq_true, not_iff_not]
  simp only [echoCovered, Echoed, Bool.and_eq_true, any_eq_true, mem_workload, beq_iff_eq, and_assoc]
  refine and_congr_right fun _ => and_congr_right fun _ => exists_congr fun m => ?_
  constructor
  · rintro ⟨member, _, kept, reference, same⟩
    exact ⟨member, kept, reference, same⟩
  · rintro ⟨member, kept, reference, same⟩
    exact ⟨member, reference_scheduled reference, kept, reference, same⟩

theorem mem_condition : i ∈ uncovered echoCovered (uncovered outranked (uncovered podCovered flat)) ↔
      i ∈ flat ∧ ¬ ScheduledPod flat i ∧ ¬ RolledDown flat i ∧ ¬ Echoed flat i := by
  rw [mem_uncovered, mem_workload, echo_covered_iff, and_assoc, and_assoc]

/-- A missing reference of a pending claim is dropped by no pass. -/
theorem claim_reference_kept {m : Issue} (member : m ∈ flat)
    (reference : m.source = .missingRef) (pending : pvcPending m = true) :
    m ∈ uncovered echoCovered (uncovered outranked (uncovered podCovered flat)) := by
  refine mem_condition.mpr ⟨member, reference_scheduled reference, ?_, ?_⟩
  · intro rolled
    have category : m.category = categoryPVCPending := by
      simp only [pvcPending, Bool.and_eq_true, beq_iff_eq] at pending
      exact pending.2
    have parent := rolled.1
    rw [category] at parent
    exact absurd parent (by decide)
  · intro echoed
    have source := echoed.1
    rw [reference] at source
    exact absurd source (by decide)

theorem pvc_covered_iff (flat : List Issue) (i : Issue) :
    pvcCovered (uncovered echoCovered (uncovered outranked (uncovered podCovered flat))) i = false ↔
      ¬ ReferencedClaim flat i := by
  rw [← Bool.not_eq_true, not_iff_not]
  simp only [pvcCovered, ReferencedClaim, Bool.and_eq_true, any_eq_true, beq_iff_eq, and_assoc]
  refine and_congr_right fun _ => and_congr_right fun _ => exists_congr fun m => ?_
  constructor
  · rintro ⟨member, reference, pending, same⟩
    exact ⟨(mem_condition.mp member).1, reference, pending, same⟩
  · rintro ⟨member, reference, pending, same⟩
    exact ⟨claim_reference_kept member reference pending, reference, pending, same⟩

/-- The rows that all passes keep. -/
theorem mem_dedupe (flat : List Issue) (row : Issue) :
    (∃ j ∈ dedupe flat, untimed j = row) ↔ ∃ j ∈ flat, untimed j = row ∧ ¬ ScheduledPod flat j ∧
      ¬ RolledDown flat j ∧ ¬ Echoed flat j ∧ ¬ ReferencedClaim flat j := by
  have same := congrArg (row ∈ ·) (dedupe_untimed flat)
  simp only [mem_map, @mem_uncovered pvcCovered, mem_condition, pvc_covered_iff,
    eq_iff_iff, and_assoc] at same
  rw [same]
  refine exists_congr fun j => ?_
  tauto

/-- The worst severity rank that the rows of a subject have. -/
def WorstRank (flat : List Issue) (subject : Ref) (rank : Nat) : Prop :=
  (∃ i ∈ flat, subjectRef i = subject ∧ severityRank i.severity = rank) ∧
    ∀ i ∈ flat, subjectRef i = subject → severityRank i.severity ≤ rank

/-- Every subject keeps a row of its worst severity. -/
def IncidentsKept (flat : List Issue) : Prop := ∀ subject rank, WorstRank flat subject rank →
    ∃ j ∈ dedupe flat, subjectRef j = subject ∧ severityRank j.severity = rank

/-- An incident is neither hidden nor downgraded exactly if one of its worst rows is replaced by no
    other row. -/
theorem incidents_kept_iff (flat : List Issue) :
    IncidentsKept flat ↔ ∀ subject rank, WorstRank flat subject rank →
      ∃ j ∈ flat, subjectRef j = subject ∧ severityRank j.severity = rank ∧
        ¬ ScheduledPod flat j ∧ ¬ RolledDown flat j ∧ ¬ Echoed flat j ∧
        ¬ ReferencedClaim flat j := by
  refine forall_congr' fun subject => forall_congr' fun rank => imp_congr_right fun _ => ?_
  have alike : ∀ {k j}, untimed k = untimed j →
      subjectRef k = subjectRef j ∧ severityRank k.severity = severityRank j.severity := by
    intro k j same
    have subject : subjectRef (untimed k) = subjectRef (untimed j) := congrArg subjectRef same
    have severity : (untimed k).severity = (untimed j).severity := congrArg Issue.severity same
    exact ⟨subject, congrArg severityRank severity⟩
  constructor
  · rintro ⟨j, kept, rfl, rfl⟩
    obtain ⟨k, member, same, free⟩ := (mem_dedupe flat (untimed j)).mp ⟨j, kept, rfl⟩
    exact ⟨k, member, (alike same).1, (alike same).2, free⟩
  · rintro ⟨j, member, rfl, rfl, free⟩
    obtain ⟨k, kept, same⟩ := (mem_dedupe flat (untimed j)).mpr ⟨j, member, rfl, free⟩
    exact ⟨k, kept, alike same⟩

def podRow (severity : Severity) (source : Source) (reason : String) : Issue :=
  { severity := severity
    source := source
    category := ⟨"volume_mount_failed"⟩
    categoryGroup := ⟨"storage"⟩
    id := "web"
    groupingScope := ⟨"workload"⟩
    kind := "Pod"
    group := ""
    namespace_ := "shop"
    name := "web-0"
    reason := reason
    message := ""
    diagnosis := ⟨"", "", "", "", 0, false⟩
    firstSeen := ⟨1, 0⟩
    lastSeen := ⟨2, 0⟩
    count := 1
    owner := ⟨"apps", "StatefulSet", "shop", "web"⟩
    restartCount := 0
    lastTerminatedReason := ""
    affected := ⟨0, 0, 0, 0, 0⟩
    members := []
    membersTruncated := false
    issueTiming := ""
    issueTimingBasis := "" }

/-- A pod whose scheduling row is a warning loses its critical problem row. -/
theorem scheduling_downgrades_pod : ¬ IncidentsKept
    [podRow .critical .problem "CrashLoopBackOff", podRow .warning .scheduling "FailedMount"] := by
  intro kept
  have worst : WorstRank [podRow .critical .problem "CrashLoopBackOff",
      podRow .warning .scheduling "FailedMount"] ⟨"apps", "StatefulSet", "shop", "web"⟩ 3 := by
    constructor
    · exact ⟨podRow .critical .problem "CrashLoopBackOff", List.mem_cons_self, by decide, rfl⟩
    · intro i _ _
      cases i.severity <;> decide
  obtain ⟨j, member, _, rank⟩ := kept _ _ worst
  have only : dedupe [podRow .critical .problem "CrashLoopBackOff",
      podRow .warning .scheduling "FailedMount"] = [podRow .warning .scheduling "FailedMount"] := by
    decide +kernel
  rw [only, List.mem_singleton] at member
  rw [member] at rank
  exact absurd rank (by decide)

end Incidents

end IssueDedupe
