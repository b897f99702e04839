import Mathlib.Data.Finset.Card
import Radar.Issues.Grouping

/- internal/issues/grouping.go: what a grouped row says of the resources its rows are about. -/
namespace AffectedCount
open Issues IssueGrouping Selection Arrange List

def subjectRef (g : Issue) : Ref := ⟨g.group, g.kind, g.namespace_, g.name⟩

/-- The resources that rows are about, each once, other than their subject. -/
def affectedResources (rows : List Issue) (subject : Ref) : Finset Ref :=
  (rows.map Issue.ref).toFinset.erase subject

def ofKinds (refs : Finset Ref) (kinds : List String) : Nat := (refs.filter fun r => r.kind ∈ kinds).card

def workloadKinds : List String :=
  ["Deployment", "StatefulSet", "DaemonSet", "ReplicaSet", "Job", "CronJob"]

/-- What a grouped row says of its members is what holds of the distinct resources among them. -/
structure CountsResources (refs : Finset Ref) (g : Issue) : Prop where
  count : g.count = refs.card
  affected : g.affected = ⟨ofKinds refs ["Pod"], ofKinds refs workloadKinds,
    ofKinds refs ["Service"], ofKinds refs ["PersistentVolumeClaim"], ofKinds refs ["Node"]⟩
  members : ∃ listed : List Ref, (listed.Pairwise fun a b => lessRef a b = true) ∧
    listed.toFinset = refs ∧ g.members = listed.take (min g.count maxInlineMembers)
  truncated : g.membersTruncated = true ↔ maxInlineMembers < g.count

/-- Rows of one ID stand for one subject. -/
def SharedSubject (flat : List Issue) : Prop :=
  ∀ a ∈ flat, ∀ b ∈ flat, a.id = b.id → subjectOf a = subjectOf b

/-- No two rows of one ID are about the same resource, unless it is their subject. -/
def OneRowEach (flat : List Issue) : Prop :=
  flat.Pairwise fun a b => a.id = b.id → a.ref = b.ref → a.ref = subjectOf a

section Row
variable {others : List Ref}

theorem count_once (once : others.Nodup) (kinds : List String) :
    others.countP (fun r => kinds.contains r.kind) = ofKinds others.toFinset kinds := by
  have chosen := toFinset_filter others fun r => kinds.contains r.kind
  simp only [contains_iff_mem] at chosen
  rw [ofKinds, ← chosen, toFinset_card_of_nodup (once.filter _), countP_eq_length_filter]

theorem affected_once (once : others.Nodup) : affectedOf others =
    ⟨ofKinds others.toFinset ["Pod"], ofKinds others.toFinset workloadKinds,
      ofKinds others.toFinset ["Service"], ofKinds others.toFinset ["PersistentVolumeClaim"],
      ofKinds others.toFinset ["Node"]⟩ := by
  simp only [← count_once once]
  rfl

theorem sorted_strictly (once : others.Nodup) :
    (sortStable lessRef others).Pairwise fun a b => lessRef a b = true := by
  have apart : (sortStable lessRef others).Nodup := (sort_perm lessRef others).nodup_iff.mpr once
  refine List.Pairwise.imp₂ ?_ (sort_ordered ref_ranks others) apart
  intro a b le differ
  exact (ref_ranks a b).mpr (lt_of_le_of_ne le fun same => differ (ref_key_inj same))

theorem take_members (refs : List Ref) :
    (if maxInlineMembers < refs.length then refs.take maxInlineMembers else refs) =
      refs.take (min refs.length maxInlineMembers) := by
  split
  next beyond => rw [min_eq_right beyond.le]
  next within => rw [min_eq_left (Nat.not_lt.mp within), take_length]

/-- The refs that foldGroup keeps for a group. -/
def otherRefs (first : Issue) (rest : List Issue) : List Ref :=
  ((first :: rest).map Issue.ref).filter fun own => own ≠ subjectOf (select betterRepresentative first rest)

variable {first : Issue} {rest : List Issue}

theorem fold_subject :
    subjectRef (foldGroup first rest) = subjectOf (select betterRepresentative first rest) := rfl

theorem affected_resources : affectedResources (first :: rest) (subjectRef (foldGroup first rest)) =
    (otherRefs first rest).toFinset := by
  ext r
  rw [affectedResources, fold_subject, otherRefs, Finset.mem_erase, mem_toFinset,
    mem_toFinset, mem_filter, decide_eq_true_iff, and_comm]

/-- A grouped row counts resources exactly when no resource but its subject has two rows. -/
theorem fold_counts_iff :
    CountsResources (affectedResources (first :: rest) (subjectRef (foldGroup first rest)))
      (foldGroup first rest) ↔ (otherRefs first rest).Nodup := by
  rw [affected_resources]
  have sorted := sort_perm lessRef (otherRefs first rest)
  have count : (foldGroup first rest).count = (otherRefs first rest).length := sorted.length_eq
  constructor
  · intro counts
    have same := counts.count
    rw [count, card_toFinset] at same
    rw [← dedup_eq_self]
    exact (dedup_sublist _).eq_of_length same.symm
  · intro once
    have affected : affectedOf (sortStable lessRef (otherRefs first rest)) =
        affectedOf (otherRefs first rest) := by
      simp only [affectedOf, sorted.countP_eq]
    constructor
    · rw [count, toFinset_card_of_nodup once]
    · exact affected.trans (affected_once once)
    · refine ⟨sortStable lessRef (otherRefs first rest), sorted_strictly once, ?_, ?_⟩
      · exact toFinset_eq_of_perm _ _ sorted
      · exact take_members _
    · exact decide_eq_true_iff

end Row

section Flat
variable {flat : List Issue}

/-- Under a shared subject, a bucket's refs repeat exactly when two of its rows do. -/
theorem bucket_once_iff {subject : Ref} {id : String}
    (shared : ∀ m ∈ bucket flat id, subjectOf m = subject) :
    (((bucket flat id).map Issue.ref).filter fun own => own ≠ subject).Nodup ↔
      (bucket flat id).Pairwise fun a b => a.ref = b.ref → a.ref = subjectOf a := by
  rw [List.Nodup, pairwise_filter, pairwise_map]
  simp only [pairwise_iff_forall_sublist, decide_eq_true_iff]
  constructor
  · intro apart a b sub same
    by_contra other
    rw [shared a (sub.subset (by simp))] at other
    exact apart sub other (same ▸ other) same
  · intro alike a b sub other _ same
    apply other
    rw [← shared a (sub.subset (by simp))]
    exact alike sub same

theorem one_row_each_iff : OneRowEach flat ↔ ∀ id, (bucket flat id).Pairwise fun a b =>
      a.ref = b.ref → a.ref = subjectOf a := by
  simp only [OneRowEach, pairwise_iff_forall_sublist]
  constructor
  · intro each id a b sub
    have mine := bucket_ids flat id a (sub.subset (by simp))
    have mine' := bucket_ids flat id b (sub.subset (by simp))
    exact each (sub.trans filter_sublist) (mine.trans mine'.symm)
  · intro each a b sub same
    have inside : [a, b].Sublist (bucket flat b.id) := by
      have kept := sub.filter fun r => r.id == b.id
      rwa [filter_eq_self.mpr (by simp [same])] at kept
    exact each b.id inside

/-- Every grouped row counts distinct resources exactly when no resource other than a group's subject
    has two rows in it. -/
theorem counts_resources_iff {ids : List String} (visits : Visits ids flat)
    (shared : SharedSubject flat) :
    (∀ g ∈ groupIssues ids flat, CountsResources (affectedResources (bucket flat g.id) (subjectRef g)) g) ↔
        OneRowEach flat := by
  have subjects : ∀ {first rest id}, bucket flat id = first :: rest →
      ∀ m ∈ bucket flat id, subjectOf m = subjectOf (select betterRepresentative first rest) := by
    intro first rest id rows m member
    have chosen : select betterRepresentative first rest ∈ bucket flat id :=
      rows ▸ select_mem betterRepresentative first rest
    apply shared m (List.mem_of_mem_filter member) _ (List.mem_of_mem_filter chosen)
    rw [bucket_ids flat id m member, bucket_ids flat id _ chosen]
  rw [one_row_each_iff]
  constructor
  · intro counts id
    cases rows : bucket flat id with
    | nil => exact List.Pairwise.nil
    | cons first rest =>
      have folded : foldBucket (bucket flat id) = some (foldGroup first rest) := by
        rw [rows]
        rfl
      have own := fold_id folded
      have visited : id ∈ ids := by
        have member : first ∈ bucket flat id := rows ▸ List.mem_cons_self
        exact (visits.all id).mpr
          ⟨first, List.mem_of_mem_filter member, bucket_ids flat id first member⟩
      have mine := counts (foldGroup first rest) (mem_group_iff.mpr ⟨own ▸ visited, own ▸ folded⟩)
      rw [own, rows, fold_counts_iff, otherRefs, ← rows, bucket_once_iff (subjects rows)] at mine
      exact rows ▸ mine
  · intro each g present
    obtain ⟨_, folded⟩ := mem_group_iff.mp present
    cases rows : bucket flat g.id with
    | nil =>
      rw [rows] at folded
      cases folded
    | cons first rest =>
      rw [rows] at folded
      cases folded
      rw [fold_counts_iff, otherRefs, ← rows, bucket_once_iff (subjects rows)]
      exact each _

end Flat

section Inputs

def podRow (source : Source) (pod reason : String) : Issue :=
  { crashRow 0 with source := source, name := pod, reason := reason }

def twoPods : List Issue := [podRow .problem "web-0" "CrashLoopBackOff", podRow .problem "web-1" "Error"]

/-- The second pod is reported once more, by a condition on it. -/
def foundTwice : List Issue := twoPods ++ [podRow .condition "web-1" "ContainersNotReady"]

theorem two_pods_counted : OneRowEach twoPods ∧ ∀ g ∈ groupIssues ["web-crashloop"] twoPods,
    CountsResources (affectedResources (bucket twoPods g.id) (subjectRef g)) g := by
  have one : OneRowEach twoPods := by
    unfold OneRowEach
    decide
  have visits : Visits ["web-crashloop"] twoPods := by
    refine ⟨by decide, ?_⟩
    intro id
    simp [twoPods, podRow, crashRow, eq_comm]
  have shared : SharedSubject twoPods := by
    unfold SharedSubject
    decide
  exact ⟨one, (counts_resources_iff visits shared).mpr one⟩

/-- Two pods are affected, and three are counted. -/
theorem pod_counted_twice : SharedSubject foundTwice ∧ Visits ["web-crashloop"] foundTwice ∧
    ¬ ∀ g ∈ groupIssues ["web-crashloop"] foundTwice,
      CountsResources (affectedResources (bucket foundTwice g.id) (subjectRef g)) g := by
  refine ⟨by unfold SharedSubject; decide, ⟨by decide, ?_⟩, ?_⟩
  · intro id
    simp [foundTwice, twoPods, podRow, crashRow, eq_comm]
  · intro counts
    have counted := (counts (foldGroup (podRow .problem "web-0" "CrashLoopBackOff")
      (foundTwice.drop 1)) (by decide)).count
    exact absurd counted (by decide)

end Inputs

end AffectedCount
