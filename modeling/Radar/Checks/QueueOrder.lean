import Radar.Checks.BuildChecks

/- The queue accounts for every finding once, and what it owes to the order of the findings. -/
namespace Checks
open Arrange KeyedFold Selection List

/-- Every finding is in one row, that of its check, and the rows' numbers are those of their findings. -/
structure Accounted (findings : List EffectiveFinding) (checks : List Check) : Prop where
  distinct : (checks.map Check.checkID).Nodup
  all : (checks.flatMap Check.findings).Perm findings
  own : ∀ c ∈ checks, ∀ f ∈ c.findings, f.checkID = c.checkID
  counted : ∀ c ∈ checks, c.affectedFindings = c.findings.length
  resources : ∀ c ∈ checks, c.affectedResources = (c.findings.map fun f => f.resource.toRef).dedup.length

/-- What of a row decides on its place. -/
structure Standing where
  checkID : String
  severity : Nat
  affectedFindings : Nat
  affectedResources : Nat
  deriving DecidableEq

def Check.standing (c : Check) : Standing :=
  ⟨c.checkID, severityRank c.effectiveSeverity, c.affectedFindings, c.affectedResources⟩

/-- Findings of one check that the sorting does not tell apart are the same. -/
def TiesAgree (findings : List EffectiveFinding) : Prop :=
  ∀ f ∈ findings, ∀ g ∈ findings, f.checkID = g.checkID →
    severityRank f.effectiveSeverity = severityRank g.effectiveSeverity →
    f.resource.kind = g.resource.kind → f.resource.namespace_ = g.resource.namespace_ →
    f.resource.name = g.resource.name → f = g

section Ranks

def findingKey (f : EffectiveFinding) : ℕᵒᵈ ×ₗ String ×ₗ String ×ₗ String :=
  toLex (OrderDual.toDual (severityRank f.effectiveSeverity),
    toLex (f.resource.kind, toLex (f.resource.namespace_, f.resource.name)))

theorem finding_ranks : Ranks lessFinding findingKey := by
  intro a b
  simp only [lessFinding, findingKey, Prod.Lex.toLex_lt_toLex]
  by_cases severity : severityRank a.effectiveSeverity = severityRank b.effectiveSeverity
  · by_cases kind : a.resource.kind = b.resource.kind
    · by_cases namespace_ : a.resource.namespace_ = b.resource.namespace_
      · simp [severity, kind, namespace_]
      · simp [severity, kind, namespace_]
    · simp [severity, kind]
  · simp [severity]

theorem finding_key_eq_iff (f g : EffectiveFinding) : findingKey f = findingKey g ↔
    severityRank f.effectiveSeverity = severityRank g.effectiveSeverity ∧
      f.resource.kind = g.resource.kind ∧ f.resource.namespace_ = g.resource.namespace_ ∧
      f.resource.name = g.resource.name := by
  simp [findingKey]

def standingKey (s : Standing) : ℕᵒᵈ ×ₗ ℕᵒᵈ ×ₗ String :=
  toLex (OrderDual.toDual s.severity, toLex (OrderDual.toDual s.affectedResources, s.checkID))

theorem check_ranks : Ranks lessCheck fun c => standingKey c.standing := by
  intro a b
  simp only [lessCheck, standingKey, Check.standing, Prod.Lex.toLex_lt_toLex]
  by_cases severity : severityRank a.effectiveSeverity = severityRank b.effectiveSeverity
  · by_cases resources : a.affectedResources = b.affectedResources
    · simp [severity, resources]
    · simp [severity, resources]
  · simp [severity]

end Ranks

section Buckets
variable {xs ys : List EffectiveFinding} {b : Bucket}

theorem bucket_findings (member : b ∈ bucketFolding.gather xs) :
    b.findings = xs.filter fun f => decide (f.checkID = b.checkID) :=
  gather_members (f := Bucket.findings) (fun _ => rfl) (fun _ _ => rfl) member

theorem bucket_some (member : b ∈ bucketFolding.gather xs) : b.findings ≠ [] := by
  obtain ⟨x, held, own⟩ := ((gather_spec xs).2.1 b.checkID).mp (mem_map_of_mem member)
  have inside : x ∈ xs.filter fun f => decide (f.checkID = b.checkID) :=
    mem_filter.mpr ⟨held, decide_eq_true own⟩
  rw [bucket_findings member]
  exact ne_nil_of_mem inside

theorem add_nodup {b : Bucket} (distinct : b.resKeys.Nodup) (fs : List EffectiveFinding) :
    (fs.foldl Bucket.add b).resKeys.Nodup := by
  induction fs generalizing b with
  | nil => exact distinct
  | cons f rest ih => exact ih (b := b.add f) distinct.insert

theorem bucket_keys (member : b ∈ bucketFolding.gather xs) :
    b.resKeys.Nodup ∧ ∀ k, k ∈ b.resKeys ↔ ∃ f ∈ b.findings, refKey f.resource = k := by
  constructor
  · obtain ⟨first, rest, _, whole⟩ := (gather_spec xs).2.2 b member
    rw [whole]
    exact add_nodup nodup_nil _
  · intro k
    have parts : k ∈ b.resKeys ↔ ∃ f ∈ xs, bucketFolding.keyOf f = bucketFolding.key b ∧
        k ∈ [refKey f.resource] :=
      gather_parts (fun _ => rfl) (fun b f => by simp [bucketFolding, Bucket.add]) member k
    rw [parts, bucket_findings member]
    simp only [mem_singleton, mem_filter, decide_eq_true_eq, and_assoc]
    exact exists_congr fun f => and_congr_right fun _ => and_congr_right fun _ => eq_comm

/-- The bucket's keys are as many as its resources. -/
theorem bucket_resources (member : b ∈ bucketFolding.gather xs) :
    b.resKeys.length = (b.findings.map fun f => f.resource.toRef).dedup.length := by
  obtain ⟨distinct, held⟩ := bucket_keys member
  have injective : Function.Injective OwnerWalk.refKey := fun _ _ => OwnerWalk.refKey_inj
  have perm : b.resKeys.Perm
      ((b.findings.map fun f => f.resource.toRef).dedup.map OwnerWalk.refKey) := by
    rw [perm_ext_iff_of_nodup distinct ((nodup_dedup _).map injective)]
    intro k
    rw [held]
    simp only [mem_map, mem_dedup]
    constructor
    · rintro ⟨f, inside, rfl⟩
      exact ⟨_, ⟨f, inside, rfl⟩, rfl⟩
    · rintro ⟨_, ⟨f, inside, rfl⟩, rfl⟩
      exact ⟨f, inside, rfl⟩
  rw [perm.length_eq, length_map]

end Buckets

section Rows
variable (catalog : String → CheckMeta) (clusterID env : String) {b b' : Bucket}

theorem check_fields (some_ : b.findings ≠ []) :
    ∃ c, checkOf catalog clusterID env b = some c ∧ c.checkID = b.checkID ∧
      c.findings = sortEffectiveFindings b.findings ∧ c.affectedFindings = b.findings.length ∧
      c.affectedResources = b.resKeys.length ∧
      ∃ rep, (sortEffectiveFindings b.findings).head? = some rep ∧
        c.effectiveSeverity = rep.effectiveSeverity := by
  cases sorted : sortEffectiveFindings b.findings with
  | nil =>
    have perm : (sortEffectiveFindings b.findings).Perm b.findings := sort_perm lessFinding _
    rw [sorted] at perm
    exact absurd (nil_perm.mp perm) some_
  | cons rep rest =>
    refine ⟨_, by rw [checkOf, sorted], rfl, rfl, rfl, rfl, rep, rfl, rfl⟩

theorem check_congr (same : b.checkID = b'.checkID)
    (sorted : sortEffectiveFindings b.findings = sortEffectiveFindings b'.findings)
    (counted : b.findings.length = b'.findings.length)
    (resources : b.resKeys.length = b'.resKeys.length) :
    checkOf catalog clusterID env b = checkOf catalog clusterID env b' := by
  simp only [checkOf, same, sorted, counted, resources]

/-- The rows before they are sorted. -/
def rows (xs : List EffectiveFinding) : List Check :=
  (bucketFolding.gather xs).filterMap (checkOf catalog clusterID env)

variable {catalog clusterID env} {xs ys : List EffectiveFinding} {c : Check}

theorem rows_perm (xs : List EffectiveFinding) :
    (buildChecks catalog clusterID env xs).Perm (rows catalog clusterID env xs) :=
  sort_perm lessCheck _

/-- A row is that of its bucket. -/
theorem row_bucket (member : c ∈ rows catalog clusterID env xs) :
    ∃ b ∈ bucketFolding.gather xs, checkOf catalog clusterID env b = some c ∧
      c.checkID = b.checkID ∧ c.findings = sortEffectiveFindings b.findings ∧
      c.affectedFindings = b.findings.length ∧ c.affectedResources = b.resKeys.length ∧
      ∃ rep, (sortEffectiveFindings b.findings).head? = some rep ∧
        c.effectiveSeverity = rep.effectiveSeverity := by
  obtain ⟨b, held, made⟩ := mem_filterMap.mp member
  obtain ⟨c', made', fields⟩ := check_fields catalog clusterID env (bucket_some held)
  rw [made] at made'
  obtain rfl := Option.some.inj made'
  exact ⟨b, held, made, fields⟩

theorem rows_all {bs : List Bucket} (some_ : ∀ b ∈ bs, b.findings ≠ []) :
    (bs.filterMap (checkOf catalog clusterID env)).map Check.checkID = bs.map Bucket.checkID ∧
      ((bs.filterMap (checkOf catalog clusterID env)).flatMap Check.findings).Perm
        (bs.map Bucket.findings).flatten := by
  induction bs with
  | nil => exact ⟨rfl, .refl _⟩
  | cons b rest ih =>
    obtain ⟨ids, perm⟩ := ih fun b' member => some_ b' (mem_cons_of_mem b member)
    obtain ⟨c, made, own, findings, _⟩ := check_fields catalog clusterID env (some_ b mem_cons_self)
    rw [filterMap_cons_some made]
    constructor
    · rw [map_cons, map_cons, ids, own]
    · rw [flatMap_cons, map_cons, flatten_cons, findings]
      exact (sort_perm lessFinding b.findings).append perm

theorem rows_ids (xs : List EffectiveFinding) : ((rows catalog clusterID env xs).map Check.checkID) =
    (bucketFolding.gather xs).map Bucket.checkID :=
  (rows_all fun _ member => bucket_some member).1

theorem rows_distinct (xs : List EffectiveFinding) :
    ((rows catalog clusterID env xs).map Check.checkID).Nodup := by
  rw [rows_ids]
  exact (gather_spec (F := bucketFolding) xs).1

theorem accounted (xs : List EffectiveFinding) : Accounted xs (buildChecks catalog clusterID env xs) := by
  have perm := @rows_perm catalog clusterID env xs
  have parts := gather_partition (F := bucketFolding) (f := Bucket.findings) (fun _ => rfl) (fun _ _ => rfl) xs
  refine ⟨?_, ?_, fun c member f inside => ?_, fun c member => ?_, fun c member => ?_⟩
  · exact (perm.map Check.checkID).nodup_iff.mpr (rows_distinct xs)
  · have gathered := (@rows_all catalog clusterID env _ fun _ member => @bucket_some xs _ member).2
    exact (perm.flatMap_right Check.findings).trans (gathered.trans parts.all)
  · obtain ⟨b, held, _, own, findings, _⟩ := row_bucket (perm.mem_iff.mp member)
    rw [findings, sortEffectiveFindings, (sort_perm _ _).mem_iff, bucket_findings held,
      mem_filter] at inside
    rw [own]
    exact of_decide_eq_true inside.2
  · obtain ⟨b, held, _, own, findings, counted, _⟩ := row_bucket (perm.mem_iff.mp member)
    rw [counted, findings, sortEffectiveFindings, (sort_perm _ _).length_eq]
  · obtain ⟨b, held, _, own, findings, _, resources, _⟩ := row_bucket (perm.mem_iff.mp member)
    rw [resources, findings, bucket_resources held]
    exact (((sort_perm lessFinding b.findings).map _).dedup).length_eq.symm

/-- The first of the sorted findings is of the least key. -/
theorem head_least {fs : List EffectiveFinding} {rep : EffectiveFinding}
    (head : (sortEffectiveFindings fs).head? = some rep) :
    rep ∈ fs ∧ ∀ f ∈ fs, findingKey rep ≤ findingKey f := by
  have perm : (sortEffectiveFindings fs).Perm fs := sort_perm lessFinding fs
  have order : (sortEffectiveFindings fs).Pairwise fun a b => findingKey a ≤ findingKey b :=
    sort_ordered finding_ranks fs
  obtain ⟨rest, sorted⟩ := head?_eq_some_iff.mp head
  rw [sorted] at perm order
  refine ⟨perm.mem_iff.mp mem_cons_self, fun f member => ?_⟩
  rcases mem_cons.mp (perm.mem_iff.mpr member) with rfl | later
  · exact le_refl _
  · exact rel_of_pairwise_cons order later

theorem buckets_perm (perm : ys.Perm xs) {b b' : Bucket} (member : b ∈ bucketFolding.gather xs)
    (member' : b' ∈ bucketFolding.gather ys) (same : b'.checkID = b.checkID) :
    b'.findings.Perm b.findings ∧ b'.resKeys.length = b.resKeys.length := by
  have findings : b'.findings.Perm b.findings := by
    rw [bucket_findings member, bucket_findings member', same]
    exact perm.filter _
  refine ⟨findings, ?_⟩
  rw [bucket_resources member, bucket_resources member']
  exact ((findings.map _).dedup).length_eq

/-- Rows of one check have one standing, whatever the order of the findings. -/
theorem rows_standing (perm : ys.Perm xs) {c' : Check} (member : c ∈ rows catalog clusterID env xs)
    (member' : c' ∈ rows catalog clusterID env ys) (same : c'.checkID = c.checkID) :
    c'.standing = c.standing := by
  obtain ⟨b, held, _, own, _, counted, resources, rep, head, severity⟩ := row_bucket member
  obtain ⟨b', held', _, own', _, counted', resources', rep', head', severity'⟩ := row_bucket member'
  obtain ⟨findings, keys⟩ := buckets_perm perm held held' (own'.symm.trans (same.trans own))
  obtain ⟨inside, least⟩ := head_least head
  obtain ⟨inside', least'⟩ := head_least head'
  have level : findingKey rep' = findingKey rep :=
    le_antisymm (least' rep (findings.mem_iff.mpr inside)) (least rep' (findings.mem_iff.mp inside'))
  simp only [Check.standing, same, counted, counted', resources, resources', keys, findings.length_eq,
    severity, severity', ((finding_key_eq_iff rep' rep).mp level).1]

theorem rows_agree (agree : TiesAgree xs) (perm : ys.Perm xs) {c' : Check}
    (member : c ∈ rows catalog clusterID env xs) (member' : c' ∈ rows catalog clusterID env ys)
    (same : c'.checkID = c.checkID) : c' = c := by
  obtain ⟨b, held, made, own, _⟩ := row_bucket member
  obtain ⟨b', held', made', own', _⟩ := row_bucket member'
  have ids : b'.checkID = b.checkID := own'.symm.trans (same.trans own)
  obtain ⟨findings, keys⟩ := buckets_perm perm held held' ids
  have sorted : sortEffectiveFindings b'.findings = sortEffectiveFindings b.findings := by
    refine sort_unique finding_ranks findings fun f member g member' level => ?_
    have listed := bucket_findings held'
    rw [listed, mem_filter] at member member'
    obtain ⟨severity, kind, namespace_, name⟩ := (finding_key_eq_iff f g).mp level
    exact agree f (perm.mem_iff.mp member.1) g (perm.mem_iff.mp member'.1)
      ((of_decide_eq_true member.2).trans (of_decide_eq_true member'.2).symm) severity kind namespace_
      name
  have equal := check_congr catalog clusterID env ids sorted findings.length_eq keys
  rw [made, made'] at equal
  exact Option.some.inj equal

theorem rows_twin (perm : ys.Perm xs) (member : c ∈ rows catalog clusterID env xs) :
    ∃ c' ∈ rows catalog clusterID env ys, c'.checkID = c.checkID := by
  have listed : c.checkID ∈ (rows catalog clusterID env xs).map Check.checkID := mem_map_of_mem member
  have keys : ∀ zs k, k ∈ (rows catalog clusterID env zs).map Check.checkID ↔ ∃ f ∈ zs, f.checkID = k := by
    intro zs k
    rw [rows_ids]
    exact (gather_spec (F := bucketFolding) zs).2.1 k
  rw [keys] at listed
  obtain ⟨f, held, own⟩ := listed
  obtain ⟨c', member', same⟩ := mem_map.mp ((keys ys c.checkID).mpr ⟨f, perm.mem_iff.mpr held, own⟩)
  exact ⟨c', member', same⟩

theorem same_row {c' : Check} (member : c ∈ rows catalog clusterID env xs)
    (member' : c' ∈ rows catalog clusterID env xs) (same : c.checkID = c'.checkID) : c = c' :=
  inj_on_of_nodup_map (rows_distinct xs) member member' same

end Rows

section Law
variable {catalog : String → CheckMeta} {clusterID env : String} {xs ys : List EffectiveFinding}

theorem standings_permuted (perm : ys.Perm xs) : (buildChecks catalog clusterID env ys).map Check.standing =
      (buildChecks catalog clusterID env xs).map Check.standing := by
  have ordered : ∀ zs, ((buildChecks catalog clusterID env zs).map Check.standing).Pairwise
      fun a b => standingKey a ≤ standingKey b := by
    intro zs
    rw [pairwise_map]
    exact sort_ordered check_ranks _
  have distinct : ∀ zs, (((buildChecks catalog clusterID env zs).map Check.standing).map
      Standing.checkID).Nodup := by
    intro zs
    rw [map_map]
    exact (accounted zs).distinct
  have within : ∀ {zs zs' : List EffectiveFinding}, zs.Perm zs' → ∀ st,
      st ∈ (buildChecks catalog clusterID env zs').map Check.standing →
        st ∈ (buildChecks catalog clusterID env zs).map Check.standing := by
    intro zs zs' perm st member
    obtain ⟨c, held, rfl⟩ := mem_map.mp member
    have row := (rows_perm zs').mem_iff.mp held
    obtain ⟨c', row', same⟩ := rows_twin perm row
    rw [← rows_standing perm row row' same]
    exact mem_map_of_mem ((rows_perm zs).mem_iff.mpr row')
  have standings : ((buildChecks catalog clusterID env ys).map Check.standing).Perm
      ((buildChecks catalog clusterID env xs).map Check.standing) :=
    (perm_ext_iff_of_nodup (distinct ys).of_map (distinct xs).of_map).mpr fun st =>
      ⟨within perm.symm st, within perm st⟩
  apply List.Perm.eq_of_pairwise _ (ordered ys) (ordered xs) standings
  intro a b member member' le le'
  have level := le_antisymm le le'
  simp only [standingKey, EmbeddingLike.apply_eq_iff_eq, Prod.mk.injEq] at level
  exact inj_on_of_nodup_map (distinct xs) (standings.mem_iff.mp member) member' level.2.2

theorem agree_free (agree : TiesAgree xs) (perm : ys.Perm xs) :
    buildChecks catalog clusterID env ys = buildChecks catalog clusterID env xs := by
  have same : ∀ c, c ∈ rows catalog clusterID env ys ↔ c ∈ rows catalog clusterID env xs := by
    intro c
    constructor
    · intro member
      obtain ⟨c', member', own⟩ := rows_twin perm.symm member
      exact rows_agree agree perm member' member own.symm ▸ member'
    · intro member
      obtain ⟨c', member', own⟩ := rows_twin perm member
      exact rows_agree agree perm member member' own ▸ member'
  have rowsPerm : (rows catalog clusterID env ys).Perm (rows catalog clusterID env xs) :=
    (perm_ext_iff_of_nodup (rows_distinct ys).of_map (rows_distinct xs).of_map).mpr same
  refine sort_unique check_ranks rowsPerm fun c member c' member' level => ?_
  simp only [standingKey, EmbeddingLike.apply_eq_iff_eq, Prod.mk.injEq] at level
  exact same_row member member' level.2.2

/-- The findings of a check, listed first in some order. -/
theorem front_perm {k : String} {zs : List EffectiveFinding}
    (perm : zs.Perm (xs.filter fun f => decide (f.checkID = k))) :
    (zs ++ xs.filter fun f => !decide (f.checkID = k)).Perm xs ∧
      (zs ++ xs.filter fun f => !decide (f.checkID = k)).filter (fun f => decide (f.checkID = k)) = zs := by
  refine ⟨(perm.append_right _).trans (filter_append_perm _ xs), ?_⟩
  have own : ∀ f ∈ zs, decide (f.checkID = k) = true := fun f member =>
    (mem_filter.mp (perm.mem_iff.mp member)).2
  have other : (xs.filter fun f => !decide (f.checkID = k)).filter (fun f => decide (f.checkID = k)) =
      [] := by
    rw [filter_eq_nil_iff]
    intro f member
    simpa using (mem_filter.mp member).2
  rw [filter_append, other, append_nil, filter_eq_self]
  exact own

theorem row_findings {zs : List EffectiveFinding} {c : Check} (member : c ∈ rows catalog clusterID env zs) :
    c.findings = sortEffectiveFindings (zs.filter fun f => decide (f.checkID = c.checkID)) := by
  obtain ⟨b, held, _, own, findings, _⟩ := row_bucket member
  rw [findings, bucket_findings held, own]

theorem free_agree (free : ∀ ys, ys.Perm xs →
    buildChecks catalog clusterID env ys = buildChecks catalog clusterID env xs) : TiesAgree xs := by
  intro f member g member' ids severity kind namespace_ name
  have listed : f.checkID ∈ (rows catalog clusterID env xs).map Check.checkID := by
    rw [rows_ids]
    exact ((gather_spec (F := bucketFolding) xs).2.1 _).mpr ⟨f, member, rfl⟩
  obtain ⟨c, row, own⟩ := mem_map.mp listed
  have settled : ∀ zs, zs.Perm (xs.filter fun f => decide (f.checkID = c.checkID)) →
      sortStable lessFinding zs =
        sortStable lessFinding (xs.filter fun f => decide (f.checkID = c.checkID)) := by
    intro zs perm
    obtain ⟨whole, filtered⟩ := front_perm perm
    obtain ⟨c', row', same⟩ := rows_twin whole row
    have inside : c' ∈ rows catalog clusterID env xs := by
      rw [← (rows_perm xs).mem_iff, ← free _ whole]
      exact (rows_perm _).mem_iff.mpr row'
    obtain rfl := same_row inside row same
    have first := row_findings row'
    rw [filtered] at first
    exact first.symm.trans (row_findings row)
  refine (sort_free_iff finding_ranks _).mp settled f ?_ g ?_ ?_
  · exact mem_filter.mpr ⟨member, decide_eq_true own.symm⟩
  · exact mem_filter.mpr ⟨member', decide_eq_true (ids.symm.trans own.symm)⟩
  · exact (finding_key_eq_iff f g).mpr ⟨severity, kind, namespace_, name⟩

/-- The queue accounts for every finding, its rows stand in one order whatever the order of the
    findings, and they are the same in all exactly if the ties agree. -/
theorem queue_order (catalog : String → CheckMeta) (clusterID env : String)
    (xs : List EffectiveFinding) :
    Accounted xs (buildChecks catalog clusterID env xs) ∧
    (∀ ys, ys.Perm xs → (buildChecks catalog clusterID env ys).map Check.standing =
      (buildChecks catalog clusterID env xs).map Check.standing) ∧
    ((∀ ys, ys.Perm xs →
      buildChecks catalog clusterID env ys = buildChecks catalog clusterID env xs) ↔ TiesAgree xs) :=
  ⟨accounted xs, fun _ => standings_permuted, free_agree, fun agree _ => agree_free agree⟩

end Law

theorem shop_plain : '|' ∉ "apps".toList ∧ '|' ∉ "Deployment".toList ∧ '|' ∉ "shop".toList := by
  decide

def deployment (name : String) : ResourceRef := ⟨⟨"apps", "Deployment", "shop", name, shop_plain⟩, ""⟩

/-- A container of the Deployment shop/web without limits. -/
def containerFinding (message : String) : EffectiveFinding where
  source := sourceRadarBuiltin
  resource := deployment "web"
  checkID := "no-limits"
  category := "Reliability"
  originalSeverity := "warning"
  effectiveSeverity := "medium"
  message := message
  state := ⟨"visible", "detector_default", "counts", "alerts", "counts", ""⟩

/-- The row's message is that of whichever of the containers comes first. -/
theorem container_order_shows : (buildChecks (fun _ => ⟨"", ""⟩) "" "" [containerFinding "container a",
      containerFinding "container b"]).map Check.message = ["container a"] ∧
    (buildChecks (fun _ => ⟨"", ""⟩) "" "" [containerFinding "container b",
      containerFinding "container a"]).map Check.message = ["container b"] := by
  decide

end Checks
