import Radar.Packages.Aggregate

/- What a row of the aggregate is made of: the contributions of its key, each taken up once, and the
   CRDs that belong to it. -/
namespace Packages
open GoText KeyedFold List
variable (lowering : Lowering) {chart : String}

def releasedKeys (s : Sources) : List Key := (arrivals lowering s).map Arrival.key

/-- Whether a CRD belongs to the row of a key: those of a known chart to every row of the chart that
    something else has made, and without one to a row of their own. -/
def lands (released : List Key) (c : CRD) (k : Key) : Bool := match chartFromCRDGroup c.group with
  | some chart =>
    if released.any fun k => k.chart == chart then released.contains k && k.chart == chart
    else k == ⟨chart, "", ""⟩
  | none => k == ⟨c.group, "", ""⟩

def crdStanding (c : CRD) : Standing := match chartFromCRDGroup c.group with
  | some _ => .release
  | none => .group c.group

def landed (released : List Key) (cs : List CRD) (k : Key) : List Arrival :=
  (cs.filter fun c => lands released c k).map fun c => crdArrival c k (crdStanding c)

def members (s : Sources) (k : Key) : List Arrival :=
  (arrivals lowering s).filter (fun a => decide (a.key = k)) ++ landed (releasedKeys lowering s) s.crds k

/-- The row some arrivals make up, before its health is filled in. -/
def PackageRow.takeUp (r : PackageRow) (as : List Arrival) : PackageRow :=
  as.foldl (PackageRow.add lowering) r

section Default

@[simp] theorem default_idem (r : PackageRow) : r.defaultHealth.defaultHealth = r.defaultHealth := by
  unfold PackageRow.defaultHealth
  by_cases none_ : r.health = ""
  · simp [none_]
  · simp [none_]

@[simp] theorem default_key (r : PackageRow) : r.defaultHealth.key = r.key := rfl

@[simp] theorem add_key (r : PackageRow) (a : Arrival) : (r.add lowering a).key = r.key :=
  (rowFolding lowering).key_add r a

theorem worse_absent (h : Health) : worseHealth lowering h "" = h := by
  unfold worseHealth
  by_cases none_ : h = ""
  · rw [if_pos none_, none_]
  · rw [if_neg none_, if_pos rfl]

/-- An arrival without an opinion of the health may as well come after the health is filled in. -/
theorem default_quiet (r : PackageRow) {a : Arrival} (quiet : a.contribution.health = "") :
    (r.defaultHealth.add lowering a).defaultHealth = (r.add lowering a).defaultHealth := by
  have silent : (normalizeContribution a.contribution).health = "" := by
    unfold normalizeContribution
    split <;> exact quiet
  have base : (r.defaultHealth.addContribution lowering a.contribution).mergeOverlay a.overlay =
      ((r.addContribution lowering a.contribution).mergeOverlay a.overlay).defaultHealth := by
    simp only [PackageRow.addContribution, PackageRow.mergeOverlay, PackageRow.defaultHealth, silent,
      worse_absent]
    rfl
  unfold PackageRow.add
  cases a.standing with
  | release => simp only [base, default_idem]
  | synthesized => simp only [base, default_idem]
  | group name =>
    simp only [base]
    exact default_idem _

theorem add_synthesized (r : PackageRow) (c : CRD) (k : Key) :
    (r.add lowering (crdArrival c k .synthesized)).defaultHealth =
      (r.add lowering (crdArrival c k .release)).defaultHealth := default_idem _

end Default

section Charts

/-- No chart in the table has a dot, so none is an unknown group. -/
theorem chart_undotted {group chart : String} (known : chartFromCRDGroup group = some chart) :
    '.' ∉ chart.toList := by
  have all : ∀ entry ∈ crdGroupToChart, ('.' ∈ entry.2.toList) = False := by
    simp [crdGroupToChart]
  obtain ⟨before, after, whole, _⟩ := lookup_eq_some_iff.mp known
  have listed : (group, chart) ∈ crdGroupToChart := whole ▸ mem_append_right _ mem_cons_self
  have undotted := all _ listed
  simp only at undotted
  rw [undotted]
  exact not_false

theorem unknown_apart {c : CRD} {group chart : String} (known : chartFromCRDGroup group = some chart) :
    c.group ≠ chart := fun same => chart_undotted known (same ▸ c.dotted)

end Charts

section Landing
variable {lowering} {released : List Key} {c : CRD} {k : Key}

theorem lands_unknown (unknown : chartFromCRDGroup c.group = none) :
    lands released c k = true ↔ k = ⟨c.group, "", ""⟩ := by
  simp [lands, unknown]

theorem lands_shared (known : chartFromCRDGroup c.group = some chart)
    (row : ∃ k ∈ released, k.chart = chart) :
    lands released c k = true ↔ k ∈ released ∧ k.chart = chart := by
  have any : (released.any fun k => k.chart == chart) = true := by simpa using row
  simp [lands, known, any]

theorem lands_alone (known : chartFromCRDGroup c.group = some chart)
    (row : ¬ ∃ k ∈ released, k.chart = chart) :
    lands released c k = true ↔ k = ⟨chart, "", ""⟩ := by
  have any : (released.any fun k => k.chart == chart) = false := by
    simpa using row
  simp [lands, known, any]

/-- Where a CRD of the chart has no release's row, the rows of the chart are its own. -/
theorem lands_chart {group : String} (known : chartFromCRDGroup group = some chart)
    (landed : lands released c k = true) (own : k.chart = chart) :
    k ∈ released ∨ (¬ ∃ k ∈ released, k.chart = chart) ∧ k = ⟨chart, "", ""⟩ := by
  cases found : chartFromCRDGroup c.group with
  | none =>
    rw [(lands_unknown found).mp landed] at own
    exact absurd own (unknown_apart known)
  | some chart' =>
    by_cases row : ∃ k ∈ released, k.chart = chart'
    · exact Or.inl ((lands_shared found row).mp landed).1
    · have alone := (lands_alone found row).mp landed
      rw [alone] at own
      subst own
      exact Or.inr ⟨row, alone⟩

end Landing

/-- The rows after the CRDs so far. -/
structure Landed (s : Sources) (cs : List CRD) (rows : List PackageRow) : Prop where
  distinct : (rows.map PackageRow.key).Nodup
  keys : ∀ k, k ∈ rows.map PackageRow.key ↔ k ∈ releasedKeys lowering s ∨
    ∃ c ∈ cs, lands (releasedKeys lowering s) c k = true
  made : ∀ r ∈ rows, r.defaultHealth = ((newRow r.key).takeUp lowering
    ((arrivals lowering s).filter (fun a => decide (a.key = r.key)) ++
      landed (releasedKeys lowering s) cs r.key)).defaultHealth

section Step
variable {lowering} {s : Sources} {cs : List CRD} {rows : List PackageRow} {c : CRD}

theorem take_up_append (r : PackageRow) (as bs : List Arrival) :
    r.takeUp lowering (as ++ bs) = (r.takeUp lowering as).takeUp lowering bs := foldl_append

theorem landed_concat (released : List Key) (cs : List CRD) (c : CRD) (k : Key) :
    landed released (cs ++ [c]) k = landed released cs k ++
      if lands released c k = true then [crdArrival c k (crdStanding c)] else [] := by
  unfold landed
  rw [filter_append, map_append]
  by_cases hit : lands released c k = true
  · simp [hit]
  · simp [hit]

theorem made_landed {r : PackageRow} {as : List Arrival} {standing : Standing}
    (made : r.defaultHealth = ((newRow r.key).takeUp lowering as).defaultHealth)
    (alike : ∀ q : PackageRow, (q.add lowering (crdArrival c r.key standing)).defaultHealth =
      (q.add lowering (crdArrival c r.key (crdStanding c))).defaultHealth) :
    (r.add lowering (crdArrival c r.key standing)).defaultHealth =
      ((newRow r.key).takeUp lowering (as ++ [crdArrival c r.key (crdStanding c)])).defaultHealth := by
  rw [alike, take_up_append, ← default_quiet lowering r rfl, made, default_quiet lowering _ rfl]
  rfl

/-- The CRD goes to one key only, that of a row there is or of a new one. -/
theorem landed_insert (held : Landed lowering s cs rows) {k : Key} {standing : Standing}
    (only : ∀ k', lands (releasedKeys lowering s) c k' = true ↔ k' = k)
    (alike : ∀ q : PackageRow, (q.add lowering (crdArrival c k standing)).defaultHealth =
      (q.add lowering (crdArrival c k (crdStanding c))).defaultHealth) :
    Landed lowering s (cs ++ [c]) ((rowFolding lowering).insert rows (crdArrival c k standing)) := by
  have keys : ∀ k', k' ∈ ((rowFolding lowering).insert rows (crdArrival c k standing)).map
      PackageRow.key ↔ k' ∈ rows.map PackageRow.key ∨ k' = k :=
    fun k' => @mem_insert_keys _ _ _ (rowFolding lowering) _ rows (crdArrival c k standing) k'
  refine ⟨@insert_nodup _ _ _ (rowFolding lowering) _ rows held.distinct _, fun k' => ?_, fun r member => ?_⟩
  · rw [keys, held.keys, or_assoc]
    refine or_congr_right ?_
    simp only [mem_append, mem_singleton, or_and_right, exists_or, exists_eq_left, only]
  · rw [landed_concat]
    rcases (mem_insert (F := rowFolding lowering) held.distinct (crdArrival c k standing) r).mp member
      with ⟨old, other⟩ | ⟨r', old, own, rfl⟩ | ⟨none_, rfl⟩
    · have apart : ¬ lands (releasedKeys lowering s) c r.key = true := fun lands => other ((only _).mp lands)
      rw [if_neg apart, append_nil]
      exact held.made r old
    · have own : r'.key = k := own
      subst own
      have same : ((rowFolding lowering).add r' (crdArrival c r'.key standing)).key = r'.key :=
        add_key lowering r' _
      rw [same, if_pos ((only _).mpr rfl), ← append_assoc]
      exact made_landed (held.made r' old) alike
    · have fresh : k ∉ rows.map PackageRow.key := by
        intro inside
        obtain ⟨r', old, own⟩ := mem_map.mp inside
        exact none_ r' old own
      rw [held.keys] at fresh
      push Not at fresh
      have unreleased : (arrivals lowering s).filter (fun a => decide (a.key = k)) = [] := by
        rw [filter_eq_nil_iff]
        intro a arrived own
        exact fresh.1 (mem_map.mpr ⟨a, arrived, of_decide_eq_true own⟩)
      have unlanded : landed (releasedKeys lowering s) cs k = [] := by
        rw [landed, map_eq_nil_iff, filter_eq_nil_iff]
        exact fun c' before => fresh.2 c' before
      have same : ((rowFolding lowering).add ((rowFolding lowering).start (crdArrival c k standing))
          (crdArrival c k standing)).key = k := add_key lowering _ _
      rw [same, if_pos ((only _).mpr rfl), unreleased, unlanded]
      exact alike (newRow k)

/-- The CRD goes to every row of its chart. -/
theorem landed_shared (held : Landed lowering s cs rows)
    (only : ∀ r ∈ rows, lands (releasedKeys lowering s) c r.key = true ↔ r.chart = chart)
    (present : ∀ k, lands (releasedKeys lowering s) c k = true → k ∈ rows.map PackageRow.key)
    (standing : crdStanding c = .release) :
    Landed lowering s (cs ++ [c]) (rows.map fun r =>
      if r.chart = chart then r.add lowering (crdArrival c r.key .release) else r) := by
  have keys : (rows.map fun r => if r.chart = chart then r.add lowering (crdArrival c r.key .release)
      else r).map PackageRow.key = rows.map PackageRow.key := by
    rw [map_map]
    refine map_congr_left fun r _ => ?_
    simp only [Function.comp_apply]
    split
    · exact add_key lowering r _
    · rfl
  refine ⟨by rw [keys]; exact held.distinct, fun k => ?_, fun r member => ?_⟩
  · rw [keys, held.keys]
    simp only [mem_append, mem_singleton, or_and_right, exists_or, exists_eq_left]
    constructor
    · rintro (released | before)
      · exact Or.inl released
      · exact Or.inr (Or.inl before)
    · rintro (released | before | now)
      · exact Or.inl released
      · exact Or.inr before
      · exact (held.keys k).mp (present k now)
  · obtain ⟨r', old, rfl⟩ := mem_map.mp member
    rw [landed_concat]
    by_cases own : r'.chart = chart
    · rw [if_pos own, add_key, if_pos ((only r' old).mpr own), ← append_assoc]
      exact made_landed (held.made r' old) fun q => by rw [standing]
    · rw [if_neg own, if_neg fun lands => own ((only r' old).mp lands), append_nil]
      exact held.made r' old

theorem any_chart {rows : List PackageRow} :
    (rows.any fun r => r.chart == chart) = true ↔ ∃ k ∈ rows.map PackageRow.key, k.chart = chart := by
  simp [PackageRow.key]

theorem landed_step (held : Landed lowering s cs rows) (c : CRD) :
    Landed lowering s (cs ++ [c]) (landCRD lowering rows c) := by
  unfold landCRD
  cases known : chartFromCRDGroup c.group with
  | none =>
    have standing : crdStanding c = .group c.group := by simp [crdStanding, known]
    exact landed_insert held (fun k => lands_unknown known) fun q => by rw [standing]
  | some chart =>
    have standing : crdStanding c = .release := by simp [crdStanding, known]
    -- a row of the chart is a release's, or that of earlier CRDs of the chart
    have chartRow : ∀ r ∈ rows, r.chart = chart → r.key ∈ releasedKeys lowering s ∨
        (¬ ∃ k ∈ releasedKeys lowering s, k.chart = chart) ∧ r.key = ⟨chart, "", ""⟩ := by
      intro r old own
      rcases (held.keys r.key).mp (mem_map_of_mem old) with released | ⟨c', before, landed⟩
      · exact Or.inl released
      · exact lands_chart known landed own
    by_cases any : (rows.any fun r => r.chart == chart) = true
    · simp only [any, if_true]
      apply landed_shared held ?_ ?_ standing
      · intro r old
        by_cases row : ∃ k ∈ releasedKeys lowering s, k.chart = chart
        · rw [lands_shared known row]
          refine ⟨fun both => both.2, fun own => ⟨?_, own⟩⟩
          exact (chartRow r old own).resolve_right fun alone => alone.1 row
        · rw [lands_alone known row]
          refine ⟨fun same => congrArg Key.chart same, fun own => ?_⟩
          rcases chartRow r old own with released | alone
          · exact absurd ⟨r.key, released, own⟩ row
          · exact alone.2
      · intro k landed
        by_cases row : ∃ k ∈ releasedKeys lowering s, k.chart = chart
        · exact (held.keys k).mpr (Or.inl ((lands_shared known row).mp landed).1)
        · rw [(lands_alone known row).mp landed]
          obtain ⟨k', inside, own⟩ := any_chart.mp any
          obtain ⟨r, old, rfl⟩ := mem_map.mp inside
          rcases chartRow r old own with released | alone
          · exact absurd ⟨r.key, released, own⟩ row
          · exact alone.2 ▸ mem_map_of_mem old
    · have none_ : ¬ ∃ k ∈ releasedKeys lowering s, k.chart = chart := by
        rintro ⟨k, released, own⟩
        exact any (any_chart.mpr ⟨k, (held.keys k).mpr (Or.inl released), own⟩)
      simp only [any]
      apply landed_insert held (fun k => lands_alone known none_)
      intro q
      rw [standing]
      exact add_synthesized lowering q c _

theorem landed_start : Landed lowering s [] (releaseRows lowering s) := by
  obtain ⟨distinct, used, made⟩ := gather_spec (F := rowFolding lowering) (arrivals lowering s)
  refine ⟨distinct, fun k => ?_, fun r member => ?_⟩
  · have found : k ∈ (releaseRows lowering s).map PackageRow.key ↔
        ∃ a ∈ arrivals lowering s, a.key = k := used k
    rw [found, releasedKeys, mem_map]
    simp
  · obtain ⟨first, rest, listed, whole⟩ := made r member
    have own : first.key = r.key := by
      have inside : first ∈ first :: rest := mem_cons_self
      rw [← listed] at inside
      exact of_decide_eq_true (mem_filter.mp inside).2
    have filtered : (arrivals lowering s).filter (fun a => decide (a.key = r.key)) = first :: rest := listed
    have taken : r = (newRow r.key).takeUp lowering (first :: rest) := by
      rw [← own, ← filtered, own]
      have start : (rowFolding lowering).start first = newRow r.key := by rw [← own]; rfl
      rw [start] at whole
      exact whole
    rw [filtered, landed, filter_nil, map_nil, append_nil, ← taken]

theorem landed_all (cs : List CRD) : Landed lowering s cs (cs.foldl (landCRD lowering)
    (releaseRows lowering s)) := by
  induction cs using reverseRecOn with
  | nil => exact landed_start
  | append_singleton cs c ih =>
    rw [foldl_append]
    exact landed_step ih c

end Step

/-- What the rows are: one for every key that something has come for, made of just that. -/
structure Rows (s : Sources) (rows : List PackageRow) : Prop where
  distinct : (rows.map PackageRow.key).Nodup
  keys : ∀ k, k ∈ rows.map PackageRow.key ↔ members lowering s k ≠ []
  made : ∀ r ∈ rows, r = ((newRow r.key).takeUp lowering (members lowering s r.key)).defaultHealth

theorem aggregate_rows (s : Sources) : Rows lowering s (aggregate lowering s) := by
  have held := @landed_all lowering s s.crds
  have perm : (aggregate lowering s).Perm
      ((s.crds.foldl (landCRD lowering) (releaseRows lowering s)).map PackageRow.defaultHealth) :=
    Arrange.sort_perm rowLess _
  have keys : ((aggregate lowering s).map PackageRow.key).Perm
      ((s.crds.foldl (landCRD lowering) (releaseRows lowering s)).map PackageRow.key) := by
    have mapped := perm.map PackageRow.key
    rwa [map_map] at mapped
  refine ⟨keys.nodup_iff.mpr held.distinct, fun k => ?_, fun r member => ?_⟩
  · rw [keys.mem_iff, held.keys, members, ne_eq, append_eq_nil_iff, not_and_or]
    refine or_congr ?_ ?_
    · simp [releasedKeys, filter_eq_nil_iff]
    · simp [landed, filter_eq_nil_iff]
  · obtain ⟨r', old, rfl⟩ := mem_map.mp (perm.mem_iff.mp member)
    exact held.made r' old

end Packages
