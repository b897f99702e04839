import Mathlib.Data.Prod.Lex
import Mathlib.Data.String.Basic
import Mathlib.Order.WithBot
import Radar.Base.Staged
import Radar.Packages.RowSpec

/- What the rows of the aggregate owe to the order in which the inputs are listed. -/
namespace Packages
open GoText Selection Staged List
variable (lowering : Lowering)

/-- The same inputs, each list in an order of its own. -/
structure Permuted (s' s : Sources) : Prop where
  helm : s'.helm.Perm s.helm
  workloads : s'.workloads.Perm s.workloads
  crds : s'.crds.Perm s.crds
  declarations : s'.gitOpsDeclarations.Perm s.gitOpsDeclarations

structure RowView where
  key : Key
  sources : List SourceCode
  version : String
  health : Health
  overlay : Option Overlay
  deriving DecidableEq

def PackageRow.view (r : PackageRow) : RowView := ⟨r.key, r.sources, r.version, r.health, r.overlay⟩

/-- The lists as they are gone through. -/
def inputs (s : Sources) : List (List (Option Arrival)) :=
  [s.helm.map helmArrival, s.workloads.map workloadArrival,
    s.gitOpsDeclarations.map (declarationArrival lowering)]

/-- What an input brings to a field of the row of a key. -/
def brings {α : Type} (field : Arrival → α) (absent : α) (k : Key) (a : Option Arrival) : α :=
  ((a.filter fun a => decide (a.key = k)).map field).getD absent

def stages {α : Type} (field : Arrival → α) (absent : α) (k : Key) (s : Sources) : List (List α) :=
  (inputs lowering s).map fun list => list.map (brings field absent k)

section Fields

def versionOf (a : Arrival) : String := (normalizeContribution a.contribution).version

def healthOf (a : Arrival) : Health := (normalizeContribution a.contribution).health

def laterText (x held : String) : Bool := decide (held = "" ∧ x ≠ "")

def textKey (x : String) : Nat := if x = "" then 1 else 0

theorem text_ranks : Ranks laterText textKey := by
  intro x held
  unfold laterText textKey
  by_cases empty : x = ""
  · by_cases none_ : held = "" <;> simp [empty, none_]
  · by_cases none_ : held = "" <;> simp [empty, none_]

/-- No opinion of the health is better than every other, so that any takes its place. -/
def healthKey (h : Health) : Nat := if h = "" then 5 else 4 - healthRank lowering h

def worseThan (x held : Health) : Bool := decide (healthKey lowering x < healthKey lowering held)

theorem health_ranks : Ranks (worseThan lowering) (healthKey lowering) := by
  intro x held
  simp [worseThan]

def overlayKey (o : Option Overlay) : WithTop Int := match o with
  | none => ⊤
  | some o => o.tier

theorem overlay_ranks : Ranks outranks overlayKey := by
  intro x held
  cases x with
  | none => simp [outranks, overlayKey]
  | some x =>
    cases held with
    | none => simp [outranks, overlayKey]
    | some held => simp [outranks, overlayKey]

theorem rank_le (h : Health) : healthRank lowering h ≤ 4 ∧ 1 ≤ healthRank lowering h := by
  unfold healthRank
  grind

theorem health_worst (h : Health) : healthKey lowering h ≤ healthKey lowering "" := by
  unfold healthKey
  split <;> simp
  omega

theorem health_only {h : Health} (same : healthKey lowering h = healthKey lowering "") : h = "" := by
  by_contra some_
  simp only [healthKey, some_, if_false, if_true] at same
  omega

theorem text_worst (x : String) : textKey x ≤ textKey "" := by
  unfold textKey
  split <;> simp

theorem text_only {x : String} (same : textKey x = textKey "") : x = "" := by
  by_contra some_
  simp [textKey, some_] at same

theorem overlay_only {o : Option Overlay} (same : overlayKey o = overlayKey none) : o = none := by
  cases o with
  | none => rfl
  | some o => exact absurd same (WithTop.coe_ne_top)

theorem worse_select (held x : Health) :
    worseHealth lowering held x = if worseThan lowering x held then x else held := by
  have first := rank_le lowering held
  have second := rank_le lowering x
  unfold worseHealth worseThan healthKey
  by_cases empty : held = ""
  · by_cases empty' : x = ""
    · simp [empty, empty']
    · simp [empty, empty']
      omega
  · by_cases empty' : x = ""
    · simp [empty, empty']
      omega
    · simp only [empty, empty', if_false, decide_eq_true_eq]
      split
      · rw [if_neg (by omega)]
      · rw [if_pos (by omega)]

end Fields

section TakeUp
variable {lowering} {r : PackageRow}

theorem add_version (r : PackageRow) (a : Arrival) : (r.add lowering a).version =
    if laterText (versionOf a) r.version then versionOf a else r.version := by
  have kept : (r.add lowering a).version = (r.addContribution lowering a.contribution).version := by
    unfold PackageRow.add
    cases a.standing <;> rfl
  have own : (r.addContribution lowering a.contribution).version = if r.version = "" ∧
      (normalizeContribution a.contribution).source ≠ .crds then versionOf a else r.version := rfl
  rw [kept, own]
  by_cases crds : a.contribution.source = .crds
  · have none_ : versionOf a = "" := by simp [versionOf, normalizeContribution, crds]
    have source : (normalizeContribution a.contribution).source = .crds := by
      simp [normalizeContribution, crds]
    simp [source, none_, laterText]
  · have source : (normalizeContribution a.contribution).source ≠ .crds := by
      simp [normalizeContribution, crds]
    by_cases held : r.version = ""
    · by_cases empty : versionOf a = ""
      · simp [held, empty]
      · simp [held, empty, source, laterText]
    · simp [held, laterText]

theorem add_overlay (r : PackageRow) (a : Arrival) : (r.add lowering a).overlay =
    if outranks a.overlay r.overlay then a.overlay else r.overlay := by
  unfold PackageRow.add
  cases a.standing <;> rfl

theorem add_health (r : PackageRow) {a : Arrival} (release : a.standing = .release) :
    (r.add lowering a).health =
      if worseThan lowering (healthOf a) r.health then healthOf a else r.health := by
  rw [← worse_select, PackageRow.add, release]
  rfl

theorem take_up_version (r : PackageRow) (as : List Arrival) :
    (r.takeUp lowering as).version = select laterText r.version (as.map versionOf) := by
  rw [select, foldl_map, PackageRow.takeUp]
  exact (foldl_hom PackageRow.version fun r a => (add_version r a).symm).symm

theorem take_up_overlay (r : PackageRow) (as : List Arrival) :
    (r.takeUp lowering as).overlay = select outranks r.overlay (as.map Arrival.overlay) := by
  rw [select, foldl_map, PackageRow.takeUp]
  exact (foldl_hom PackageRow.overlay fun r a => (add_overlay r a).symm).symm

theorem take_up_health {as : List Arrival} (releases : ∀ a ∈ as, a.standing = .release)
    (r : PackageRow) : (r.takeUp lowering as).health =
      select (worseThan lowering) r.health (as.map healthOf) := by
  induction as generalizing r with
  | nil => rfl
  | cons a rest ih =>
    have later := ih (fun b member => releases b (mem_cons_of_mem a member)) (r.add lowering a)
    rw [add_health r (releases a mem_cons_self)] at later
    exact later

theorem default_congr {q r : PackageRow} (same : q.health = r.health) :
    q.defaultHealth.health = r.defaultHealth.health := by
  simp only [PackageRow.defaultHealth, same]

theorem add_silent (r : PackageRow) {a : Arrival} (silent : healthOf a = "") :
    (r.add lowering a).defaultHealth.health = r.defaultHealth.health := by
  have base : ((r.addContribution lowering a.contribution).mergeOverlay a.overlay).health = r.health := by
    have merged : ((r.addContribution lowering a.contribution).mergeOverlay a.overlay).health =
      worseHealth lowering r.health (healthOf a) := rfl
    rw [merged, silent, worse_absent]
  unfold PackageRow.add
  cases a.standing with
  | release => exact default_congr base
  | synthesized =>
    simp only [default_idem]
    exact default_congr base
  | group name =>
    simp only [default_idem]
    exact default_congr base

/-- CRDs have no opinion of the health, and no version and no overlay. -/
theorem landed_quiet (r : PackageRow) (released : List Key) (cs : List CRD) (k : Key) :
    (r.takeUp lowering (landed released cs k)).defaultHealth.health = r.defaultHealth.health ∧
      (r.takeUp lowering (landed released cs k)).version = r.version ∧
      (r.takeUp lowering (landed released cs k)).overlay = r.overlay := by
  induction cs using reverseRecOn with
  | nil => exact ⟨rfl, rfl, rfl⟩
  | append_singleton cs c ih =>
    rw [landed_concat, take_up_append]
    obtain ⟨health, version, overlay⟩ := ih
    by_cases lands : lands released c k = true
    · rw [if_pos lands]
      refine ⟨(add_silent _ rfl).trans health, ?_, ?_⟩
      · refine (add_version _ _).trans ?_
        simpa [laterText, versionOf, crdArrival, normalizeContribution] using version
      · refine (add_overlay _ _).trans ?_
        simpa [outranks, crdArrival] using overlay
    · rw [if_neg lands]
      exact ⟨health, version, overlay⟩

end TakeUp

section Stages
variable {lowering} {α : Type} {better : α → α → Bool} {absent : α}

/-- Inputs of other keys, and those that make no contribution, leave the loop where it is. -/
theorem select_brings (never : ∀ held, better absent held = false) (field : Arrival → α) (k : Key)
    (held : α) (list : List (Option Arrival)) :
    select better held (((list.filterMap id).filter fun a => decide (a.key = k)).map field) =
      select better held (list.map (brings field absent k)) := by
  induction list generalizing held with
  | nil => rfl
  | cons input rest ih =>
    have skip : ∀ x, select better held (x :: rest.map (brings field absent k)) =
        select better (if better x held then x else held) (rest.map (brings field absent k)) :=
      fun x => rfl
    rw [map_cons, skip, ← ih]
    cases input with
    | none => simp [brings, never]
    | some a =>
      by_cases own : a.key = k
      · simp [brings, own, Option.filter, select]
      · simp [brings, own, Option.filter, never]

theorem arrivals_inputs (s : Sources) : arrivals lowering s = (inputs lowering s).flatten.filterMap id := by
  simp [arrivals, inputs, filterMap_map]

theorem stages_flatten (field : Arrival → α) (k : Key) (s : Sources) :
    (stages lowering field absent k s).flatten =
      (inputs lowering s).flatten.map (brings field absent k) := by
  rw [stages, map_flatten]

theorem select_stages (never : ∀ held, better absent held = false) (field : Arrival → α) (k : Key)
    (s : Sources) :
    select better absent (((arrivals lowering s).filter fun a => decide (a.key = k)).map field) =
      select better absent (stages lowering field absent k s).flatten := by
  rw [arrivals_inputs, stages_flatten, select_brings never]

theorem arrivals_release {s : Sources} {a : Arrival} (arrived : a ∈ arrivals lowering s) :
    a.standing = .release := by
  simp only [arrivals, mem_append, mem_filterMap] at arrived
  rcases arrived with (⟨h, _, made⟩ | ⟨w, _, made⟩) | ⟨d, _, made⟩
  · unfold helmArrival at made
    grind
  · unfold workloadArrival at made
    grind
  · unfold declarationArrival at made
    grind

end Stages

/-- The view of the row of a key. -/
def viewOf (s : Sources) (k : Key) : RowView where
  key := k
  sources := ((newRow k).takeUp lowering (members lowering s k)).sources
  version := select laterText "" (stages lowering versionOf "" k s).flatten
  health := let worst := select (worseThan lowering) "" (stages lowering healthOf "" k s).flatten
    if worst = "" then "unknown" else worst
  overlay := select outranks none (stages lowering Arrival.overlay none k s).flatten

theorem view_row {s : Sources} {r : PackageRow} (row : r ∈ aggregate lowering s) :
    r.view = viewOf lowering s r.key := by
  have made := (aggregate_rows lowering s).made r row
  have releases : ∀ a ∈ (arrivals lowering s).filter (fun a => decide (a.key = r.key)),
      a.standing = .release := fun a inside => arrivals_release (mem_of_mem_filter inside)
  obtain ⟨health, version, overlay⟩ := @landed_quiet lowering
    ((newRow r.key).takeUp lowering ((arrivals lowering s).filter fun a => decide (a.key = r.key)))
    (releasedKeys lowering s) s.crds r.key
  rw [members, take_up_append] at made
  rw [PackageRow.view, viewOf, RowView.mk.injEq]
  refine ⟨rfl, ?_, ?_, ?_, ?_⟩
  · rw [members, take_up_append]
    exact (congrArg PackageRow.sources made).trans rfl
  · have kept := (congrArg PackageRow.version made).trans (Eq.trans rfl version)
    have absent : ∀ held, laterText "" held = false := fun held => by simp [laterText]
    rw [kept, take_up_version]
    exact select_stages absent versionOf r.key s
  · have kept := (congrArg PackageRow.health made).trans health
    have absent : ∀ held, worseThan lowering "" held = false := by
      intro held
      exact (ranks_not (health_ranks lowering) _ _).mpr (health_worst lowering held)
    rw [kept, PackageRow.defaultHealth, take_up_health releases]
    have same := @select_stages lowering _ _ _ absent healthOf r.key s
    exact congrArg (fun worst => if worst = "" then "unknown" else worst) same
  · have kept := (congrArg PackageRow.overlay made).trans (Eq.trans rfl overlay)
    have absent : ∀ held, outranks none held = false := fun held => rfl
    rw [kept, take_up_overlay]
    exact select_stages absent Arrival.overlay r.key s

section Order

structure Canonical (sources : List SourceCode) : Prop where
  ordered : sources.Pairwise fun a b => sourceRank a ≤ sourceRank b
  distinct : sources.Nodup

theorem source_ranks : Ranks (fun a b => decide (sourceRank a < sourceRank b)) sourceRank := by
  intro a b
  simp

theorem source_rank_inj {a b : SourceCode} (same : sourceRank a = sourceRank b) : a = b := by
  cases a <;> cases b <;> first | rfl | exact absurd same (by decide)

theorem mem_add_source (sources : List SourceCode) (x y : SourceCode) :
    y ∈ addSource sources x ↔ y ∈ sources ∨ y = x := by
  unfold addSource
  split
  next held => exact ⟨Or.inl, fun either => either.elim id fun same => same ▸ held⟩
  next =>
    rw [sortSources, (Arrange.sort_perm _ _).mem_iff, mem_append, mem_singleton]

theorem canonical_add {sources : List SourceCode} (canonical : Canonical sources) (x : SourceCode) :
    Canonical (addSource sources x) := by
  unfold addSource
  split
  next => exact canonical
  next fresh =>
    refine ⟨Arrange.sort_ordered source_ranks _, ?_⟩
    rw [sortSources, (Arrange.sort_perm _ _).nodup_iff, nodup_append]
    refine ⟨canonical.distinct, nodup_singleton x, fun y held z single same => ?_⟩
    rw [mem_singleton] at single
    exact fresh (single ▸ same ▸ held)

theorem canonical_unique {first second : List SourceCode} (canonical : Canonical first)
    (canonical' : Canonical second) (alike : ∀ x, x ∈ first ↔ x ∈ second) : first = second := by
  have perm := (perm_ext_iff_of_nodup canonical.distinct canonical'.distinct).mpr alike
  apply List.Perm.eq_of_pairwise _ canonical.ordered canonical'.ordered perm
  intro a b _ _ le le'
  exact source_rank_inj (Nat.le_antisymm le le')

variable {lowering}

theorem add_sources (r : PackageRow) (a : Arrival) :
    (r.add lowering a).sources = addSource r.sources a.contribution.source := by
  have normal : (normalizeContribution a.contribution).source = a.contribution.source := by
    unfold normalizeContribution
    split <;> rfl
  rw [← normal]
  unfold PackageRow.add
  cases a.standing <;> rfl

/-- A row's sources are those of what it has taken up. -/
theorem take_up_sources (k : Key) (as : List Arrival) : Canonical ((newRow k).takeUp lowering as).sources ∧
      ∀ x, x ∈ ((newRow k).takeUp lowering as).sources ↔ ∃ a ∈ as, a.contribution.source = x := by
  induction as using reverseRecOn with
  | nil => exact ⟨⟨List.Pairwise.nil, nodup_nil⟩, fun x => by simp [PackageRow.takeUp, newRow]⟩
  | append_singleton as a ih =>
    obtain ⟨canonical, held⟩ := ih
    have last : (newRow k).takeUp lowering (as ++ [a]) =
        ((newRow k).takeUp lowering as).add lowering a := by
      rw [take_up_append]
      rfl
    rw [last, add_sources]
    refine ⟨canonical_add canonical _, fun x => ?_⟩
    rw [mem_add_source, held]
    simp only [mem_append, mem_singleton, or_and_right, exists_or, exists_eq_left]
    rw [eq_comm]

end Order

section Permute
variable {lowering} {s s' : Sources}

theorem arrivals_perm (permuted : Permuted s' s) : (arrivals lowering s').Perm (arrivals lowering s) :=
  ((permuted.helm.filterMap _).append (permuted.workloads.filterMap _)).append
    (permuted.declarations.filterMap _)

theorem lands_congr {released released' : List Key} (alike : ∀ k, k ∈ released ↔ k ∈ released')
    (c : CRD) (k : Key) : lands released c k = lands released' c k := by
  have any : ∀ chart, (released.any fun k => k.chart == chart) =
      released'.any fun k => k.chart == chart := by
    intro chart
    rw [Bool.eq_iff_iff, any_eq_true, any_eq_true]
    simp only [alike]
  have contains : released.contains k = released'.contains k := by
    rw [Bool.eq_iff_iff, contains_iff_mem, contains_iff_mem]
    exact alike k
  simp only [lands, any, contains]

/-- Which contributions and CRDs belong to a row is no matter of order. -/
theorem members_perm (permuted : Permuted s' s) (k : Key) :
    (members lowering s' k).Perm (members lowering s k) := by
  have perm := @arrivals_perm lowering _ _ permuted
  have alike : ∀ k, k ∈ releasedKeys lowering s' ↔ k ∈ releasedKeys lowering s :=
    fun k => (perm.map Arrival.key).mem_iff
  refine (perm.filter _).append ?_
  unfold landed
  rw [funext fun c => lands_congr alike c k]
  exact (permuted.crds.filter _).map _

end Permute

section Keys

def keyRank (k : Key) : String ×ₗ String ×ₗ String := toLex (k.chart, toLex (k.namespace_, k.releaseName))

theorem row_ranks : Ranks rowLess fun r => keyRank r.key := by
  intro a b
  simp only [rowLess, keyRank, PackageRow.key, Prod.Lex.toLex_lt_toLex]
  by_cases chart : a.chart = b.chart
  · by_cases namespace_ : a.namespace_ = b.namespace_
    · simp [chart, namespace_]
    · simp [chart, namespace_]
  · simp [chart]

theorem key_rank_inj {k k' : Key} (same : keyRank k = keyRank k') : k = k' := by
  obtain ⟨chart, namespace_, releaseName⟩ := k
  obtain ⟨chart', namespace_', releaseName'⟩ := k'
  simp only [keyRank, EmbeddingLike.apply_eq_iff_eq, Prod.mk.injEq] at same
  obtain ⟨rfl, rfl, rfl⟩ := same
  rfl

variable {lowering} {s s' : Sources}

/-- The rows' keys are those with members, in order. -/
theorem keys_permuted (permuted : Permuted s' s) :
    (aggregate lowering s').map PackageRow.key = (aggregate lowering s).map PackageRow.key := by
  have ordered : ∀ s, ((aggregate lowering s).map PackageRow.key).Pairwise
      fun a b => keyRank a ≤ keyRank b := by
    intro s
    rw [pairwise_map]
    exact Arrange.sort_ordered row_ranks _
  have rows := aggregate_rows lowering s
  have rows' := aggregate_rows lowering s'
  have perm : ((aggregate lowering s').map PackageRow.key).Perm
      ((aggregate lowering s).map PackageRow.key) := by
    rw [perm_ext_iff_of_nodup rows'.distinct rows.distinct]
    intro k
    rw [rows'.keys, rows.keys, ne_eq, ne_eq, ← length_eq_zero_iff,
      (members_perm permuted k).length_eq, length_eq_zero_iff]
  apply List.Perm.eq_of_pairwise _ (ordered s') (ordered s) perm
  intro a b _ _ le le'
  exact key_rank_inj (le_antisymm le le')

theorem views (s : Sources) : (aggregate lowering s).map PackageRow.view =
    ((aggregate lowering s).map PackageRow.key).map (viewOf lowering s) := by
  rw [map_map]
  exact map_congr_left fun r row => view_row lowering row

theorem sources_permuted (permuted : Permuted s' s) (k : Key) :
    (viewOf lowering s' k).sources = (viewOf lowering s k).sources := by
  obtain ⟨canonical, held⟩ := @take_up_sources lowering k (members lowering s k)
  obtain ⟨canonical', held'⟩ := @take_up_sources lowering k (members lowering s' k)
  apply canonical_unique canonical' canonical
  intro x
  rw [held, held']
  simp only [(members_perm permuted k).mem_iff]

/-- Every order of the lists of inputs is that of some inputs. -/
theorem reordered_lift {α : Type} (field : Arrival → α) (absent : α) (k : Key)
    {other : List (List α)} (reordered : Reordered other (stages lowering field absent k s)) :
    ∃ s', Permuted s' s ∧ stages lowering field absent k s' = other := by
  have three : ∃ hs ws ds, other = [hs, ws, ds] ∧
      hs.Perm (s.helm.map (brings field absent k ∘ helmArrival)) ∧
      ws.Perm (s.workloads.map (brings field absent k ∘ workloadArrival)) ∧
      ds.Perm (s.gitOpsDeclarations.map (brings field absent k ∘ declarationArrival lowering)) := by
    simp only [stages, inputs, map_cons, map_nil, map_map] at reordered
    cases reordered with
    | cons first rest =>
      cases rest with
      | cons second rest =>
        cases rest with
        | cons third rest =>
          cases rest with
          | nil => exact ⟨_, _, _, rfl, first, second, third⟩
  obtain ⟨_, _, _, rfl, first, second, third⟩ := three
  obtain ⟨helm, helmPerm, rfl⟩ := perm_map_lift _ first
  obtain ⟨workloads, workloadPerm, rfl⟩ := perm_map_lift _ second
  obtain ⟨declarations, declarationPerm, rfl⟩ := perm_map_lift _ third
  refine ⟨⟨helm, workloads, s.crds, declarations⟩,
    ⟨helmPerm, workloadPerm, List.Perm.refl _, declarationPerm⟩, ?_⟩
  simp [stages, inputs]

end Keys

/-- For the row of every key, the first of the lists that holds a version, a worst health or a lowest
    tier for it holds one only. -/
def TiesAgree (s : Sources) : Prop := ∀ k, Settled laterText (stages lowering versionOf "" k s) ∧
    Settled (worseThan lowering) (stages lowering healthOf "" k s) ∧
    Settled outranks (stages lowering Arrival.overlay none k s)

section Law
variable {lowering} {s s' : Sources}

theorem reordered_stages {α : Type} (field : Arrival → α) (absent : α) (k : Key)
    (permuted : Permuted s' s) :
    Reordered (stages lowering field absent k s') (stages lowering field absent k s) :=
  .cons ((permuted.helm.map _).map _) (.cons ((permuted.workloads.map _).map _)
    (.cons ((permuted.declarations.map _).map _) .nil))

/-- A field that its stages settle, seen over the orders of the inputs. -/
theorem field_free_iff {α κ : Type} [LinearOrder κ] {better : α → α → Bool} {key : α → κ}
    (ranks : Ranks better key) {absent : α} (worst : ∀ x, key x ≤ key absent)
    (only : ∀ x, key x = key absent → x = absent) (field : Arrival → α) (k : Key) :
    (∀ s', Permuted s' s → select better absent (stages lowering field absent k s').flatten =
      select better absent (stages lowering field absent k s).flatten) ↔
      Settled better (stages lowering field absent k s) := by
  rw [← staged_free_iff ranks worst only]
  constructor
  · intro free other reordered
    obtain ⟨s', permuted, rfl⟩ := reordered_lift field absent k reordered
    exact free s' permuted
  · intro free s' permuted
    exact free _ (reordered_stages field absent k permuted)

/-- Nothing has come for a key that is no row's. -/
theorem select_unkeyed {α : Type} {better : α → α → Bool} {absent : α}
    (never : ∀ held, better absent held = false) (field : Arrival → α) {k : Key}
    (unkeyed : members lowering s k = []) :
    select better absent (stages lowering field absent k s).flatten = absent := by
  rw [members, append_eq_nil_iff] at unkeyed
  rw [← select_stages never, unkeyed.1]
  rfl

theorem views_eq_iff (permuted : Permuted s' s) :
    (aggregate lowering s').map PackageRow.view = (aggregate lowering s).map PackageRow.view ↔
      ∀ k, members lowering s k ≠ [] → viewOf lowering s' k = viewOf lowering s k := by
  rw [views, views, keys_permuted permuted, map_inj_left]
  simp only [(aggregate_rows lowering s).keys]

theorem view_eq_iff (permuted : Permuted s' s) (k : Key) : viewOf lowering s' k = viewOf lowering s k ↔
      select laterText "" (stages lowering versionOf "" k s').flatten =
          select laterText "" (stages lowering versionOf "" k s).flatten ∧
        select (worseThan lowering) "" (stages lowering healthOf "" k s').flatten =
          select (worseThan lowering) "" (stages lowering healthOf "" k s).flatten ∧
        select outranks none (stages lowering Arrival.overlay none k s').flatten =
          select outranks none (stages lowering Arrival.overlay none k s).flatten := by
  have sources := @sources_permuted lowering _ _ permuted k
  have level := select_key_perm (health_ranks lowering) ""
    (flatten_perm (@reordered_stages lowering _ _ _ healthOf "" k permuted))
  have health : ∀ {x y : Health}, healthKey lowering x = healthKey lowering y →
      ((if x = "" then "unknown" else x) = (if y = "" then "unknown" else y) ↔ x = y) := by
    intro x y same
    by_cases empty : x = ""
    · subst empty
      rw [health_only lowering same.symm]
      exact iff_of_true rfl rfl
    · have some_ : y ≠ "" := fun none_ => empty (health_only lowering (none_ ▸ same))
      rw [if_neg empty, if_neg some_]
  rw [← health level]
  simp only [viewOf] at sources ⊢
  rw [RowView.mk.injEq]
  exact ⟨fun same => same.2.2, fun same => ⟨rfl, sources, same⟩⟩

theorem absent_text (held : String) : laterText "" held = false :=
  (ranks_not text_ranks _ _).mpr (text_worst held)

theorem absent_health (held : Health) : worseThan lowering "" held = false :=
  (ranks_not (health_ranks lowering) _ _).mpr (health_worst lowering held)

theorem absent_overlay (held : Option Overlay) : outranks none held = false := rfl

end Law

/-- Every contribution is in the one row of its key, and every row is made of contributions; the rows'
    keys and sources do not depend on the order of the inputs, and the rest of them exactly in so far
    as the ties do. -/
theorem aggregate_order (s : Sources) : Rows lowering s (aggregate lowering s) ∧
    (∀ s', Permuted s' s → (aggregate lowering s').map (fun r => (r.key, r.sources)) =
      (aggregate lowering s).map fun r => (r.key, r.sources)) ∧
    ((∀ s', Permuted s' s → (aggregate lowering s').map PackageRow.view =
      (aggregate lowering s).map PackageRow.view) ↔ TiesAgree lowering s) := by
  refine ⟨aggregate_rows lowering s, fun s' permuted => ?_, ?_⟩
  · have seen : ∀ s, (aggregate lowering s).map (fun r => (r.key, r.sources)) =
        ((aggregate lowering s).map PackageRow.key).map
          fun k => (k, (viewOf lowering s k).sources) := by
      intro s
      rw [List.map_map]
      exact List.map_congr_left fun r row =>
        congrArg (fun v => (r.key, RowView.sources v)) (view_row lowering row)
    rw [seen, seen, keys_permuted permuted]
    exact List.map_congr_left fun k _ => by rw [sources_permuted permuted]
  · have version := fun k => @field_free_iff lowering s _ _ _ _ _ text_ranks _ text_worst
      (fun _ => text_only) versionOf k
    have health := fun k => @field_free_iff lowering s _ _ _ _ _ (health_ranks lowering) _
      (health_worst lowering) (fun _ => health_only lowering) healthOf k
    have overlay := fun k => @field_free_iff lowering s _ _ _ _ _ overlay_ranks _ (fun _ => le_top)
      (fun _ => overlay_only) Arrival.overlay k
    constructor
    · intro free k
      have equal : ∀ s', Permuted s' s → viewOf lowering s' k = viewOf lowering s k := by
        intro s' permuted
        by_cases unkeyed : members lowering s k = []
        · have unkeyed' : members lowering s' k = [] := by
            rw [← List.length_eq_zero_iff, (members_perm permuted k).length_eq, unkeyed]
            rfl
          rw [view_eq_iff permuted, select_unkeyed absent_text versionOf unkeyed,
            select_unkeyed absent_text versionOf unkeyed', select_unkeyed absent_health healthOf unkeyed,
            select_unkeyed absent_health healthOf unkeyed',
            select_unkeyed absent_overlay Arrival.overlay unkeyed,
            select_unkeyed absent_overlay Arrival.overlay unkeyed']
          exact ⟨rfl, rfl, rfl⟩
        · exact (views_eq_iff permuted).mp (free s' permuted) k unkeyed
      have fields := fun s' permuted => (view_eq_iff permuted k).mp (equal s' permuted)
      exact ⟨(version k).mp fun s' permuted => (fields s' permuted).1,
        (health k).mp fun s' permuted => (fields s' permuted).2.1,
        (overlay k).mp fun s' permuted => (fields s' permuted).2.2⟩
    · intro agree s' permuted
      refine (views_eq_iff permuted).mpr fun k _ => (view_eq_iff permuted k).mpr ?_
      exact ⟨(version k).mpr (agree k).1 s' permuted, (health k).mpr (agree k).2.1 s' permuted,
        (overlay k).mpr (agree k).2.2 s' permuted⟩

/-- A workload of the release web, in the middle of an upgrade. -/
def webWorkload (label : String) : Workload where
  namespace_ := "shop"
  labels := fun key => if key = "helm.sh/chart" then label else ""
  annotations := fun key => if key = "meta.helm.sh/release-name" then "web" else ""
  health := "healthy"
  overlay := none

def webSources (labels : List String) : Sources := ⟨[], labels.map webWorkload, [], []⟩

/-- The version of the first workload listed is the row's. -/
theorem upgrade_order_shows :
    Permuted (webSources ["web-1.1.0", "web-1.0.0"]) (webSources ["web-1.0.0", "web-1.1.0"]) ∧
    (aggregate asciiLowering (webSources ["web-1.0.0", "web-1.1.0"])).map PackageRow.version = ["1.0.0"] ∧
    (aggregate asciiLowering (webSources ["web-1.1.0", "web-1.0.0"])).map PackageRow.version =
      ["1.1.0"] := by
  refine ⟨⟨.refl _, .swap _ _ _, .refl _, .refl _⟩, ?_, ?_⟩
  · decide
  · decide

end Packages
