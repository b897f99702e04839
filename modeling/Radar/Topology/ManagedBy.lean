import Radar.Topology.ResourceRelations

/- pkg/topology/managedby.go beside pkg/subject/overlay.go: the two ladders that read a manager off the
   labels and annotations of a resource. -/
namespace ManagedBy
open Topology NodeRef ResourceRelations Overlay List
variable {obj : ObjectMeta} {s : Signal} {tier : Tier}

/-- The tiers whose signals GitOps and Helm leave in the metadata. -/
def metadataTiers : List Tier :=
  [.fluxHelmRelease, .fluxKustomize, .argoTrackingID, .argoInstance, .helmRelease]

def metaRef (r : ResourceRef) : Ref := ⟨r.kind, r.group, r.namespace_, r.name⟩

theorem ref_injective {r r' : ResourceRef} (same : metaRef r = metaRef r') : r = r' := by
  obtain ⟨kind, namespace_, name, group⟩ := r
  obtain ⟨kind', namespace_', name', group'⟩ := r'
  simp only [metaRef, Ref.mk.injEq] at same
  obtain ⟨rfl, rfl, rfl, rfl⟩ := same
  rfl

/-- What the metadata say at one tier. -/
def manager (obj : ObjectMeta) : Tier → Option ResourceRef
  | .fluxHelmRelease => fluxManager "HelmRelease" "helm.toolkit.fluxcd.io"
      (obj.labels "helm.toolkit.fluxcd.io/name") (obj.labels "helm.toolkit.fluxcd.io/namespace")
  | .fluxKustomize => fluxManager "Kustomization" "kustomize.toolkit.fluxcd.io"
      (obj.labels "kustomize.toolkit.fluxcd.io/name")
      (obj.labels "kustomize.toolkit.fluxcd.io/namespace")
  | .argoTrackingID =>
      (parseArgoTrackingID (obj.annotations "argocd.argoproj.io/tracking-id")).map fun app =>
        ⟨"Application", app.1, app.2, "argoproj.io"⟩
  | .argoInstance =>
      let n := obj.labels "argocd.argoproj.io/instance"
      if n ≠ "" then some ⟨"Application", "", n, "argoproj.io"⟩ else none
  | .helmRelease =>
      let n := obj.annotations "meta.helm.sh/release-name"
      if n ≠ "" then some ⟨"HelmRelease", obj.annotations "meta.helm.sh/release-namespace", n, ""⟩
      else none
  | _ => none

/-- The first of the ladder's rungs is what the detector returns. -/
theorem detect_ladder (obj : ObjectMeta) :
    detectManagedByFromMeta obj = metadataTiers.findSome? (manager obj) := by
  simp only [detectManagedByFromMeta, metadataTiers, findSome?_cons, findSome?_nil, manager]
  cases fluxManager "HelmRelease" "helm.toolkit.fluxcd.io"
    (obj.labels "helm.toolkit.fluxcd.io/name") (obj.labels "helm.toolkit.fluxcd.io/namespace") with
  | some r => rfl
  | none =>
    cases fluxManager "Kustomization" "kustomize.toolkit.fluxcd.io"
      (obj.labels "kustomize.toolkit.fluxcd.io/name")
      (obj.labels "kustomize.toolkit.fluxcd.io/namespace") with
    | some r => rfl
    | none =>
      cases parseArgoTrackingID (obj.annotations "argocd.argoproj.io/tracking-id") with
      | some app => rfl
      | none =>
        by_cases instance_ : obj.labels "argocd.argoproj.io/instance" = ""
        · by_cases release : obj.annotations "meta.helm.sh/release-name" = ""
          · simp [instance_, release]
          · simp [instance_, release]
        · simp [instance_]

/-- What the overlay reads at one tier. -/
def rung (obj : ObjectMeta) : Tier → List Signal
  | .fluxHelmRelease => fluxSignal .fluxHelmRelease "HelmRelease" "helm.toolkit.fluxcd.io"
      (obj.labels "helm.toolkit.fluxcd.io/name") (obj.labels "helm.toolkit.fluxcd.io/namespace")
  | .fluxKustomize => fluxSignal .fluxKustomize "Kustomization" "kustomize.toolkit.fluxcd.io"
      (obj.labels "kustomize.toolkit.fluxcd.io/name")
      (obj.labels "kustomize.toolkit.fluxcd.io/namespace")
  | .argoTrackingID => match parseArgoTrackingID (obj.annotations "argocd.argoproj.io/tracking-id") with
      | none => []
      | some (argoNS, argoName) => [applicationSignal .argoTrackingID argoNS argoName]
  | .argoInstance =>
      let n := obj.labels "argocd.argoproj.io/instance"
      if n ≠ "" then [applicationSignal .argoInstance "" n] else []
  | .helmRelease =>
      let n := obj.annotations "meta.helm.sh/release-name"
      let ns := obj.annotations "meta.helm.sh/release-namespace"
      if n ≠ "" then [signal .helmRelease (ns ++ "/HelmRelease/" ++ n) "HelmRelease" "" ns n] else []
  | .instance_ => appSignal .instance_ obj.namespace_ (obj.labels "app.kubernetes.io/instance")
  | .partOf => appSignal .partOf obj.namespace_ (obj.labels "app.kubernetes.io/part-of")
  | .appName => appSignal .appName obj.namespace_ (obj.labels "app.kubernetes.io/name")
  | .bareApp => appSignal .bareApp obj.namespace_ (obj.labels "app")

/-- The overlay reads Helm before the Argo instance label, and sorts afterwards. -/
theorem signals_rungs (obj : ObjectMeta) : signals obj =
    [Tier.fluxHelmRelease, .fluxKustomize, .argoTrackingID, .helmRelease, .argoInstance, .instance_,
      .partOf, .appName, .bareApp].flatMap (rung obj) := by
  simp only [signals, flatMap_cons, flatMap_nil, append_nil, append_assoc]
  rfl

theorem flux_tier {kind group name namespace_ : String}
    (member : s ∈ fluxSignal tier kind group name namespace_) : s.tier = tier := by
  unfold fluxSignal at member
  split at member
  next => rw [mem_singleton.mp member]; rfl
  next => exact absurd member not_mem_nil

theorem app_tier {namespace_ name : String}
    (member : s ∈ appSignal tier namespace_ name) : s.tier = tier := by
  unfold appSignal at member
  split at member
  next => rw [mem_singleton.mp member]; rfl
  next => exact absurd member not_mem_nil

theorem rung_tier (member : s ∈ rung obj tier) : s.tier = tier := by
  cases tier with
  | fluxHelmRelease | fluxKustomize => exact flux_tier member
  | argoTrackingID =>
    simp only [rung] at member
    split at member
    next => exact absurd member not_mem_nil
    next => rw [mem_singleton.mp member]; rfl
  | argoInstance | helmRelease =>
    simp only [rung] at member
    split at member
    next => rw [mem_singleton.mp member]; rfl
    next => exact absurd member not_mem_nil
  | instance_ | partOf | appName | bareApp => exact app_tier member

theorem flux_manager (tier : Tier) (kind group name namespace_ : String) :
    (fluxSignal tier kind group name namespace_).map Signal.ref =
      (fluxManager kind group name namespace_).toList.map metaRef := by
  unfold fluxSignal fluxManager
  split
  next => rfl
  next => rfl

/-- Rung by rung the two name the same manager. -/
theorem rung_manager (obj : ObjectMeta) (low : tier ∈ metadataTiers) :
    (rung obj tier).map Signal.ref = (manager obj tier).toList.map metaRef := by
  cases tier with
  | fluxHelmRelease | fluxKustomize => exact flux_manager _ _ _ _ _
  | argoTrackingID =>
    simp only [rung, manager]
    cases parseArgoTrackingID (obj.annotations "argocd.argoproj.io/tracking-id") with
    | none => rfl
    | some app => rfl
  | argoInstance | helmRelease =>
    simp only [rung, manager]
    split
    next => rfl
    next => rfl
  | instance_ | partOf | appName | bareApp => exact absurd low (by decide)

theorem mem_rung : s ∈ signals obj ↔ s ∈ rung obj s.tier := by
  rw [signals_rungs, mem_flatMap]
  constructor
  · rintro ⟨tier, _, member⟩
    rw [rung_tier member]
    exact member
  · intro member
    refine ⟨s.tier, ?_, member⟩
    cases s.tier <;> decide

theorem signal_read (present : s ∈ signals obj)
    (low : s.tier ∈ metadataTiers) : ∃ r, manager obj s.tier = some r ∧ s.ref = metaRef r := by
  have named : s.ref ∈ (rung obj s.tier).map Signal.ref := mem_map_of_mem (mem_rung.mp present)
  rw [rung_manager obj low, mem_map] at named
  obtain ⟨r, read, same⟩ := named
  exact ⟨r, Option.mem_toList.mp read, same.symm⟩

theorem manager_signal (low : tier ∈ metadataTiers)
    {r : ResourceRef} (read : manager obj tier = some r) : ∃ s ∈ signals obj, s.tier = tier := by
  have named : metaRef r ∈ (rung obj tier).map Signal.ref := by
    rw [rung_manager obj low, read]
    exact mem_singleton_self _
  obtain ⟨s, member, _⟩ := mem_map.mp named
  have same := rung_tier member
  exact ⟨s, mem_rung.mpr (same ▸ member), same⟩

/-- The winner is a signal of the lowest tier there is. -/
theorem winner_least {bare : Bool} {o : AppOverlay} (resolved : resolveOverlay obj bare = some o) :
    o.winner ∈ signals obj ∧ ∀ s ∈ signals obj, o.winner.tier.rank ≤ s.tier.rank := by
  have sorted : ((signals obj).mergeSort fun a b => decide (a.tier.rank ≤ b.tier.rank)).Pairwise
      fun a b => decide (a.tier.rank ≤ b.tier.rank) = true := by
    apply pairwise_mergeSort
    · intro a b c first second
      simp only [decide_eq_true_eq] at first second ⊢
      exact first.trans second
    · intro a b
      simp only [Bool.or_eq_true, decide_eq_true_eq]
      exact Nat.le_total _ _
  have member : ∀ s, s ∈ signals obj ↔
      s ∈ (signals obj).mergeSort fun a b => decide (a.tier.rank ≤ b.tier.rank) :=
    fun s => mem_mergeSort.symm
  unfold resolveOverlay at resolved
  split at resolved
  next => exact absurd resolved (by simp)
  next winner conflicts order =>
    split at resolved
    next => exact absurd resolved (by simp)
    next =>
      obtain rfl := Option.some.inj resolved
      rw [order] at member sorted
      refine ⟨(member _).mpr mem_cons_self, fun s read => ?_⟩
      rcases mem_cons.mp ((member s).mp read) with rfl | later
      · exact Nat.le_refl _
      · simpa using rel_of_pairwise_cons sorted later

theorem resolved_of_signal (bare : Bool) (read : s ∈ signals obj)
    (high : s.tier.rank ≤ 8) : ∃ o, resolveOverlay obj bare = some o := by
  have least := fun o => @winner_least obj true o
  cases order : (signals obj).mergeSort fun a b => decide (a.tier.rank ≤ b.tier.rank) with
  | nil =>
    have sorted : s ∈ (signals obj).mergeSort fun a b => decide (a.tier.rank ≤ b.tier.rank) :=
      mem_mergeSort.mpr read
    rw [order] at sorted
    exact absurd sorted not_mem_nil
  | cons winner conflicts =>
    have low : winner.tier.rank ≤ s.tier.rank := (least ⟨winner, conflicts⟩ (by
      simp only [resolveOverlay, order, Bool.true_eq_false, and_false, if_false])).2 s read
    refine ⟨⟨winner, conflicts⟩, ?_⟩
    simp only [resolveOverlay, order]
    rw [if_neg (by omega)]

theorem metadata_rank (tier : Tier) : tier ∈ metadataTiers ↔ tier.rank ≤ 5 := by
  cases tier <;> decide

theorem rank_injective {tier tier' : Tier} (same : tier.rank = tier'.rank) : tier = tier' := by
  cases tier <;> cases tier' <;> first | rfl | exact absurd same (by decide)

theorem tiers_ascend : metadataTiers.Pairwise fun a b => a.rank < b.rank := by decide

/-- A ladder's first hit is the hit of the lowest rung. -/
theorem ladder_lowest (obj : ObjectMeta) (r : ResourceRef) :
    metadataTiers.findSome? (manager obj) = some r ↔ ∃ tier ∈ metadataTiers, manager obj tier = some r ∧
        ∀ earlier ∈ metadataTiers, earlier.rank < tier.rank → manager obj earlier = none := by
  have ascend := tiers_ascend
  rw [findSome?_eq_some_iff]
  constructor
  · rintro ⟨before, tier, after, split, hit, misses⟩
    refine ⟨tier, split ▸ mem_append_right _ mem_cons_self, hit, ?_⟩
    intro earlier low less
    rw [split] at ascend low
    rcases mem_append.mp low with passed | rest
    · exact misses earlier passed
    · have behind := (pairwise_append.mp ascend).2.1
      rcases mem_cons.mp rest with rfl | later
      · omega
      · have := rel_of_pairwise_cons behind later
        omega
  · rintro ⟨tier, low, hit, misses⟩
    obtain ⟨before, after, split⟩ := append_of_mem low
    refine ⟨before, tier, after, split, hit, fun earlier passed => ?_⟩
    apply misses earlier (split ▸ mem_append_left _ passed)
    rw [split] at ascend
    exact (pairwise_append.mp ascend).2.2 earlier passed tier mem_cons_self

/-- The detector and the overlay name one manager, or neither names any. -/
theorem managers_agree (obj : ObjectMeta) (allowBareApp : Bool) (r : ResourceRef) :
    detectManagedByFromMeta obj = some r ↔
      ∃ o, resolveOverlay obj allowBareApp = some o ∧ o.winner.tier ∈ metadataTiers ∧
        o.winner.ref = metaRef r := by
  rw [detect_ladder, ladder_lowest]
  constructor
  · rintro ⟨tier, low, read, misses⟩
    obtain ⟨s, present, rfl⟩ := manager_signal low read
    have rank := (metadata_rank s.tier).mp low
    obtain ⟨o, resolved⟩ := resolved_of_signal allowBareApp present (by omega)
    obtain ⟨won, least⟩ := winner_least resolved
    have below : o.winner.tier.rank ≤ s.tier.rank := least s present
    have metadata : o.winner.tier ∈ metadataTiers := (metadata_rank _).mpr (by omega)
    obtain ⟨r', named, same⟩ := signal_read won metadata
    have tier : o.winner.tier = s.tier := by
      apply rank_injective
      by_contra differ
      have missed := misses o.winner.tier metadata (by omega)
      rw [missed] at named
      exact absurd named (by simp)
    rw [tier, read] at named
    obtain rfl := Option.some.inj named
    exact ⟨o, resolved, metadata, same⟩
  · rintro ⟨o, resolved, metadata, same⟩
    obtain ⟨won, least⟩ := winner_least resolved
    obtain ⟨r', named, same'⟩ := signal_read won metadata
    obtain rfl := ref_injective (same.symm.trans same')
    refine ⟨o.winner.tier, metadata, named, fun earlier low less => ?_⟩
    cases hit : manager obj earlier with
    | none => rfl
    | some other =>
      obtain ⟨s, present, rfl⟩ := manager_signal low hit
      have := least s present
      omega

end ManagedBy
