import Mathlib.Data.List.Count
import Radar.ResourceContext.Build

/- pkg/resourcecontext/build.go: the references in a context may be read, its counts are of what may be
   read, and what may not be read leaves no trace in it but the omissions. -/
namespace ReadGate
open NodeRef ResourceRelations ContextBuild List
variable {select : Relationships → List ResourceRef}

section Order

def refKey (r : ContextRef) : String ×ₗ String ×ₗ String := toLex (r.kind, toLex (r.namespace_, r.name))

theorem ref_ranks : Selection.Ranks refLess refKey := by
  intro a b
  simp only [refLess, refKey, Prod.Lex.toLex_lt_toLex]
  by_cases kind : a.kind = b.kind
  · by_cases namespace_ : a.namespace_ = b.namespace_
    · simp [kind, namespace_]
    · simp [kind, namespace_]
  · simp [kind]

theorem use_ranks : Selection.Ranks useLess (refKey ∘ ReferenceUse.toRef) :=
  fun a b => ref_ranks a.toRef b.toRef

end Order

section Gates
variable {ac : Option CanRead} {r ref : ContextRef} {refs : List ContextRef} {path : String}

theorem filtered_readable (member : r ∈ (filterRefs ac refs path).1) : checkRef ac r = true :=
  (mem_filter.mp member).2

theorem gated_readable (found : (gateRef ac ref path).1 = some r) : checkRef ac r = true := by
  unfold gateRef at found
  split at found
  next readable =>
    cases found
    exact readable
  next => cases found

/-- Whether a related resource may be read. -/
def readable (ac : Option CanRead) (r : ResourceRef) : Bool := checkRef ac (toContextRef r)

/-- Unreadable references dropped before the sort change nothing after the check. -/
theorem filter_pruned (refs : List ResourceRef) :
    (filterRefs ac (toContextRefs (refs.filter (readable ac))) path).1 =
      (filterRefs ac (toContextRefs refs) path).1 := by
  simp only [filterRefs, toContextRefs]
  rw [Arrange.sort_filter ref_ranks, Arrange.sort_filter ref_ranks]
  congr 1
  simp only [filter_map, filter_filter]
  congr 1
  refine filter_congr fun r _ => ?_
  simp [readable]

end Gates

section Counts
variable (ac : Option CanRead)

def useReadable (use : ReferenceUse) : Bool := checkRef ac use.toRef

def podReadable (pod : BackendPod) : Bool := checkRef ac pod.toRef

def shorten (use : ReferenceUse) : ReferenceUse :=
  { use with paths := use.paths.take maxReferencedByPathsPerRef }

theorem take_snoc {α : Type} (limit : Nat) (xs : List α) (x : α) : (xs ++ [x]).take limit =
    if limit ≤ (xs.take limit).length then xs.take limit else xs.take limit ++ [x] := by
  rw [length_take]
  by_cases room : limit ≤ xs.length
  · rw [if_pos (by omega), take_append_of_le_length room]
  · rw [if_neg (by omega), take_of_length_le (by simp; omega), take_of_length_le (by omega)]

/-- The loop's state after so many readable uses. -/
def usesCounted (uses : List ReferenceUse) : Nat × List ReferenceUse :=
  (uses.length, (uses.map shorten).take maxReferencedByItems)

theorem visit_use (uses : List ReferenceUse) (use : ReferenceUse) : visitUse ac (usesCounted uses) use =
      usesCounted (uses ++ [use].filter (useReadable ac)) := by
  unfold visitUse usesCounted
  cases readable : checkRef ac use.toRef with
  | false => simp [useReadable, readable]
  | true =>
    have kept : [use].filter (useReadable ac) = [use] := by simp [useReadable, readable]
    simp only [kept, if_true, length_append, length_singleton, map_append,
      map_singleton, take_snoc, Prod.mk.injEq, true_and]
    by_cases room : maxReferencedByItems ≤ ((uses.map shorten).take maxReferencedByItems).length
    · rw [if_pos room, if_neg (Nat.not_lt.mpr room)]
    · rw [if_neg room, if_pos (Nat.lt_of_not_le room)]
      rfl

theorem visit_uses (uses more : List ReferenceUse) : more.foldl (visitUse ac) (usesCounted uses) =
      usesCounted (uses ++ more.filter (useReadable ac)) := by
  induction more generalizing uses with
  | nil => rw [filter_nil, append_nil]; rfl
  | cons use rest ih =>
    rw [foldl_cons, visit_use, ih, append_assoc, ← filter_append, singleton_append]

/-- What the pods come to with nothing withheld: the counts, and the first of either list. -/
def selectionOf (pods : List BackendPod) : PodSelectionSummary where
  total := pods.length
  ready := (pods.filter isPodReady).length
  notReady := (pods.filter fun pod => !isPodReady pod).length
  readyPods := ((pods.filter isPodReady).map BackendPod.toRef).take maxServicePodRefs
  notReadyPods := ((pods.filter fun pod => !isPodReady pod).map BackendPod.toRef).take maxServicePodRefs
  truncated := decide (maxServicePodRefs < (pods.filter isPodReady).length) ||
    decide (maxServicePodRefs < (pods.filter fun pod => !isPodReady pod).length)

/-- A bounded list at its bound is full before the next element, and cut after it. -/
theorem full_iff (limit : Nat) (xs : List BackendPod) :
    limit ≤ ((xs.map BackendPod.toRef).take limit).length ↔ limit < xs.length + 1 := by
  rw [length_take, length_map]
  omega

/-- What was cut before is cut still. -/
theorem cut_more (limit n : Nat) (other : Bool) :
    (decide (limit < n) || other || decide (limit < n + 1)) = (decide (limit < n + 1) || other) := by
  by_cases now : limit < n + 1
  · simp [now]
  · have before : ¬ limit < n := fun cut => now (Nat.lt_succ_of_lt cut)
    simp [now, before]

section Visit
variable {pod : BackendPod} (readable : checkRef ac pod.toRef = true) (sel : PodSelectionSummary)
include readable

theorem visit_ready (ready : isPodReady pod = true) : visitPod ac sel pod = { sel with
    total := sel.total + 1
    ready := sel.ready + 1
    readyPods := if maxServicePodRefs ≤ sel.readyPods.length then sel.readyPods
      else sel.readyPods ++ [pod.toRef]
    truncated := sel.truncated || decide (maxServicePodRefs ≤ sel.readyPods.length) } := by
  unfold visitPod
  rw [if_pos readable, if_pos ready]
  split
  next full => simp [full]
  next room => simp [room]

theorem visit_not_ready (ready : isPodReady pod = false) : visitPod ac sel pod = { sel with
    total := sel.total + 1
    notReady := sel.notReady + 1
    notReadyPods := if maxServicePodRefs ≤ sel.notReadyPods.length then sel.notReadyPods
      else sel.notReadyPods ++ [pod.toRef]
    truncated := sel.truncated || decide (maxServicePodRefs ≤ sel.notReadyPods.length) } := by
  unfold visitPod
  rw [if_pos readable, if_neg (by simp [ready])]
  split
  next full => simp [full]
  next room => simp [room]

end Visit

theorem visit_pod (pods : List BackendPod) (pod : BackendPod) : visitPod ac (selectionOf pods) pod =
      selectionOf (pods ++ [pod].filter (podReadable ac)) := by
  cases readable : checkRef ac pod.toRef with
  | false => simp [visitPod, podReadable, readable]
  | true =>
    have kept : [pod].filter (podReadable ac) = [pod] := by simp [podReadable, readable]
    rw [kept]
    cases ready : isPodReady pod with
    | true =>
      have mine : [pod].filter isPodReady = [pod] := by simp [ready]
      have other : [pod].filter (fun pod => !isPodReady pod) = [] := by simp [ready]
      rw [visit_ready ac readable _ ready]
      simp only [selectionOf, length_append, length_singleton, filter_append, mine, other,
        map_append, map_singleton, append_nil, take_snoc, full_iff, cut_more]
    | false =>
      have mine : [pod].filter (fun pod => !isPodReady pod) = [pod] := by simp [ready]
      have other : [pod].filter isPodReady = [] := by simp [ready]
      rw [visit_not_ready ac readable _ ready]
      simp only [selectionOf, length_append, length_singleton, filter_append, mine, other,
        map_append, map_singleton, append_nil, take_snoc, full_iff]
      rw [Bool.or_comm (decide (maxServicePodRefs < (pods.filter isPodReady).length)), cut_more,
        Bool.or_comm]

/-- The selection is that of the readable pods. -/
theorem select_readable (pods : List BackendPod) :
    selectPods ac pods = selectionOf (pods.filter (podReadable ac)) := by
  have all : ∀ seen more : List BackendPod, more.foldl (visitPod ac) (selectionOf seen) =
      selectionOf (seen ++ more.filter (podReadable ac)) := by
    intro seen more
    induction more generalizing seen with
    | nil => rw [filter_nil, append_nil]; rfl
    | cons pod rest ih =>
      rw [foldl_cons, visit_pod, ih, append_assoc, ← filter_append, singleton_append]
  exact all [] pods

end Counts

/-- The relationships without what may not be read. The owner and the node stay: of each the source is
    chosen before the check. -/
def pruneRelationships (ac : Option CanRead) (rel : Relationships) : Relationships := { rel with
    deployment := rel.deployment.filter (readable ac)
    children := rel.children.filter (readable ac)
    services := rel.services.filter (readable ac)
    ingresses := rel.ingresses.filter (readable ac)
    gateways := rel.gateways.filter (readable ac)
    routes := rel.routes.filter (readable ac)
    configRefs := rel.configRefs.filter (readable ac)
    consumers := rel.consumers.filter (readable ac)
    scalers := rel.scalers.filter (readable ac)
    scaleTarget := rel.scaleTarget.filter (readable ac)
    pdbs := rel.pdbs.filter (readable ac)
    networkPolicies := rel.networkPolicies.filter (readable ac)
    pods := rel.pods.filter (readable ac)
    serviceAccount := rel.serviceAccount.filter (readable ac)
    resourceClaims := rel.resourceClaims.filter (readable ac)
    managedBy := rel.managedBy.filter (readable ac) }

def workloadReadable (ac : Option CanRead) (kind group : String) (w : Workload) : Bool :=
  checkRef ac ⟨kind, group, w.namespace_, w.name⟩

def listedReadable (ac : Option CanRead) (pod : ListedPod) : Bool :=
  checkRef ac ⟨"Pod", "", pod.namespace_, pod.name⟩

def pruneProvider (ac : Option CanRead) (provider : Provider) : Provider := { provider with
    deployments := provider.deployments.filter (workloadReadable ac "Deployment" "apps")
    statefulSets := provider.statefulSets.filter (workloadReadable ac "StatefulSet" "apps")
    daemonSets := provider.daemonSets.filter (workloadReadable ac "DaemonSet" "apps")
    jobs := provider.jobs.filter (workloadReadable ac "Job" "batch")
    cronJobs := provider.cronJobs.filter (workloadReadable ac "CronJob" "batch")
    pods := provider.pods.filter (listedReadable ac) }

def pruneBackends (ac : Option CanRead) (lookup : ServiceBackendLookup) : ServiceBackendLookup :=
  fun namespace_ selector => (lookup namespace_ selector).map (List.filter (podReadable ac))

/-- The options of a cluster that holds only what may be read, with the relationships as given. -/
def pruneOptions {σ : Type} (opts : Options σ) (rel : Option Relationships) : Options σ := { opts with
    relationships := rel.map (pruneRelationships opts.accessChecker)
    provider := opts.provider.map (pruneProvider opts.accessChecker)
    serviceBackends := opts.serviceBackends.map (pruneBackends opts.accessChecker)
    appReferences := opts.appReferences.map
      (List.filter fun ref => checkRef opts.accessChecker ref.service) }

section Pruned
variable {ac : Option CanRead}

theorem related_pruned (rel : Option Relationships)
    (commutes : ∀ rel, select (pruneRelationships ac rel) = (select rel).filter (readable ac))
    (path : String) :
    (related ac (rel.map (pruneRelationships ac)) select path).1 = (related ac rel select path).1 := by
  cases rel with
  | none => rfl
  | some rel =>
    simp only [related, Option.map_some, Option.getD_some, commutes]
    exact filter_pruned (select rel)

theorem exposing_pruned (rel : Relationships) :
    exposing (pruneRelationships ac rel) = (exposing rel).filter (readable ac) := by
  simp only [exposing, pruneRelationships, filter_append]

theorem selecting_pruned (rel : Relationships) :
    selecting (pruneRelationships ac rel) = (selecting rel).filter (readable ac) := by
  simp only [selecting, pruneRelationships, filter_append]

theorem scalers_pruned (rel : Relationships) :
    (pruneRelationships ac rel).scalers = rel.scalers.filter (readable ac) := rfl

theorem managers_pruned (obj : Obj) (rel : Option Relationships) :
    (filterRefs ac (toContextRefs (managers obj (rel.map (pruneRelationships ac)))) "managedBy").1 =
      (filterRefs ac (toContextRefs (managers obj rel)) "managedBy").1 := by
  cases rel with
  | none => rfl
  | some rel => exact filter_pruned rel.managedBy

theorem owner_pruned (obj : Obj) (rel : Option Relationships) :
    buildOwner obj ac (rel.map (pruneRelationships ac)) = buildOwner obj ac rel := by
  cases rel <;> rfl

theorem runs_on_pruned (obj : Obj) (rel : Option Relationships) :
    buildRunsOn ac (rel.map (pruneRelationships ac)) obj = buildRunsOn ac rel obj := by
  cases rel <;> rfl

theorem service_account_pruned (rel : Option Relationships) (uses : Option UsesBlock × List String) :
    (withServiceAccount ac (rel.map (pruneRelationships ac)) uses).1 =
      (withServiceAccount ac rel uses).1 := by
  cases rel with
  | none => rfl
  | some rel =>
    cases named : rel.serviceAccount with
    | none => simp [withServiceAccount, pruneRelationships, named]
    | some account =>
      cases allowed : readable ac account with
      | true => simp [withServiceAccount, pruneRelationships, named, allowed, Option.filter]
      | false =>
        have unread : checkRef ac (toContextRef account) = false := allowed
        obtain ⟨block, path⟩ := uses
        cases block with
        | none => simp [withServiceAccount]
        | some block =>
          cases own : block.serviceAccount with
          | some held => simp [withServiceAccount, pruneRelationships, named, allowed, own, Option.filter]
          | none =>
            have dropped : Option.filter (readable ac) (some account) = none := by
              simp [Option.filter, allowed]
            simp only [withServiceAccount, pruneRelationships, Option.map_some, Option.bind_some,
              dropped, named, own, Option.isSome_none, Bool.false_eq_true, if_false, gateRef, unread]
            rw [← own]

theorem uses_pruned (rel : Option Relationships) (obj : Obj) :
    (buildUses ac (rel.map (pruneRelationships ac)) obj).1 = (buildUses ac rel obj).1 := by
  unfold buildUses
  split
  · exact service_account_pruned rel _
  · rfl
  · rfl
  · rfl

theorem workload_uses_pruned (kind group pathPrefix : String) (target : RefTarget)
    (workloads : List Workload) :
    workloadUses kind group pathPrefix target (workloads.filter (workloadReadable ac kind group)) =
      (workloadUses kind group pathPrefix target workloads).filter (useReadable ac) := by
  simp only [workloadUses, filter_map, filter_filter]
  congr 1
  refine filter_congr fun w _ => ?_
  simp only [Function.comp, useReadable, referenceUseForPodSpec, ReferenceUse.toRef, workloadReadable]
  rw [← Bool.and_assoc, Bool.and_comm]

theorem pod_uses_pruned (target : RefTarget) (pods : List ListedPod) :
    podUses target (pods.filter (listedReadable ac)) = (podUses target pods).filter (useReadable ac) := by
  simp only [podUses, filter_map, filter_filter]
  congr 1
  refine filter_congr fun p _ => ?_
  simp only [Function.comp, useReadable, referenceUseForPodSpec, ReferenceUse.toRef, listedReadable]
  rw [← Bool.and_assoc, Bool.and_comm]

theorem consumers_pruned (provider : Provider) (target : RefTarget) :
    consumers (pruneProvider ac provider) target = (consumers provider target).filter (useReadable ac) := by
  simp only [consumers, pruneProvider, workload_uses_pruned, pod_uses_pruned, filter_append]

/-- The loop passes over what may not be read. -/
theorem uses_counted (uses : List ReferenceUse) :
    (Arrange.sortStable useLess uses).foldl (visitUse ac) (0, []) =
      usesCounted (Arrange.sortStable useLess (uses.filter (useReadable ac))) := by
  rw [← Arrange.sort_filter use_ranks]
  exact visit_uses ac [] _

theorem referenced_pruned (provider : Option Provider) (ident : ResourceIdentity) :
    (buildReferencedBy ac (provider.map (pruneProvider ac)) ident).1 =
      (buildReferencedBy ac provider ident).1 := by
  cases provider with
  | none => rfl
  | some provider =>
    cases target : referencedTarget ident with
    | none => simp [buildReferencedBy, target]
    | some target' =>
      simp only [buildReferencedBy, target, Option.map_some, uses_counted, consumers_pruned,
        filter_filter, Bool.and_self]

theorem service_pruned (lookup : Option ServiceBackendLookup) (obj : Obj) :
    (buildServiceSummary ac (lookup.map (pruneBackends ac)) obj).1 =
      (buildServiceSummary ac lookup obj).1 := by
  unfold buildServiceSummary
  split
  next _ selector externalName _ =>
    split
    · rfl
    · cases lookup with
      | none => rfl
      | some lookup =>
        simp only [Option.map_some, Option.bind_some, pruneBackends]
        cases lookup obj.meta_.namespace_ selector with
        | none => rfl
        | some pods =>
          simp only [Option.map_some, select_readable, filter_filter, Bool.and_self]
  · rfl

theorem app_references_pruned (refs : Option (List ServiceEnvReference)) :
    (filterAppReferences ac (refs.map (filter fun ref => checkRef ac ref.service))).1 =
      (filterAppReferences ac refs).1 := by
  cases refs with
  | none => rfl
  | some refs => simp only [filterAppReferences, Option.map_some, Option.getD_some, filter_filter,
      Bool.and_self]

end Pruned

section Context
variable {σ : Type} {casing : Casing}

/-- Everything but the list of what was omitted. -/
def visible (rc : ResourceContext σ) : ResourceContext σ := { rc with omitted := [] }

theorem context_pruned (opts : Options σ) (obj : Obj) (ident : ResourceIdentity)
    (rel : Option Relationships) :
    visible (contextOf (pruneOptions opts rel) obj ident
        (rel.map (pruneRelationships opts.accessChecker))) =
      visible (contextOf opts obj ident rel) := by
  simp only [contextOf, visible, pruneOptions, managers_pruned, owner_pruned, runs_on_pruned,
    uses_pruned, referenced_pruned, service_pruned, app_references_pruned,
    related_pruned rel exposing_pruned, related_pruned rel selecting_pruned,
    related_pruned rel scalers_pruned]

/-- With the relationships handed in there is none to compute. -/
theorem relationships_pruned (opts : Options σ) (obj : Obj) (ident : ResourceIdentity) :
    relationshipsOf casing (pruneOptions opts (relationshipsOf casing opts obj ident)) obj ident =
      (relationshipsOf casing opts obj ident).map (pruneRelationships opts.accessChecker) := by
  cases found : relationshipsOf casing opts obj ident with
  | some rel => rfl
  | none =>
    unfold relationshipsOf at found ⊢
    cases given : opts.relationships with
    | some rel =>
      rw [given] at found
      cases found
    | none =>
      rw [given] at found
      simp only [pruneOptions, Option.map_none, Option.map_map]
      exact found

end Context

section References
variable {σ : Type}

def usesRefs (uses : UsesBlock) : List ContextRef :=
  uses.configMaps ++ uses.secrets ++ uses.serviceAccount.toList ++ uses.pvcs

def serviceRefs (summary : ServiceSummary) : List ContextRef :=
  summary.selectedPods.toList.flatMap fun sel => sel.readyPods ++ sel.notReadyPods

def ingressRefs (summary : IngressSummary) : List ContextRef :=
  summary.backendServices ++ summary.tlsSecrets

/-- The references anywhere in the context, the target of an autoscaler apart. -/
def contextRefs (rc : ResourceContext σ) : List ContextRef :=
  rc.owner.toList ++ rc.managedBy ++ rc.exposes ++ rc.selectedBy ++ rc.scaledBy ++
    rc.uses.toList.flatMap usesRefs ++ rc.runsOn.toList ++
    rc.serviceSummary.toList.flatMap serviceRefs ++
    rc.ingressSummary.toList.flatMap ingressRefs ++ rc.activeJobs ++
    rc.appReferences.map ServiceEnvReference.service

def referenceUses (rc : ResourceContext σ) : List ReferenceUse :=
  rc.referencedBy.toList.flatMap ReferencedBy.items

variable {ac : Option CanRead} {rel : Option Relationships} {obj : Obj} {ref : ContextRef}
variable {lookup : Option ServiceBackendLookup} {uses : UsesBlock}

theorem owner_readable (found : (buildOwner obj ac rel).1 = some ref) : checkRef ac ref = true := by
  unfold buildOwner at found
  split at found
  · exact gated_readable found
  · split at found
    · exact gated_readable found
    · cases found

theorem account_readable {namespace_ name : String}
    (found : (usesServiceAccount ac namespace_ name).1 = some ref) : checkRef ac ref = true := by
  unfold usesServiceAccount at found
  split at found
  · cases found
  · exact gated_readable found

theorem spec_readable {namespace_ : String} {spec : PodSpec}
    (found : (buildUsesFromPodSpec ac namespace_ spec).1 = some uses) (member : ref ∈ usesRefs uses) :
    checkRef ac ref = true := by
  simp only [buildUsesFromPodSpec, UsesBlock.orNil] at found
  split at found
  · cases found
  · cases found
    simp only [usesRefs, mem_append, Option.mem_toList] at member
    rcases member with ((configMap | secret) | account) | pvc
    · exact filtered_readable configMap
    · exact filtered_readable secret
    · exact account_readable account
    · exact filtered_readable pvc

theorem with_account_readable {own : Option UsesBlock × List String}
    (before : ∀ block, own.1 = some block → ∀ ref ∈ usesRefs block, checkRef ac ref = true)
    (found : (withServiceAccount ac rel own).1 = some uses) (member : ref ∈ usesRefs uses) :
    checkRef ac ref = true := by
  unfold withServiceAccount at found
  split at found
  next block account present _ =>
    have old := before block present
    split at found
    · exact before uses found ref member
    · cases found
      simp only [usesRefs, mem_append, Option.mem_toList] at member old
      rcases member with ((configMap | secret) | account') | pvc
      · exact old ref (.inl (.inl (.inl configMap)))
      · exact old ref (.inl (.inl (.inr secret)))
      · exact gated_readable account'
      · exact old ref (.inr pvc)
  next => exact before uses found ref member

theorem uses_readable (found : (buildUses ac rel obj).1 = some uses)
    (member : ref ∈ usesRefs uses) : checkRef ac ref = true := by
  unfold buildUses at found
  split at found
  · exact with_account_readable (fun block present ref' => spec_readable present) found member
  · exact spec_readable found member
  · exact spec_readable found member
  · cases found

theorem runs_on_readable (found : (buildRunsOn ac rel obj).1 = some ref) : checkRef ac ref = true := by
  unfold buildRunsOn at found
  split at found
  · split at found
    · cases found
    · exact gated_readable found
  · cases found

/-- What a service's summary is, when it has a selection: that of the readable pods. -/
theorem service_selection {summary : ServiceSummary}
    {sel : PodSelectionSummary} (found : (buildServiceSummary ac lookup obj).1 = some summary)
    (selected : summary.selectedPods = some sel) :
    ∃ backends selector externalName pods, lookup = some backends ∧
      obj.body = .service selector externalName ∧ backends obj.meta_.namespace_ selector = some pods ∧
          sel = selectionOf (pods.filter (podReadable ac)) := by
  unfold buildServiceSummary at found
  split at found
  next selector externalName service =>
    split at found
    · cases found
      cases selected
    · split at found
      · cases found
      next pods listed =>
        cases found
        cases selected
        obtain ⟨backends, given, answer⟩ := Option.bind_eq_some_iff.mp listed
        exact ⟨backends, selector, externalName, pods, given, service, answer, select_readable ac pods⟩
  · cases found

theorem service_readable {summary : ServiceSummary}
    (found : (buildServiceSummary ac lookup obj).1 = some summary) (member : ref ∈ serviceRefs summary) :
    checkRef ac ref = true := by
  obtain ⟨sel, selected, listed⟩ := mem_flatMap.mp member
  obtain ⟨_, _, _, pods, _, _, _, rfl⟩ := service_selection found (Option.mem_toList.mp selected)
  have taken : ∃ pod ∈ pods.filter (podReadable ac), pod.toRef = ref := by
    rcases mem_append.mp listed with ready | notReady
    · obtain ⟨pod, kept, same⟩ := mem_map.mp (mem_of_mem_take ready)
      exact ⟨pod, mem_of_mem_filter kept, same⟩
    · obtain ⟨pod, kept, same⟩ := mem_map.mp (mem_of_mem_take notReady)
      exact ⟨pod, mem_of_mem_filter kept, same⟩
  obtain ⟨pod, kept, rfl⟩ := taken
  exact (mem_filter.mp kept).2

theorem ingress_readable {summary : IngressSummary}
    (found : (buildIngressSummary ac obj).1 = some summary) (member : ref ∈ ingressRefs summary) :
    checkRef ac ref = true := by
  unfold buildIngressSummary at found
  split at found
  · simp only [IngressSummary.orNil] at found
    split at found
    · cases found
    · cases found
      simp only [ingressRefs, mem_append] at member
      rcases member with backend | secret
      · exact filtered_readable backend
      · exact filtered_readable secret
  · cases found

theorem active_readable (member : ref ∈ (buildActiveJobs ac obj).1) : checkRef ac ref = true := by
  unfold buildActiveJobs at member
  split at member
  · exact filtered_readable member
  · cases member

theorem app_readable {refs : Option (List ServiceEnvReference)}
    (member : ref ∈ (filterAppReferences ac refs).1.map ServiceEnvReference.service) :
    checkRef ac ref = true := by
  obtain ⟨env, kept, rfl⟩ := mem_map.mp member
  exact (mem_filter.mp kept).2

/-- What the consumers come to: the count of the readable ones, and the first of them. -/
theorem referenced_counted {provider : Option Provider} {ident : ResourceIdentity} {rb : ReferencedBy}
    (found : (buildReferencedBy ac provider ident).1 = some rb) :
    ∃ listed target, provider = some listed ∧ referencedTarget ident = some target ∧
      rb.total = ((consumers listed target).filter (useReadable ac)).length ∧
      rb.truncated =
        decide (maxReferencedByItems < ((consumers listed target).filter (useReadable ac)).length) ∧
      ∀ use ∈ rb.items, useReadable ac use = true := by
  unfold buildReferencedBy at found
  split at found
  next listed target referenced =>
    refine ⟨listed, target, rfl, referenced, ?_⟩
    simp only [uses_counted, usesCounted] at found
    have sorted := Arrange.sort_perm useLess ((consumers listed target).filter (useReadable ac))
    split at found
    · cases found
    · cases found
      refine ⟨sorted.length_eq, ?_, fun use member => ?_⟩
      · rw [length_take, length_map, sorted.length_eq]
        exact decide_eq_decide.mpr (by omega)
      · obtain ⟨whole, kept, rfl⟩ := mem_map.mp (mem_of_mem_take member)
        exact (mem_filter.mp (sorted.mem_iff.mp kept)).2
  · cases found

theorem related_readable {path : String}
    (member : ref ∈ (related ac rel select path).1) : checkRef ac ref = true :=
  filtered_readable member

theorem context_readable {opts : Options σ} {ident : ResourceIdentity}
    (member : ref ∈ contextRefs (contextOf opts obj ident rel)) :
    checkRef opts.accessChecker ref = true := by
  simp only [contextRefs, contextOf, mem_append, Option.mem_toList, mem_flatMap] at member
  rcases member with (((((((((owner | managedBy) | exposes) | selectedBy) | scaledBy) | uses) | runsOn) |
    service) | ingress) | active) | app
  · exact owner_readable owner
  · exact filtered_readable managedBy
  · exact related_readable exposes
  · exact related_readable selectedBy
  · exact related_readable scaledBy
  · obtain ⟨block, found, inside⟩ := uses
    exact uses_readable found inside
  · exact runs_on_readable runsOn
  · obtain ⟨summary, found, inside⟩ := service
    exact service_readable found inside
  · obtain ⟨summary, found, inside⟩ := ingress
    exact ingress_readable found inside
  · exact active_readable active
  · exact app_readable app

end References

/-- The inputs without what may not be read, for this object. -/
def readableOptions {σ : Type} (casing : Casing) (opts : Options σ) (obj : Obj) : Options σ :=
  match identityOf obj with
  | none => opts
  | some ident => pruneOptions opts (relationshipsOf casing opts obj ident)

/-- The references may be read, the counts are those of what may be read, and without what may not be
    read the context is the same but for what it says it omits. -/
structure Gated {σ : Type} (casing : Casing) (opts : Options σ) (obj : Obj) (rc : ResourceContext σ) :
    Prop where
  refs : ∀ ref ∈ contextRefs rc, checkRef opts.accessChecker ref = true
  uses : ∀ use ∈ referenceUses rc, checkRef opts.accessChecker use.toRef = true
  references : ∀ rb, rc.referencedBy = some rb → ∃ provider ident target,
    opts.provider = some provider ∧ identityOf obj = some ident ∧ referencedTarget ident = some target ∧
        rb.total = ((consumers provider target).filter (useReadable opts.accessChecker)).length ∧
        rb.truncated = decide (maxReferencedByItems <
          ((consumers provider target).filter (useReadable opts.accessChecker)).length)
  selected : ∀ summary sel, rc.serviceSummary = some summary → summary.selectedPods = some sel →
    ∃ backends selector externalName pods, opts.serviceBackends = some backends ∧
      obj.body = .service selector externalName ∧ backends obj.meta_.namespace_ selector = some pods ∧
          sel = selectionOf (pods.filter (podReadable opts.accessChecker))
  unseen : (build casing (readableOptions casing opts obj) (some obj)).map visible = some (visible rc)

theorem context_gated {σ : Type} (casing : Casing) (opts : Options σ) (obj : Obj)
    (rc : ResourceContext σ) (built : build casing opts (some obj) = some rc) :
    Gated casing opts obj rc := by
  simp only [build] at built
  cases identity : identityOf obj with
  | none =>
    simp only [identity, Option.some.injEq] at built
    subst built
    refine ⟨?_, ?_, ?_, ?_, ?_⟩
    · simp [contextRefs, tierOnly]
    · simp [referenceUses, tierOnly]
    · rintro rb ⟨⟩
    · rintro summary sel ⟨⟩
    · simp only [readableOptions, build, identity, Option.map_some]
  | some ident =>
    simp only [identity, Option.some.injEq] at built
    subst built
    refine ⟨fun ref => context_readable, fun use member => ?_, fun rb found => ?_,
      fun summary sel => service_selection, ?_⟩
    · obtain ⟨rb, found, inside⟩ := mem_flatMap.mp member
      obtain ⟨_, _, _, _, _, _, items⟩ := referenced_counted (Option.mem_toList.mp found)
      exact items use inside
    · obtain ⟨provider, target, given, referenced, total, truncated, _⟩ := referenced_counted found
      exact ⟨provider, ident, target, given, identity, referenced, total, truncated⟩
    · simp only [readableOptions, build, identity, Option.map_some, relationships_pruned, context_pruned]

/-- A cluster of nothing but what the object says, whose core resources may be read and no others. -/
def coreOnly (rel : Option Relationships) : Options Unit :=
  ⟨"basic", some fun group _ _ => group == "", none, none, none, rel, none, none, none, fun _ => ()⟩

def plainMeta : Overlay.ObjectMeta := ⟨"shop", fun _ => "", fun _ => ""⟩

def webScaler : Obj := ⟨"web", plainMeta, [], .hpa ⟨"apps/v1", "Deployment", "web"⟩⟩

/-- A pod whose owner reference names a core resource. -/
def mirroredPod : Obj :=
  ⟨"web", plainMeta, [⟨"v1", "Node", "worker", none⟩], .pod ⟨[], [], [], [], "", "", []⟩ "Running" []⟩

def rolledOut : Relationships := { owner := some ⟨"Rollout", "shop", "web", "argoproj.io"⟩ }

theorem mirrored_pod_gated : Gated Neighborhood.asciiCasing (coreOnly (some rolledOut)) mirroredPod
    (contextOf (coreOnly (some rolledOut)) mirroredPod ⟨"Pod", "", "shop", "web"⟩ (some rolledOut)) :=
  context_gated Neighborhood.asciiCasing (coreOnly (some rolledOut)) mirroredPod _ rfl

/-- Relationships that have lost their owner and node as well. -/
def pruneAll (ac : Option CanRead) (rel : Relationships) : Relationships := { pruneRelationships ac rel with
    owner := rel.owner.filter (readable ac)
    node := rel.node.filter (readable ac) }

/-- The target of a scaler is not checked; and without the owner that may not be read the pod is shown
    with the one its owner reference names. -/
theorem target_and_owner_leak : (¬ ∀ (opts : Options Unit) (obj : Obj) (rc : ResourceContext Unit),
      build Neighborhood.asciiCasing opts (some obj) = some rc →
        ∀ ref ∈ contextRefs rc ++ rc.hpaTarget.toList, checkRef opts.accessChecker ref = true) ∧
    ¬ ∀ (opts : Options Unit) (rel : Relationships) (obj : Obj) (rc : ResourceContext Unit),
      opts.relationships = some rel → build Neighborhood.asciiCasing opts (some obj) = some rc →
        (build Neighborhood.asciiCasing
          { opts with relationships := some (pruneAll opts.accessChecker rel) } (some obj)).map visible =
            some (visible rc) := by
  constructor
  · intro claimed
    have checked := claimed (coreOnly none) webScaler _ rfl ⟨"Deployment", "apps", "shop", "web"⟩
      (by decide)
    exact absurd checked (by decide)
  · intro claimed
    have same := claimed (coreOnly (some rolledOut)) rolledOut mirroredPod _ rfl rfl
    have owners := congrArg (Option.map ResourceContext.owner) same
    exact absurd owners (by decide)

end ReadGate
