import Mathlib.Data.List.Count
import Radar.Rbac.Index

/- The index of pkg/rbac/index.go against a scan over all bindings of a snapshot. -/
namespace Rbac
open MultiMap Firsts GoText List

section Keys

theorem segment_inj {a b : Segment} (same : a.text = b.text) : a = b := by
  obtain ⟨text, plain⟩ := a
  obtain ⟨text', plain'⟩ := b
  subst same
  rfl

theorem key_chars (kind namespace_ : Segment) (name : String) : (keyOf kind namespace_ name).toList =
      kind.text.toList ++ '/' :: (namespace_.text.toList ++ '/' :: name.toList) := by
  simp [keyOf, String.toList_append]

theorem key_inj {kind kind' namespace_ namespace' : Segment} {name name' : String}
    (same : keyOf kind namespace_ name = keyOf kind' namespace' name') :
    kind = kind' ∧ namespace_ = namespace' ∧ name = name' := by
  have chars := congrArg String.toList same
  rw [key_chars, key_chars] at chars
  obtain ⟨kinds, rest⟩ := sep_inj kind.slashless kind'.slashless chars
  obtain ⟨namespaces, names⟩ := sep_inj namespace_.slashless namespace'.slashless rest
  exact ⟨segment_inj (String.toList_inj.mp kinds), segment_inj (String.toList_inj.mp namespaces),
    String.toList_inj.mp names⟩

theorem subject_key_inj {s t : Subject} : s.key = t.key ↔ s = t := by
  constructor
  · intro same
    obtain ⟨kind, namespace_, name⟩ := key_inj same
    obtain ⟨⟩ := s
    obtain ⟨⟩ := t
    simp_all
  · intro same
    rw [same]

end Keys

section Build

theorem add_roles (roles : List Role) (idx : Index) : roles.foldl Index.addRole idx = { idx with
      rolesByKey := insertAll (fun r => keyOf roleKind r.namespace_ r.name) idx.rolesByKey roles } := by
  induction roles generalizing idx with
  | nil => rfl
  | cons r rest ih => exact ih (idx.addRole r)

theorem add_cluster_roles (roles : List ClusterRole) (idx : Index) : roles.foldl Index.addClusterRole idx =
      { idx with
        clusterRolesByKey := insertAll (fun cr => keyOf clusterRoleKind noNamespace cr.name)
          idx.clusterRolesByKey roles } := by
  induction roles generalizing idx with
  | nil => rfl
  | cons r rest ih => exact ih (idx.addClusterRole r)

/-- The keys under which a binding is found by its subjects. -/
def postings (ref : BindingRef) (subjects : List Subject) : List (String × BindingRef) :=
  subjects.map fun s => (s.key, ref)

def namespacePosting (rb : RoleBinding) : List (String × BindingRef) :=
  if rb.namespace_.text = "" then [] else [(rb.namespace_.text, rb.ref)]

theorem add_role_binding (idx : Index) (rb : RoleBinding) : idx.addRoleBinding rb = { idx with
      bindingsByRole := push idx.bindingsByRole rb.ref.roleRef.key rb.ref
      bindingsBySubject := pushAll idx.bindingsBySubject (postings rb.ref rb.subjects)
      roleBindingsByNamespace := pushAll idx.roleBindingsByNamespace (namespacePosting rb) } := by
  unfold Index.addRoleBinding Index.indexBinding namespacePosting postings
  dsimp only
  split <;> rfl

theorem add_role_bindings (bindings : List RoleBinding) (idx : Index) :
    bindings.foldl Index.addRoleBinding idx = { idx with
        bindingsByRole := pushAll idx.bindingsByRole
          (bindings.map fun rb => (rb.ref.roleRef.key, rb.ref))
        bindingsBySubject := pushAll idx.bindingsBySubject
          (bindings.flatMap fun rb => postings rb.ref rb.subjects)
        roleBindingsByNamespace := pushAll idx.roleBindingsByNamespace
          (bindings.flatMap namespacePosting) } := by
  induction bindings generalizing idx with
  | nil => rfl
  | cons rb rest ih =>
    rw [foldl_cons, ih, add_role_binding, map_cons, flatMap_cons, flatMap_cons,
      push_all_append, push_all_append]
    rfl

theorem add_cluster_role_bindings (bindings : List ClusterRoleBinding) (idx : Index) :
    bindings.foldl Index.addClusterRoleBinding idx = { idx with
        bindingsByRole := pushAll idx.bindingsByRole
          (bindings.map fun crb => (crb.ref.roleRef.key, crb.ref))
        bindingsBySubject := pushAll idx.bindingsBySubject
          (bindings.flatMap fun crb => postings crb.ref crb.subjects) } := by
  induction bindings generalizing idx with
  | nil => rfl
  | cons crb rest ih =>
    rw [foldl_cons, ih, map_cons, flatMap_cons, push_all_append]
    rfl

end Build

/-- What the listers hold at one time: no two objects of one kind share namespace and name. -/
structure Snapshot where
  roles : List (Option Role)
  clusterRoles : List (Option ClusterRole)
  roleBindings : List (Option RoleBinding)
  clusterRoleBindings : List (Option ClusterRoleBinding)
  rolesUnique : (roles.reduceOption.map fun r => (r.namespace_, r.name)).Nodup
  clusterRolesUnique : (clusterRoles.reduceOption.map ClusterRole.name).Nodup
  roleBindingsUnique : (roleBindings.reduceOption.map fun rb => (rb.namespace_, rb.name)).Nodup
  clusterRoleBindingsUnique : (clusterRoleBindings.reduceOption.map ClusterRoleBinding.name).Nodup

def Snapshot.index (snap : Snapshot) : Index :=
  buildIndex snap.roles snap.clusterRoles snap.roleBindings snap.clusterRoleBindings

/-- A binding of either kind. -/
structure Binding where
  ref : BindingRef
  subjects : List Subject

def Snapshot.bindings (snap : Snapshot) : List Binding :=
  (snap.roleBindings.reduceOption.map fun rb => ⟨rb.ref, rb.subjects⟩) ++
    snap.clusterRoleBindings.reduceOption.map fun crb => ⟨crb.ref, crb.subjects⟩

/-- The bindings that name a subject, each as often as it lists it. -/
def Snapshot.naming (snap : Snapshot) (s : Subject) : List BindingRef :=
  snap.bindings.flatMap fun b => (b.subjects.filter fun t => decide (t = s)).map fun _ => b.ref

section Scan

theorem index_subjects (snap : Snapshot) : snap.index.bindingsBySubject =
    pushAll ∅ (snap.bindings.flatMap fun b => postings b.ref b.subjects) := by
  rw [Snapshot.index, buildIndex, add_roles, add_cluster_roles, add_role_bindings,
    add_cluster_role_bindings, ← push_all_append, Snapshot.bindings, flatMap_append,
    flatMap_map, flatMap_map]

theorem subject_bindings (snap : Snapshot) (s : Subject) :
    values snap.index.bindingsBySubject s.key = snap.naming s := by
  rw [index_subjects, values_push_all, values_empty, nil_append, filter_flatMap,
    map_flatMap, Snapshot.naming]
  apply flatMap_congr
  intro b _
  rw [postings, filter_map, map_map]
  simp only [Function.comp_def, subject_key_inj]

theorem index_roles (snap : Snapshot) : snap.index.rolesByKey =
    insertAll (fun r => keyOf roleKind r.namespace_ r.name) ∅ snap.roles.reduceOption := by
  rw [Snapshot.index, buildIndex, add_roles, add_cluster_roles, add_role_bindings,
    add_cluster_role_bindings]

theorem index_cluster_roles (snap : Snapshot) : snap.index.clusterRolesByKey =
    insertAll (fun cr => keyOf clusterRoleKind noNamespace cr.name) ∅
      snap.clusterRoles.reduceOption := by
  rw [Snapshot.index, buildIndex, add_roles, add_cluster_roles, add_role_bindings,
    add_cluster_role_bindings]

theorem index_namespaces (snap : Snapshot) : snap.index.roleBindingsByNamespace =
    pushAll ∅ (snap.roleBindings.reduceOption.flatMap namespacePosting) := by
  rw [Snapshot.index, buildIndex, add_roles, add_cluster_roles, add_role_bindings,
    add_cluster_role_bindings]

/-- The rules a role reference stands for in the snapshot. -/
inductive Snapshot.Defines (snap : Snapshot) (r : RoleRef) : List PolicyRule → Prop where
  | role (role : Role) (present : role ∈ snap.roles.reduceOption) (kind : r.kind = roleKind)
      (namespace_ : role.namespace_ = r.namespace_) (name : role.name = r.name) :
      snap.Defines r role.rules
  | clusterRole (role : ClusterRole) (present : role ∈ snap.clusterRoles.reduceOption)
      (kind : r.kind = clusterRoleKind) (namespace_ : r.namespace_ = noNamespace)
      (name : role.name = r.name) : snap.Defines r role.rules

theorem role_lookup (snap : Snapshot) {r : RoleRef} (kind : r.kind = roleKind) (role : Role) :
    snap.index.rolesByKey.lookup r.key = some role ↔
      role ∈ snap.roles.reduceOption ∧ role.namespace_ = r.namespace_ ∧ role.name = r.name := by
  have distinct : (snap.roles.reduceOption.map fun r => keyOf roleKind r.namespace_ r.name).Nodup := by
    have injective : Function.Injective fun at_ : Segment × String => keyOf roleKind at_.1 at_.2 := by
      intro a b same
      obtain ⟨_, namespaces, names⟩ := key_inj same
      exact Prod.ext namespaces names
    have keys := snap.rolesUnique.map injective
    rwa [map_map] at keys
  rw [index_roles, lookup_insert_all distinct]
  simp only [AList.lookup_empty, reduceCtorEq, and_false, or_false]
  refine and_congr_right fun _ => ?_
  rw [RoleRef.key, kind]
  constructor
  · intro same
    exact (key_inj same).2
  · rintro ⟨namespaces, names⟩
    rw [namespaces, names]

theorem cluster_role_lookup (snap : Snapshot) {r : RoleRef} (kind : r.kind = clusterRoleKind)
    (role : ClusterRole) : snap.index.clusterRolesByKey.lookup r.key = some role ↔
      role ∈ snap.clusterRoles.reduceOption ∧ r.namespace_ = noNamespace ∧ role.name = r.name := by
  have distinct : (snap.clusterRoles.reduceOption.map fun cr =>
      keyOf clusterRoleKind noNamespace cr.name).Nodup := by
    have injective : Function.Injective fun name => keyOf clusterRoleKind noNamespace name :=
      fun a b same => (key_inj same).2.2
    have keys := snap.clusterRolesUnique.map injective
    rwa [map_map] at keys
  rw [index_cluster_roles, lookup_insert_all distinct]
  simp only [AList.lookup_empty, reduceCtorEq, and_false, or_false]
  refine and_congr_right fun _ => ?_
  rw [RoleRef.key, kind]
  constructor
  · intro same
    obtain ⟨_, namespaces, names⟩ := key_inj same
    exact ⟨namespaces.symm, names⟩
  · rintro ⟨namespaces, names⟩
    rw [namespaces, names]

/-- A reference's rules are those it stands for, and none where it dangles. -/
theorem rules_of_spec (snap : Snapshot) (r : RoleRef) : snap.Defines r (snap.index.rulesOf r) ∨
      (∀ rules, ¬ snap.Defines r rules) ∧ snap.index.rulesOf r = [] := by
  unfold Index.rulesOf
  have kinds : roleKind ≠ clusterRoleKind := by decide
  by_cases kind : r.kind = roleKind
  · rw [if_pos kind]
    cases found : snap.index.rolesByKey.lookup r.key with
    | some role =>
      obtain ⟨present, namespaces, names⟩ := (role_lookup snap kind role).mp found
      exact Or.inl (.role role present kind namespaces names)
    | none =>
      refine Or.inr ⟨?_, rfl⟩
      rintro _ (⟨role, present, _, namespaces, names⟩ | ⟨role, present, other, _, _⟩)
      · have found' := (role_lookup snap kind role).mpr ⟨present, namespaces, names⟩
        rw [found] at found'
        exact absurd found' (by simp)
      · exact kinds (kind.symm.trans other)
  · rw [if_neg kind]
    by_cases kind' : r.kind = clusterRoleKind
    · rw [if_pos kind']
      cases found : snap.index.clusterRolesByKey.lookup r.key with
      | some role =>
        obtain ⟨present, namespaces, names⟩ := (cluster_role_lookup snap kind' role).mp found
        exact Or.inl (.clusterRole role present kind' namespaces names)
      | none =>
        refine Or.inr ⟨?_, rfl⟩
        rintro _ (⟨role, present, own, _, _⟩ | ⟨role, present, _, namespaces, names⟩)
        · exact kind own
        · have found' := (cluster_role_lookup snap kind' role).mpr ⟨present, namespaces, names⟩
          rw [found] at found'
          exact absurd found' (by simp)
    · rw [if_neg kind']
      refine Or.inr ⟨?_, rfl⟩
      rintro _ (⟨role, present, own, _, _⟩ | ⟨role, present, own, _, _⟩)
      · exact kind own
      · exact kind' own

end Scan

/-- The groups that bring a subject its bindings; the empty text stands for the subject itself. -/
def provenances (s : Subject) : List String :=
  "" :: if s.kind = serviceAccountKind then implicitGroupsForSA s.namespace_.text else []

def provenanceSubject (s : Subject) (group : String) : Subject :=
  if group = "" then s else groupSubject group

/-- Where a grant holds: of a role in a namespace, there. -/
def BindingRules.scope (v : BindingRules) : String :=
  if v.scopeNamespace = "" then v.role.namespace_.text else v.scopeNamespace

/-- The grants of a subject are those a scan over all bindings finds. -/
structure MatchesScan (snap : Snapshot) (s : Subject) (via : List BindingRules) : Prop where
  reached : ∀ ref group, (∃ v ∈ via, v.binding = ref ∧ v.inheritedFromGroup = group) ↔
    group ∈ provenances s ∧ ∃ b ∈ snap.bindings, b.ref = ref ∧ provenanceSubject s group ∈ b.subjects
  once : ∀ b ∈ snap.bindings, ∀ group ∈ provenances s, b.subjects.count (provenanceSubject s group) = 1 →
      (via.map fun v => (v.binding, v.inheritedFromGroup)).count (b.ref, group) = 1
  role : ∀ v ∈ via, v.role = v.binding.roleRef
  rules : ∀ v ∈ via, snap.Defines v.role v.rules ∨ (∀ rules, ¬ snap.Defines v.role rules) ∧ v.rules = []
  scope : ∀ v ∈ via, v.role.kind = roleKind ∨ v.role.kind = clusterRoleKind →
    v.scope = v.binding.namespace_.text

/-- The bindings of a namespace are its role bindings and the cluster-wide ones that name one of
    its service accounts. -/
structure NamespaceScan (snap : Snapshot) (namespace_ : Segment) (found : NamespaceBindings) : Prop where
  roleBindings : found.roleBindings =
    (snap.roleBindings.reduceOption.filter fun rb => decide (rb.namespace_ = namespace_)).map
      RoleBinding.ref
  clusterBindings : ∀ ref, ref ∈ found.clusterRoleBindingsWithLocalSubject ↔
    ∃ crb ∈ snap.clusterRoleBindings.reduceOption, crb.ref = ref ∧
      ∃ t ∈ crb.subjects, t.kind = serviceAccountKind ∧ t.namespace_ = namespace_
  clusterOnce : found.clusterRoleBindingsWithLocalSubject.Nodup

section Grants

/-- Of lists laid end to end only one can hold the element. -/
theorem count_flat {α β : Type} [BEq β] [LawfulBEq β] {f : α → List β} {l : List α} {a : α} {x : β}
    (distinct : l.Nodup) (own : ∀ c ∈ l, x ∈ f c → c = a) (member : a ∈ l) :
    (l.flatMap f).count x = (f a).count x := by
  induction l with
  | nil => exact absurd member not_mem_nil
  | cons first rest ih =>
    obtain ⟨fresh, later⟩ := nodup_cons.mp distinct
    rw [flatMap_cons, count_append]
    by_cases same : first = a
    · subst same
      have elsewhere : x ∉ rest.flatMap f := by
        intro found
        obtain ⟨c, listed, holds⟩ := mem_flatMap.mp found
        exact fresh (own c (mem_cons_of_mem first listed) holds ▸ listed)
      rw [count_eq_zero.mpr elsewhere, Nat.add_zero]
    · have lacking : x ∉ f first := fun holds => same (own first mem_cons_self holds)
      have behind : a ∈ rest := (mem_cons.mp member).resolve_left (Ne.symm same)
      rw [count_eq_zero.mpr lacking, Nat.zero_add]
      exact ih later (fun c listed => own c (mem_cons_of_mem first listed)) behind

theorem refs_distinct (snap : Snapshot) : (snap.bindings.map Binding.ref).Nodup := by
  rw [Snapshot.bindings, map_append, map_map, map_map, nodup_append]
  refine ⟨?_, ?_, ?_⟩
  · exact List.Nodup.of_map (fun ref : BindingRef => (ref.namespace_, ref.name))
      (by rw [map_map]; exact snap.roleBindingsUnique)
  · exact List.Nodup.of_map BindingRef.name
      (by rw [map_map]; exact snap.clusterRoleBindingsUnique)
  · intro ref local_ ref' wide same
    obtain ⟨rb, _, rfl⟩ := mem_map.mp local_
    obtain ⟨crb, _, rfl⟩ := mem_map.mp wide
    have kinds : roleBindingKind = clusterRoleBindingKind := congrArg BindingRef.kind same
    exact absurd kinds (by decide)

theorem mem_naming (snap : Snapshot) (t : Subject) (ref : BindingRef) :
    ref ∈ snap.naming t ↔ ∃ b ∈ snap.bindings, b.ref = ref ∧ t ∈ b.subjects := by
  rw [Snapshot.naming, mem_flatMap]
  refine exists_congr fun b => and_congr_right fun _ => ?_
  simp only [mem_map, mem_filter, decide_eq_true_eq]
  constructor
  · rintro ⟨_, ⟨named, rfl⟩, same⟩
    exact ⟨same, named⟩
  · rintro ⟨same, named⟩
    exact ⟨t, ⟨named, rfl⟩, same⟩

/-- A binding is found as often as it lists the subject. -/
theorem naming_count (snap : Snapshot) {b : Binding} (member : b ∈ snap.bindings) (t : Subject) :
    (snap.naming t).count b.ref = b.subjects.count t := by
  have distinct := refs_distinct snap
  rw [Snapshot.naming, count_flat (List.Nodup.of_map _ distinct) ?_ member]
  · rw [map_const', count_replicate_self, count, countP_eq_length_filter]
    rfl
  · intro c listed found
    obtain ⟨_, _, same⟩ := mem_map.mp found
    exact inj_on_of_nodup_map distinct listed member same

theorem provenances_distinct (s : Subject) : (provenances s).Nodup := by
  rw [provenances]
  split
  · rw [implicitGroupsForSA]
    simp [← String.toList_inj, String.toList_append]
  · exact nodup_singleton _

theorem via_eq (snap : Snapshot) (s : Subject) : snap.index.viaBindings s =
    (provenances s).flatMap fun group =>
      (snap.naming (provenanceSubject s group)).map fun ref => snap.index.expand ref group := by
  have implicit : ∀ group ∈ implicitGroupsForSA s.namespace_.text,
      provenanceSubject s group = groupSubject group := by
    intro group listed
    apply if_neg
    rintro rfl
    rw [implicitGroupsForSA] at listed
    simp [← String.toList_inj, String.toList_append] at listed
  rw [provenances, flatMap_cons]
  unfold Index.viaBindings
  dsimp only
  rw [subject_bindings, provenanceSubject, if_pos rfl]
  by_cases account : s.kind = serviceAccountKind
  · rw [if_pos account, if_pos account]
    congr 1
    apply flatMap_congr
    intro group listed
    rw [subject_bindings, implicit group listed]
  · rw [if_neg account, if_neg account, flatMap_nil, append_nil]

theorem mem_via (snap : Snapshot) (s : Subject) (v : BindingRules) :
    v ∈ snap.index.viaBindings s ↔ ∃ group ∈ provenances s,
      ∃ ref ∈ snap.naming (provenanceSubject s group), snap.index.expand ref group = v := by
  simp only [via_eq, mem_flatMap, mem_map]

theorem naming_ref_scope (snap : Snapshot) {t : Subject} {ref : BindingRef}
    (found : ref ∈ snap.naming t) :
    (ref.kind = roleBindingKind ∨ ref.namespace_ = noNamespace) ∧
      ref.roleRef.namespace_ = if ref.roleRef.kind = roleKind then ref.namespace_ else noNamespace := by
  obtain ⟨b, listed, rfl, _⟩ := (mem_naming snap t ref).mp found
  rcases mem_append.mp listed with bound | bound
  · obtain ⟨rb, _, rfl⟩ := mem_map.mp bound
    exact ⟨Or.inl rfl, rfl⟩
  · obtain ⟨crb, _, rfl⟩ := mem_map.mp bound
    exact ⟨Or.inr rfl, rfl⟩

theorem expand_scope (idx : Index) {ref : BindingRef} (group : String)
    (homed : ref.kind = roleBindingKind ∨ ref.namespace_ = noNamespace)
    (own : ref.roleRef.namespace_ = if ref.roleRef.kind = roleKind then ref.namespace_ else noNamespace)
    (known : ref.roleRef.kind = roleKind ∨ ref.roleRef.kind = clusterRoleKind) :
    (idx.expand ref group).scope = ref.namespace_.text := by
  have kinds : clusterRoleKind ≠ roleKind := by decide
  have granted : (idx.expand ref group).scopeNamespace =
      if ref.kind = roleBindingKind ∧ ref.roleRef.kind = clusterRoleKind then ref.namespace_.text
      else "" := rfl
  have target : (idx.expand ref group).role.namespace_ = ref.roleRef.namespace_ := rfl
  rw [BindingRules.scope, target]
  rcases known with role | role
  · rw [if_neg (fun both => kinds (both.2.symm.trans role))] at granted
    rw [if_pos granted, own, if_pos role]
  · rw [role, if_neg kinds] at own
    by_cases local_ : ref.kind = roleBindingKind
    · rw [if_pos ⟨local_, role⟩] at granted
      rw [granted, own]
      by_cases empty : ref.namespace_.text = ""
      · rw [if_pos empty, empty]
        rfl
      · rw [if_neg empty]
    · rw [if_neg (fun both => local_ both.1)] at granted
      rw [if_pos granted, own, homed.resolve_left local_]

theorem via_matches (snap : Snapshot) (s : Subject) : MatchesScan snap s (snap.index.viaBindings s) := by
  constructor
  case reached =>
    intro ref group
    constructor
    · rintro ⟨v, member, rfl, rfl⟩
      obtain ⟨group, listed, ref, found, rfl⟩ := (mem_via snap s v).mp member
      exact ⟨listed, (mem_naming snap _ ref).mp found⟩
    · rintro ⟨listed, scan⟩
      have found := (mem_naming snap _ ref).mpr scan
      exact ⟨_, (mem_via snap s _).mpr ⟨group, listed, ref, found, rfl⟩, rfl, rfl⟩
  case once =>
    intro b member group listed single
    rw [via_eq, map_flatMap, count_flat (provenances_distinct s) ?_ listed]
    · rw [map_map, ← single, ← naming_count snap member]
      exact count_map_of_injective _ (fun ref : BindingRef => (ref, group))
        (fun _ _ same => (Prod.mk.inj same).1) b.ref
    · intro other _ found
      rw [map_map] at found
      obtain ⟨_, _, same⟩ := mem_map.mp found
      exact (Prod.mk.inj same).2
  case role =>
    intro v member
    obtain ⟨_, _, _, _, rfl⟩ := (mem_via snap s v).mp member
    rfl
  case rules =>
    intro v member
    obtain ⟨_, _, ref, _, rfl⟩ := (mem_via snap s v).mp member
    exact rules_of_spec snap ref.roleRef
  case scope =>
    intro v member known
    obtain ⟨group, _, ref, found, rfl⟩ := (mem_via snap s v).mp member
    obtain ⟨homed, own⟩ := naming_ref_scope snap found
    exact expand_scope snap.index group homed own known

end Grants

section Namespaces

/-- A subject's key starts with the prefix of a namespace's service accounts exactly if it is one
    of them. -/
theorem account_key_iff (t : Subject) (ns : Segment) :
    hasPrefix t.key ("ServiceAccount/" ++ ns.text ++ "/") = true ↔
      t.kind = serviceAccountKind ∧ t.namespace_ = ns := by
  have chars : ("ServiceAccount/" ++ ns.text ++ "/").toList =
      serviceAccountKind.text.toList ++ '/' :: (ns.text.toList ++ ['/']) := by
    simp [String.toList_append, serviceAccountKind]
  rw [hasPrefix, isPrefixOf_iff_prefix, Subject.key, key_chars, chars]
  constructor
  · rintro ⟨rest, whole⟩
    simp only [append_assoc, cons_append, nil_append] at whole
    obtain ⟨kinds, rest⟩ := sep_inj serviceAccountKind.slashless t.kind.slashless whole
    obtain ⟨namespaces, _⟩ := sep_inj ns.slashless t.namespace_.slashless rest
    exact ⟨(segment_inj (String.toList_inj.mp kinds)).symm,
      (segment_inj (String.toList_inj.mp namespaces)).symm⟩
  · rintro ⟨kind, namespace_⟩
    rw [kind, namespace_]
    exact ⟨t.name.toList, by simp⟩

theorem subject_key_iff (snap : Snapshot) (key : String) :
    key ∈ snap.index.bindingsBySubject ↔ ∃ b ∈ snap.bindings, ∃ t ∈ b.subjects, t.key = key := by
  rw [index_subjects, mem_push_all]
  simp only [AList.notMem_empty, false_or, mem_flatMap, postings, mem_map]
  constructor
  · rintro ⟨_, ⟨b, member, t, listed, rfl⟩, rfl⟩
    exact ⟨b, member, t, listed, rfl⟩
  · rintro ⟨b, member, t, listed, rfl⟩
    exact ⟨_, ⟨b, member, t, listed, rfl⟩, rfl⟩

theorem cluster_binding_mem (snap : Snapshot) {b : Binding} (listed : b ∈ snap.bindings) :
    b.ref.kind = clusterRoleBindingKind ↔
      ∃ crb ∈ snap.clusterRoleBindings.reduceOption, (⟨crb.ref, crb.subjects⟩ : Binding) = b := by
  rcases mem_append.mp listed with bound | bound
  · obtain ⟨rb, _, rfl⟩ := mem_map.mp bound
    constructor
    · intro kind
      have kinds : roleBindingKind = clusterRoleBindingKind := kind
      exact absurd kinds (by decide)
    · rintro ⟨crb, _, same⟩
      have kinds : clusterRoleBindingKind = roleBindingKind := congrArg (fun b : Binding => b.ref.kind) same
      exact absurd kinds (by decide)
  · obtain ⟨crb, present, rfl⟩ := mem_map.mp bound
    exact ⟨fun _ => ⟨crb, present, rfl⟩, fun _ => rfl⟩

/-- The cluster-wide bindings the walk over the subjects' map comes by. -/
theorem mem_walk (snap : Snapshot) (ns : Segment) {order : List String}
    (visited : order.Perm snap.index.bindingsBySubject.keys) (ref : BindingRef) :
    (ref ∈ order.flatMap fun key => if hasPrefix key ("ServiceAccount/" ++ ns.text ++ "/") then
        (values snap.index.bindingsBySubject key).filter fun ref =>
          decide (ref.kind = clusterRoleBindingKind)
      else []) ↔
    ∃ crb ∈ snap.clusterRoleBindings.reduceOption, crb.ref = ref ∧
      ∃ t ∈ crb.subjects, t.kind = serviceAccountKind ∧ t.namespace_ = ns := by
  have keys : ∀ key, key ∈ order ↔ ∃ b ∈ snap.bindings, ∃ t ∈ b.subjects, t.key = key := by
    intro key
    rw [visited.mem_iff, ← AList.mem_keys, subject_key_iff]
  rw [mem_flatMap]
  constructor
  · rintro ⟨key, listed, member⟩
    obtain ⟨_, _, t, _, rfl⟩ := (keys key).mp listed
    by_cases own : hasPrefix t.key ("ServiceAccount/" ++ ns.text ++ "/") = true
    · rw [if_pos own, mem_filter, subject_bindings, mem_naming, decide_eq_true_eq] at member
      obtain ⟨⟨b, present, rfl, named⟩, kind⟩ := member
      obtain ⟨crb, held, rfl⟩ := (cluster_binding_mem snap present).mp kind
      exact ⟨crb, held, rfl, t, named, (account_key_iff t ns).mp own⟩
    · rw [if_neg own] at member
      exact absurd member not_mem_nil
  · rintro ⟨crb, held, rfl, t, named, account⟩
    have present : (⟨crb.ref, crb.subjects⟩ : Binding) ∈ snap.bindings :=
      mem_append_right _ (mem_map_of_mem held)
    refine ⟨t.key, (keys _).mpr ⟨_, present, t, named, rfl⟩, ?_⟩
    rw [if_pos ((account_key_iff t ns).mpr account), mem_filter, subject_bindings, mem_naming]
    exact ⟨⟨_, present, rfl, named⟩, decide_eq_true rfl⟩

theorem namespace_roles (snap : Snapshot) {ns : Segment} (named : ns.text ≠ "") :
    values snap.index.roleBindingsByNamespace ns.text =
      (snap.roleBindings.reduceOption.filter fun rb => decide (rb.namespace_ = ns)).map
        RoleBinding.ref := by
  rw [index_namespaces, values_push_all, values_empty, nil_append]
  induction snap.roleBindings.reduceOption with
  | nil => rfl
  | cons rb rest ih =>
    rw [flatMap_cons, filter_append, map_append, ih, namespacePosting]
    by_cases own : rb.namespace_ = ns
    · subst own
      simp [named]
    · have other : rb.namespace_.text ≠ ns.text := fun same => own (segment_inj same)
      by_cases empty : rb.namespace_.text = ""
      · simp [empty, own]
      · simp [empty, own, other]

theorem cluster_ref_key (snap : Snapshot) {crb crb' : ClusterRoleBinding}
    (held : crb ∈ snap.clusterRoleBindings.reduceOption)
    (held' : crb' ∈ snap.clusterRoleBindings.reduceOption)
    (same : crb.ref.kind.text ++ "/" ++ crb.ref.name = crb'.ref.kind.text ++ "/" ++ crb'.ref.name) :
    crb.ref = crb'.ref := by
  have chars := congrArg String.toList same
  simp only [String.toList_append, ClusterRoleBinding.ref, append_cancel_left_eq] at chars
  have names : crb.name = crb'.name := String.toList_inj.mp chars
  rw [inj_on_of_nodup_map snap.clusterRoleBindingsUnique held held' names]

theorem namespace_scan (snap : Snapshot) {ns : Segment} (named : ns.text ≠ "") {order : List String}
    (visited : order.Perm snap.index.bindingsBySubject.keys) :
    NamespaceScan snap ns (snap.index.bindingsInNamespace order ns) := by
  have start : (([] : List BindingRef).map fun ref => ref.kind.text ++ "/" ++ ref.name).Nodup :=
    nodup_nil
  rw [Index.bindingsInNamespace, if_neg named]
  constructor
  case roleBindings => exact namespace_roles snap named
  case clusterBindings =>
    intro ref
    constructor
    · intro member
      exact (mem_walk snap ns visited ref).mp (firsts_mem member)
    · rintro ⟨crb, held, rfl, account⟩
      have walked := (mem_walk snap ns visited crb.ref).mpr ⟨crb, held, rfl, account⟩
      obtain ⟨kept, member, same⟩ : ∃ kept ∈ firsts (fun ref : BindingRef =>
          ref.kind.text ++ "/" ++ ref.name) [] _, _ := firsts_covers [] walked
      obtain ⟨crb', held', rfl, _⟩ := (mem_walk snap ns visited kept).mp (firsts_mem member)
      rw [cluster_ref_key snap held held' same.symm]
      exact member
  case clusterOnce => exact List.Nodup.of_map _ (firsts_nodup start _)

end Namespaces

/-- The lookups of the index find what a scan over all bindings finds. -/
theorem index_matches_scan (snap : Snapshot) :
    (∀ s, MatchesScan snap s (snap.index.effectiveRules s).viaBindings) ∧
    ∀ ns : Segment, ns.text ≠ "" → ∀ order : List String, order.Perm snap.index.bindingsBySubject.keys →
        NamespaceScan snap ns (snap.index.bindingsInNamespace order ns) :=
  ⟨via_matches snap, fun _ named _ visited => namespace_scan snap named visited⟩

theorem shop_slashless : '/' ∉ "shop".toList := by decide

def robot : Subject := ⟨serviceAccountKind, ⟨"shop", shop_slashless⟩, "robot"⟩

/-- A cluster-wide binding that names a service account and a group it is in. -/
def twiceBound : Snapshot where
  roles := []
  clusterRoles := []
  roleBindings := []
  clusterRoleBindings := [
    some ⟨"robots", ⟨clusterRoleKind, "view"⟩, [robot, groupSubject "system:serviceaccounts"]⟩,
    some ⟨"everyone", ⟨clusterRoleKind, "view"⟩, [groupSubject "system:authenticated"]⟩]
  rolesUnique := by decide
  clusterRolesUnique := by decide
  roleBindingsUnique := by decide
  clusterRoleBindingsUnique := by decide

/-- One binding reaches the account twice, and a binding of everyone is in no namespace's list. -/
theorem binding_reached_twice :
    ((twiceBound.index.effectiveRules robot).viaBindings.map fun v => v.binding.name) =
        ["robots", "everyone", "robots"] ∧
      (twiceBound.index.bindingsInNamespace [robot.key, (groupSubject "system:serviceaccounts").key,
        (groupSubject "system:authenticated").key] robot.namespace_).clusterRoleBindingsWithLocalSubject.map
          BindingRef.name = ["robots"] := by
  decide +kernel

end Rbac
