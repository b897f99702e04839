import Radar.Rbac.ReverseIndex

/- What the flattened, capped list of a subject's rules keeps of them. -/
namespace Rbac
open Firsts GoText MultiMap List

section Cap
variable {max : Nat}

/-- The loop keeps the first rule of every signature, up to the cap. -/
theorem flatten_loop_eq {seen : List (List Char)} {out rules : List PolicyRule}
    (known : ∀ sig, sig ∈ seen ↔ sig ∈ out.map ruleSignature) (below : out.length < max) :
    flattenLoop max seen out rules = if max ≤ (firsts ruleSignature out rules).length then
        ((firsts ruleSignature out rules).take max, true)
      else (firsts ruleSignature out rules, false) := by
  induction rules generalizing seen out with
  | nil => rw [flattenLoop, firsts, if_neg (by omega)]
  | cons r rest ih =>
    rw [flattenLoop, firsts]
    by_cases dup : ruleSignature r ∈ seen
    · rw [if_pos dup, if_pos ((known _).mp dup)]
      exact ih known below
    · rw [if_neg dup, if_neg ((known _).not.mp dup)]
      by_cases full : max ≤ (out ++ [r]).length
      · obtain ⟨more, whole, _⟩ : ∃ more, firsts ruleSignature (out ++ [r]) rest =
            (out ++ [r]) ++ more ∧ more.Sublist rest := firsts_extends (out ++ [r]) rest
        have exact_ : (out ++ [r]).length = max := by
          rw [length_append, length_singleton] at full ⊢
          omega
        rw [if_pos full, whole, if_pos (by rw [length_append]; omega), ← exact_, take_left']
        rfl
      · rw [if_neg full]
        apply ih
        · intro sig
          rw [mem_cons, known, map_append, mem_append, map_singleton,
            mem_singleton, or_comm]
        · omega

theorem flatten_eq (via : List BindingRules) (room : 0 < max) : flatten via max =
      let distinct := firsts ruleSignature [] (via.flatMap BindingRules.rules)
      if max ≤ distinct.length then (distinct.take max, true) else (distinct, false) :=
  flatten_loop_eq (by simp) room

/-- Every flattened rule is granted by some binding. -/
theorem flatten_mem {via : List BindingRules} (room : 0 < max) {r : PolicyRule}
    (member : r ∈ (flatten via max).1) : ∃ b ∈ via, r ∈ b.rules := by
  rw [flatten_eq via room] at member
  have kept : r ∈ firsts ruleSignature [] (via.flatMap BindingRules.rules) := by
    dsimp only at member
    split at member
    · exact mem_of_mem_take member
    · exact member
  exact mem_flatMap.mp (firsts_mem kept)

/-- Where nothing was cut off, every granted rule has one of its signature. -/
theorem flatten_covers {via : List BindingRules} (room : 0 < max)
    (whole : (flatten via max).2 = false) {b : BindingRules} (member : b ∈ via) {r : PolicyRule}
    (granted : r ∈ b.rules) : ∃ f ∈ (flatten via max).1, ruleSignature f = ruleSignature r := by
  rw [flatten_eq via room] at whole ⊢
  dsimp only at whole ⊢
  by_cases full : max ≤ (firsts ruleSignature [] (via.flatMap BindingRules.rules)).length
  · rw [if_pos full] at whole
    exact absurd whole (by simp)
  · rw [if_neg full]
    exact firsts_covers [] (mem_flatMap.mpr ⟨b, member, granted⟩)

theorem truncated_iff (via : List BindingRules) (room : 0 < max) : (flatten via max).2 = true ↔
      max ≤ (firsts ruleSignature [] (via.flatMap BindingRules.rules)).length := by
  rw [flatten_eq via room]
  dsimp only
  split
  next full => simp [full]
  next short => simp [short]

end Cap

section Signature
variable {texts : List String} {a b : List String}

/-- A rule with each of its lists sorted. -/
def normalRule (r : PolicyRule) : PolicyRule :=
  ⟨sorted r.verbs, sorted r.apiGroups, sorted r.resources, sorted r.resourceNames, sorted r.nonResourceURLs⟩

/-- The two rules hold the same five sets. -/
structure SameSets (a b : PolicyRule) : Prop where
  verbs : ∀ text, text ∈ a.verbs ↔ text ∈ b.verbs
  apiGroups : ∀ text, text ∈ a.apiGroups ↔ text ∈ b.apiGroups
  resources : ∀ text, text ∈ a.resources ↔ text ∈ b.resources
  resourceNames : ∀ text, text ∈ a.resourceNames ↔ text ∈ b.resourceNames
  nonResourceURLs : ∀ text, text ∈ a.nonResourceURLs ↔ text ∈ b.nonResourceURLs

/-- A rule whose texts hold no comma and no bar, of which only an API group is empty, and which
    names API groups exactly if it names resources. -/
structure Plain (r : PolicyRule) : Prop where
  separable : ∀ text ∈ r.verbs ++ r.apiGroups ++ r.resources ++ r.resourceNames ++ r.nonResourceURLs,
    ',' ∉ text.toList ∧ '|' ∉ text.toList
  named : ∀ text ∈ r.verbs ++ r.resources ++ r.resourceNames ++ r.nonResourceURLs, text ≠ ""
  grouped : r.apiGroups = [] ↔ r.resources = []

theorem mem_sorted {text : String} : text ∈ sorted texts ↔ text ∈ texts := by
  simp [sorted]

theorem sorted_empty : sorted texts = [] ↔ texts = [] := by
  rw [← length_eq_zero_iff, ← length_eq_zero_iff, sorted, length_mergeSort]

theorem texts_inj (same : a.map String.toList = b.map String.toList) : a = b :=
  (map_injective_iff.mpr fun _ _ => String.toList_inj.mp) same

theorem sorted_pieces {P : List Char → Prop} (plain : ∀ text ∈ texts, P text.toList) :
    ∀ piece ∈ (sorted texts).map String.toList, P piece := by
  intro piece member
  obtain ⟨text, listed, same⟩ := mem_map.mp member
  rw [← same]
  exact plain text (mem_sorted.mp listed)

theorem write_barless (plain : ∀ text ∈ texts, '|' ∉ text.toList) : '|' ∉ writeSorted texts := by
  exact join_lacks (by decide) (sorted_pieces plain)

theorem write_inj (plain : ∀ text ∈ a, text ≠ "" ∧ ',' ∉ text.toList)
    (plain' : ∀ text ∈ b, text ≠ "" ∧ ',' ∉ text.toList) (same : writeSorted a = writeSorted b) :
    sorted a = sorted b := by
  have pieces : ∀ {texts : List String}, (∀ text ∈ texts, text ≠ "" ∧ ',' ∉ text.toList) →
      ∀ piece ∈ (sorted texts).map String.toList, piece ≠ [] ∧ ',' ∉ piece := fun plain =>
    sorted_pieces fun text listed => (plain text listed).imp_left fun some => by simpa using some
  exact texts_inj (join_pieces_inj (pieces plain) (pieces plain') same)

/-- Lists that may hold the empty text lose nothing either unless they are empty themselves. -/
theorem write_some_inj (empty : a = [] ↔ b = [])
    (plain : ∀ text ∈ a, ',' ∉ text.toList) (plain' : ∀ text ∈ b, ',' ∉ text.toList)
    (same : writeSorted a = writeSorted b) : sorted a = sorted b := by
  by_cases none : a = []
  · rw [none, empty.mp none]
  · have some : ∀ {texts : List String}, texts ≠ [] → (sorted texts).map String.toList ≠ [] := by
      intro texts some none
      exact some (sorted_empty.mp (map_eq_nil_iff.mp none))
    exact texts_inj (join_some_inj (some none) (some (empty.not.mp none)) (sorted_pieces plain)
      (sorted_pieces plain') same)

/-- Plain rules have one signature exactly if they hold the same texts in each list. -/
theorem signature_eq_iff {a b : PolicyRule} (plain : Plain a) (plain' : Plain b) :
    ruleSignature a = ruleSignature b ↔ normalRule a = normalRule b := by
  constructor
  · intro same
    have barless : ∀ {r : PolicyRule}, Plain r → ∀ piece ∈ [writeSorted r.verbs,
        writeSorted r.apiGroups, writeSorted r.resources, writeSorted r.resourceNames,
        writeSorted r.nonResourceURLs], '|' ∉ piece := by
      intro r plain piece member
      have texts := plain.separable
      simp only [mem_append, or_imp, forall_and] at texts
      simp only [mem_cons, not_mem_nil, or_false] at member
      rcases member with rfl | rfl | rfl | rfl | rfl
      all_goals apply write_barless
      · exact texts.2.1.1.1.1
      · exact texts.2.1.1.1.2
      · exact texts.2.1.1.2
      · exact texts.2.1.2
      · exact texts.2.2
    have parts := join_some_inj (cons_ne_nil _ _) (cons_ne_nil _ _) (barless plain)
      (barless plain') same
    simp only [cons.injEq, and_true] at parts
    obtain ⟨verbs, groups, resources, names, urls⟩ := parts
    have texts := plain.separable
    have texts' := plain'.separable
    have named := plain.named
    have named' := plain'.named
    simp only [mem_append, or_imp, forall_and] at texts texts' named named'
    have sameVerbs := write_inj (fun t m => ⟨named.1.1.1 t m, texts.1.1.1.1.1 t m⟩)
      (fun t m => ⟨named'.1.1.1 t m, texts'.1.1.1.1.1 t m⟩) verbs
    have sameResources := write_inj (fun t m => ⟨named.1.1.2 t m, texts.1.1.1.2 t m⟩)
      (fun t m => ⟨named'.1.1.2 t m, texts'.1.1.1.2 t m⟩) resources
    have sameNames := write_inj (fun t m => ⟨named.1.2 t m, texts.1.1.2 t m⟩)
      (fun t m => ⟨named'.1.2 t m, texts'.1.1.2 t m⟩) names
    have sameUrls := write_inj (fun t m => ⟨named.2 t m, texts.1.2 t m⟩)
      (fun t m => ⟨named'.2 t m, texts'.1.2 t m⟩) urls
    have empty : a.apiGroups = [] ↔ b.apiGroups = [] := by
      rw [plain.grouped, plain'.grouped, ← sorted_empty, sameResources, sorted_empty]
    have sameGroups := write_some_inj empty texts.1.1.1.1.2 texts'.1.1.1.1.2 groups
    rw [normalRule, normalRule, sameVerbs, sameGroups, sameResources, sameNames, sameUrls]
  · intro same
    simp only [normalRule, PolicyRule.mk.injEq] at same
    obtain ⟨verbs, groups, resources, names, urls⟩ := same
    simp only [ruleSignature, writeSorted, verbs, groups, resources, names, urls]

theorem normal_same_sets {a b : PolicyRule} (same : normalRule a = normalRule b) : SameSets a b := by
  simp only [normalRule, PolicyRule.mk.injEq] at same
  have members : ∀ {x y : List String}, sorted x = sorted y → ∀ text, text ∈ x ↔ text ∈ y := by
    intro x y same text
    rw [← mem_sorted, same, mem_sorted]
  exact ⟨members same.1, members same.2.1, members same.2.2.1, members same.2.2.2.1, members same.2.2.2.2⟩

end Signature

/-- How many different rules the bindings grant. -/
def distinctRules (via : List BindingRules) : Nat :=
  ((via.flatMap BindingRules.rules).map normalRule).dedup.length

theorem distinct_signatures (idx : Index) (s : Subject)
    (plain : ∀ b ∈ (idx.effectiveRules s).viaBindings, ∀ r ∈ b.rules, Plain r) :
    (firsts ruleSignature [] ((idx.viaBindings s).flatMap BindingRules.rules)).length =
      distinctRules (idx.effectiveRules s).viaBindings := by
  rw [distinctRules, ← firsts_length]
  apply congrArg length
  apply firsts_congr
  intro a first b second
  rw [nil_append, mem_flatMap] at first second
  obtain ⟨v, listed, granted⟩ := first
  obtain ⟨v', listed', granted'⟩ := second
  exact signature_eq_iff (plain v listed a granted) (plain v' listed' b granted')

/-- The flat list adds no rule; of plain rules it loses none, and is cut off when more are granted
    than fit. -/
theorem effective_rules_complete (idx : Index) (s : Subject) : (∀ f ∈ (idx.effectiveRules s).flat,
      ∃ b ∈ (idx.effectiveRules s).viaBindings, f ∈ b.rules) ∧
    ((∀ b ∈ (idx.effectiveRules s).viaBindings, ∀ r ∈ b.rules, Plain r) →
      ((idx.effectiveRules s).truncated = false → ∀ b ∈ (idx.effectiveRules s).viaBindings, ∀ r ∈ b.rules,
          ∃ f ∈ (idx.effectiveRules s).flat, SameSets f r) ∧
      (maxFlatRules < distinctRules (idx.effectiveRules s).viaBindings →
        (idx.effectiveRules s).truncated = true) ∧
      (distinctRules (idx.effectiveRules s).viaBindings < maxFlatRules →
        (idx.effectiveRules s).truncated = false)) := by
  have room : 0 < maxFlatRules := by decide
  refine ⟨fun f member => flatten_mem room member, ?_⟩
  intro plain
  have count := distinct_signatures idx s plain
  refine ⟨?_, ?_, ?_⟩
  · intro whole b member r granted
    obtain ⟨f, kept, same⟩ := flatten_covers room whole member granted
    obtain ⟨v, listed, granted'⟩ := flatten_mem room kept
    have normal := (signature_eq_iff (plain v listed f granted') (plain b member r granted)).mp same
    exact ⟨f, kept, normal_same_sets normal⟩
  · intro more
    apply (truncated_iff (idx.viaBindings s) room).mpr
    rw [count]
    exact Nat.le_of_lt more
  · intro fewer
    rw [← Bool.not_eq_true]
    intro truncated
    have full := (truncated_iff (idx.viaBindings s) room).mp truncated
    rw [count] at full
    exact absurd fewer (not_lt.mpr full)

/-- The flag is already set when the rules just fit. -/
theorem truncated_at_cap (idx : Index) (s : Subject)
    (plain : ∀ b ∈ (idx.effectiveRules s).viaBindings, ∀ r ∈ b.rules, Plain r)
    (fits : distinctRules (idx.effectiveRules s).viaBindings = maxFlatRules) :
    (idx.effectiveRules s).truncated = true := by
  apply (truncated_iff (idx.viaBindings s) (by decide)).mpr
  rw [distinct_signatures idx s plain]
  exact Nat.le_of_eq fits.symm

def bob : Subject := ⟨⟨"User", by decide⟩, noNamespace, "bob"⟩

theorem blue_slashless : '/' ∉ "blue".toList := by decide

theorem green_slashless : '/' ∉ "green".toList := by decide

def blue : Segment := ⟨"blue", blue_slashless⟩

def green : Segment := ⟨"green", green_slashless⟩

/-- A rule for one pod; the pods are called a, aa, aaa and so on. -/
def podRule (n : Nat) : PolicyRule :=
  ⟨["get"], [""], ["pods"], [String.ofList (List.replicate (n + 1) 'a')], []⟩

/-- The rules of one ClusterRole, granted to bob in each of the namespaces. -/
def boundIndex (rules : List PolicyRule) (namespaces : List Segment) : Index :=
  buildIndex [] [some ⟨"view", rules⟩]
    (namespaces.map fun ns => some ⟨ns, "viewers", ⟨clusterRoleKind, "view"⟩, [bob]⟩) []

theorem bound_rules (rules : List PolicyRule) :
    ((boundIndex rules [blue]).viaBindings bob).flatMap BindingRules.rules = rules := by
  have subjects : (boundIndex rules [blue]).bindingsBySubject =
      push ∅ bob.key ⟨roleBindingKind, blue, "viewers", clusterRoleKind, noNamespace, "view"⟩ := rfl
  have roles : (boundIndex rules [blue]).clusterRolesByKey =
      (∅ : AList fun _ : String => ClusterRole).insert
        (keyOf clusterRoleKind noNamespace "view") ⟨"view", rules⟩ := rfl
  have user : bob.kind ≠ serviceAccountKind := by decide
  have kinds : clusterRoleKind ≠ roleKind := by decide
  rw [Index.viaBindings, if_neg user, subjects, values_push, if_pos rfl, values_empty,
    nil_append, map_singleton, flatMap_singleton, Index.expand, Index.rulesOf,
    if_neg kinds, if_pos rfl, roles, RoleRef.key, AList.lookup_insert]
  rfl

theorem pod_rule_plain (n : Nat) : Plain (podRule n) := by
  constructor
  · intro text member
    have listed : text ∈ ["get", "", "pods", String.ofList (replicate (n + 1) 'a')] := member
    simp only [mem_cons, not_mem_nil, or_false] at listed
    rcases listed with rfl | rfl | rfl | rfl
    · decide
    · decide
    · decide
    · simp
  · intro text member
    have listed : text ∈ ["get", "pods", String.ofList (replicate (n + 1) 'a')] := member
    simp only [mem_cons, not_mem_nil, or_false] at listed
    rcases listed with rfl | rfl | rfl
    · decide
    · decide
    · rw [Ne, ← String.toList_inj]
      simp
  · simp [podRule]

theorem pod_rules_distinct (count : Nat) :
    (((range count).map podRule).map normalRule).dedup.length = count := by
  have injective : Function.Injective (normalRule ∘ podRule) := by
    intro m n same
    have names : sorted (podRule m).resourceNames = sorted (podRule n).resourceNames :=
      congrArg PolicyRule.resourceNames same
    simp only [podRule, sorted, mergeSort_singleton, cons.injEq, and_true] at names
    have lengths := congrArg (fun name : String => name.toList.length) names
    simpa using lengths
  rw [map_map, List.Nodup.dedup (List.Nodup.map injective nodup_range), length_map,
    length_range]

theorem bound_pods_plain (count : Nat) :
    ∀ b ∈ ((boundIndex ((range count).map podRule) [blue]).effectiveRules bob).viaBindings,
      ∀ r ∈ b.rules, Plain r := by
  intro b member r granted
  have only : r ∈ ((boundIndex ((range count).map podRule) [blue]).viaBindings bob).flatMap
      BindingRules.rules := mem_flatMap.mpr ⟨b, member, granted⟩
  rw [bound_rules] at only
  obtain ⟨n, _, rfl⟩ := mem_map.mp only
  exact pod_rule_plain n

/-- Two namespaces share one flat rule, and as many rules as fit are called truncated. -/
theorem flat_rules_lossy : (((boundIndex [podRule 0] [blue, green]).effectiveRules bob).truncated = false ∧
      ¬ ∃ scope : PolicyRule → String,
        ∀ b ∈ ((boundIndex [podRule 0] [blue, green]).effectiveRules bob).viaBindings,
          ∀ r ∈ b.rules, ∃ f ∈ ((boundIndex [podRule 0] [blue, green]).effectiveRules bob).flat,
            SameSets f r ∧ scope f = b.scopeNamespace) ∧
    distinctRules ((boundIndex ((range maxFlatRules).map podRule) [blue]).effectiveRules
        bob).viaBindings = maxFlatRules ∧
      ((boundIndex ((range maxFlatRules).map podRule) [blue]).effectiveRules bob).truncated =
        true := by
  have fits : distinctRules ((boundIndex ((range maxFlatRules).map podRule)
      [blue]).effectiveRules bob).viaBindings = maxFlatRules := by
    unfold distinctRules Index.effectiveRules
    dsimp only
    rw [bound_rules, pod_rules_distinct]
  refine ⟨⟨by decide +kernel, ?_⟩, fits, truncated_at_cap _ _ (bound_pods_plain maxFlatRules) fits⟩
  rintro ⟨scope, within⟩
  have single : ((boundIndex [podRule 0] [blue, green]).effectiveRules bob).flat = [podRule 0] := by
    decide +kernel
  have grants : ∀ ns ∈ ["blue", "green"],
      ∃ b ∈ ((boundIndex [podRule 0] [blue, green]).effectiveRules bob).viaBindings,
        podRule 0 ∈ b.rules ∧ b.scopeNamespace = ns := by
    decide +kernel
  have scopes : ∀ ns ∈ ["blue", "green"], scope (podRule 0) = ns := by
    intro ns listed
    obtain ⟨b, member, granted, rfl⟩ := grants ns listed
    obtain ⟨f, kept, _, same⟩ := within b member (podRule 0) granted
    rw [single, mem_singleton] at kept
    rw [← kept, same]
  have first := scopes "blue" (by simp)
  have second := scopes "green" (by simp)
  rw [first] at second
  exact absurd second (by decide)

theorem blue_pods_complete :
    ∀ b ∈ ((boundIndex ((range 1).map podRule) [blue]).effectiveRules bob).viaBindings, ∀ r ∈ b.rules,
        ∃ f ∈ ((boundIndex ((range 1).map podRule) [blue]).effectiveRules bob).flat, SameSets f r :=
  ((effective_rules_complete _ _).2 (bound_pods_plain 1)).1 (by decide +kernel)

end Rbac
