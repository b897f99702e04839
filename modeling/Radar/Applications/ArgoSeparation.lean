import Radar.Applications.Components

/- When workloads of different Argo CD Applications are rows of their own. -/
namespace Applications
open GoText Overlay Partition List

/-- An Application; Kubernetes lets no slash into a namespace or a name. -/
structure ArgoRef where
  namespace_ : String
  name : String
  housed : namespace_ ≠ ""
  named : name ≠ ""
  namespaceSlashless : '/' ∉ namespace_.toList
  nameSlashless : '/' ∉ name.toList

variable {app app' : ArgoRef} {obj : ObjectMeta}

def ArgoRef.key (app : ArgoRef) : String := app.namespace_ ++ "/Application/" ++ app.name

/-- The key of a reference that does not say the namespace. -/
def ArgoRef.bareKey (app : ArgoRef) : String := "/Application/" ++ app.name

def Unmarked (key : String) : Prop := cutAround applicationMarker key.toList = none

/-- What Argo CD left on the workload speaks of this Application, once with its namespace. -/
structure ManagedBy (input : AppWorkloadInput) (app : ArgoRef) : Prop where
  root : (input.rootKind = "Application" ∧ input.rootKey = app.key) ∨
    (input.rootKind ≠ "Application" ∧ Unmarked input.rootKey)
  overlay : ∀ o, input.overlay = some o →
    o.winner.key = app.key ∨ o.winner.key = app.bareKey ∨ Unmarked o.winner.key
  carried : input.rootKind = "Application" ∨ ∃ o, input.overlay = some o ∧ o.winner.key = app.key

section Marker

theorem cut_around_eq {marker text before after : List Char}
    (found : cutAround marker text = some (before, after)) : text = before ++ marker ++ after := by
  induction text generalizing before after with
  | nil =>
    unfold cutAround at found
    split at found
    next empty =>
      obtain ⟨rfl, rfl⟩ := Prod.mk.inj (Option.some.inj found)
      rw [empty]
      rfl
    next => exact absurd found (by simp)
  | cons c rest ih =>
    unfold cutAround at found
    split at found
    next here =>
      obtain ⟨rfl, rfl⟩ := Prod.mk.inj (Option.some.inj found)
      obtain ⟨tail, whole⟩ := isPrefixOf_iff_prefix.mp here
      rw [← whole, drop_left, nil_append]
    next =>
      obtain ⟨⟨before', after'⟩, inner, same⟩ := Option.map_eq_some_iff.mp found
      obtain ⟨rfl, rfl⟩ := Prod.mk.inj same
      rw [ih inner]
      rfl

theorem cut_around_skip {c : Char} (plain : c ≠ '/') (rest : List Char) :
    cutAround applicationMarker (c :: rest) =
      (cutAround applicationMarker rest).map fun parts => (c :: parts.1, parts.2) := by
  have apart : applicationMarker.isPrefixOf (c :: rest) = false := by
    rw [← Bool.not_eq_true, isPrefixOf_iff_prefix]
    rintro ⟨tail, whole⟩
    exact plain (cons.inj whole).1.symm
  rw [cutAround, apart]
  rfl

/-- The marker holds two slashes. -/
theorem cut_around_none {text : List Char} (few : text.count '/' < 2) :
    cutAround applicationMarker text = none := by
  cases found : cutAround applicationMarker text with
  | none => rfl
  | some parts =>
    rw [cut_around_eq found, count_append, count_append] at few
    have two : applicationMarker.count '/' = 2 := by decide
    omega

/-- A key of namespace, kind and name holds the marker exactly if the kind is Application. -/
theorem cut_around_key {ns kind name : List Char} (plain : '/' ∉ ns) (plain' : '/' ∉ kind)
    (plain'' : '/' ∉ name) : cutAround applicationMarker (ns ++ '/' :: (kind ++ '/' :: name)) =
      if kind = "Application".toList then some (ns, name) else none := by
  induction ns with
  | nil =>
    have marker : applicationMarker = '/' :: ("Application".toList ++ '/' :: []) := by decide
    have here : applicationMarker.isPrefixOf ('/' :: (kind ++ '/' :: name)) = true ↔
        kind = "Application".toList := by
      rw [List.isPrefixOf_iff_prefix, marker]
      constructor
      · rintro ⟨tail, whole⟩
        rw [cons_append, append_assoc, cons.injEq] at whole
        exact (sep_inj (by decide) plain' whole.2).1.symm
      · rintro rfl
        exact ⟨name, by simp⟩
    rw [nil_append, cutAround]
    by_cases application : kind = "Application".toList
    · rw [if_pos (here.mpr application), if_pos application, application]
      rfl
    · rw [if_neg (here.not.mpr application), if_neg application, cut_around_none]
      · rfl
      · rw [count_append, count_cons_self, count_eq_zero.mpr plain',
          count_eq_zero.mpr plain'']
        omega
  | cons c rest ih =>
    have other : c ≠ '/' := fun same => plain (same ▸ mem_cons_self)
    rw [cons_append, cut_around_skip other, ih fun member => plain (mem_cons_of_mem c member)]
    split <;> rfl

end Marker

section Keys

theorem argo_ref_ext (namespaces : app.namespace_ = app'.namespace_) (names : app.name = app'.name) :
    app = app' := by
  obtain ⟨⟩ := app
  obtain ⟨⟩ := app'
  simp_all

theorem parts_key (app : ArgoRef) :
    applicationParts "Application" app.key = some (app.namespace_, app.name) := by
  have chars : app.key.toList = app.namespace_.toList ++
      '/' :: ("Application".toList ++ '/' :: app.name.toList) := by
    simp [ArgoRef.key, String.toList_append]
  have filled : ¬ (app.name.toList = [] ∨ '/' ∈ app.name.toList) := by
    rw [not_or]
    exact ⟨by simpa using app.named, app.nameSlashless⟩
  unfold applicationParts
  rw [chars, cut_around_key app.namespaceSlashless (by decide) app.nameSlashless, if_pos rfl]
  dsimp only
  rw [if_neg filled, String.ofList_toList, String.ofList_toList]
  rfl

theorem parts_bare_key (app : ArgoRef) :
    applicationParts "Application" app.bareKey = some ("", app.name) := by
  have chars : app.bareKey.toList = [] ++ '/' :: ("Application".toList ++ '/' :: app.name.toList) := by
    simp [ArgoRef.bareKey, String.toList_append]
  have filled : ¬ (app.name.toList = [] ∨ '/' ∈ app.name.toList) := by
    rw [not_or]
    exact ⟨by simpa using app.named, app.nameSlashless⟩
  unfold applicationParts
  rw [chars, cut_around_key not_mem_nil (by decide) app.nameSlashless, if_pos rfl]
  dsimp only
  rw [if_neg filled, String.ofList_toList]
  rfl

theorem parts_unmarked {key : String} (unmarked : Unmarked key) (kind : String) :
    applicationParts kind key = none := by
  unfold applicationParts
  rw [unmarked]
  split <;> rfl

theorem key_inj (same : app.key = app'.key) : app = app' := by
  have parts := parts_key app
  rw [same, parts_key, Option.some.injEq, Prod.mk.injEq] at parts
  exact argo_ref_ext parts.1.symm parts.2.symm

theorem key_ne_bare_key : app.key ≠ app'.bareKey := by
  intro same
  have parts := parts_key app
  rw [same, parts_bare_key, Option.some.injEq, Prod.mk.injEq] at parts
  exact app.housed parts.1.symm

theorem key_marked (app : ArgoRef) : ¬ Unmarked app.key := by
  intro unmarked
  have parts := parts_key app
  rw [parts_unmarked unmarked] at parts
  exact absurd parts (by simp)

theorem bare_key_marked (app : ArgoRef) : ¬ Unmarked app.bareKey := by
  intro unmarked
  have parts := parts_bare_key app
  rw [parts_unmarked unmarked] at parts
  exact absurd parts (by simp)

end Keys

section Atoms
variable {inputs : List AppWorkloadInput} {ref : AppWorkloadInput → ArgoRef}

def fullAtom (app : ArgoRef) : String := "A:application:" ++ app.namespace_ ++ "/" ++ app.name

def nameAtom (app : ArgoRef) : String := "A:application:" ++ app.name

theorem full_atom_text (app : ArgoRef) :
    fullAtom app = "A:application:" ++ app.namespace_ ++ "/" ++ app.name := rfl

theorem name_atom_text (app : ArgoRef) : nameAtom app = "A:application:" ++ app.name := rfl

theorem full_atom_inj (same : fullAtom app = fullAtom app') : app = app' := by
  have chars := congrArg String.toList same
  simp only [full_atom_text, String.toList_append, append_assoc, append_cancel_left_eq] at chars
  obtain ⟨namespaces, names⟩ := sep_inj app.namespaceSlashless app'.namespaceSlashless chars
  exact argo_ref_ext (String.toList_inj.mp namespaces) (String.toList_inj.mp names)

theorem name_atom_inj (same : nameAtom app = nameAtom app') : app.name = app'.name := by
  have chars := congrArg String.toList same
  simp only [name_atom_text, String.toList_append, append_cancel_left_eq] at chars
  exact String.toList_inj.mp chars

theorem full_atom_ne_name : fullAtom app ≠ nameAtom app' := by
  intro same
  have chars := congrArg String.toList same
  simp only [full_atom_text, name_atom_text, String.toList_append, append_assoc,
    append_cancel_left_eq] at chars
  apply app'.nameSlashless
  rw [← chars]
  exact mem_append_right _ mem_cons_self

/-- The atom of an overlay's own key. -/
def overlayAtom (o : AppOverlay) : String := "O:" ++ o.winner.key

theorem mem_canonical {kind key atom : String} {apps : List (String × String)} {ns name : String}
    (parts : applicationParts kind key = some (ns, name)) :
    atom ∈ argoCanonicalAtoms kind key apps ↔ (ns ≠ "" ∧ atom = "A:application:" ++ ns ++ "/" ++ name) ∨
        (ambiguous apps name = false ∧ atom = "A:application:" ++ name) := by
  unfold argoCanonicalAtoms
  rw [parts]
  dsimp only
  rw [mem_append]
  refine or_congr ?_ ?_
  · split
    next some => simp [some]
    next none => simp [none]
  · split
    next many => simp [many]
    next one => simp [one]

theorem canonical_unmarked {key : String} (unmarked : Unmarked key) (kind : String)
    (apps : List (String × String)) : argoCanonicalAtoms kind key apps = [] := by
  rw [argoCanonicalAtoms, parts_unmarked unmarked]

/-- An atom of a managed workload is of its root, of its overlay or of its Application. -/
theorem managed_atom {input : AppWorkloadInput} {app : ArgoRef} (managed : ManagedBy input app)
    {atom : String} (own : atom ∈ atomsAmong inputs input) :
    atom = rootAtom input ∨ (∃ o, input.overlay = some o ∧ atom = overlayAtom o) ∨ atom = fullAtom app ∨
      (atom = nameAtom app ∧ ambiguous (argoApplicationNamespaces inputs) app.name = false) := by
  have keyed : ∀ {kind key}, applicationParts kind key = some (app.namespace_, app.name) ∨
      applicationParts kind key = some ("", app.name) →
      atom ∈ argoCanonicalAtoms kind key (argoApplicationNamespaces inputs) →
        atom = fullAtom app ∨ (atom = nameAtom app ∧
          ambiguous (argoApplicationNamespaces inputs) app.name = false) := by
    rintro kind key (parts | parts) member
    · rcases (mem_canonical parts).mp member with ⟨_, same⟩ | ⟨sole, same⟩
      · exact Or.inl same
      · exact Or.inr ⟨same, sole⟩
    · rcases (mem_canonical parts).mp member with ⟨some, _⟩ | ⟨sole, same⟩
      · exact absurd rfl some
      · exact Or.inr ⟨same, sole⟩
  rcases mem_cons.mp own with root | later
  · exact Or.inl root
  · rcases mem_append.mp later with ofRoot | ofOverlay
    · rcases managed.root with ⟨kind, key⟩ | ⟨_, unmarked⟩
      · rw [kind, key] at ofRoot
        exact Or.inr (Or.inr (keyed (Or.inl (parts_key app)) ofRoot))
      · rw [canonical_unmarked unmarked] at ofRoot
        exact absurd ofRoot not_mem_nil
    · cases overlay : input.overlay with
      | none =>
        rw [overlay] at ofOverlay
        exact absurd ofOverlay not_mem_nil
      | some o =>
        rw [overlay] at ofOverlay
        rcases mem_cons.mp ofOverlay with key | canonical
        · exact Or.inr (Or.inl ⟨o, rfl, key⟩)
        · rcases managed.overlay o overlay with full | bare | unmarked
          · rw [full] at canonical
            exact Or.inr (Or.inr (keyed (Or.inl (parts_key app)) canonical))
          · rw [bare] at canonical
            exact Or.inr (Or.inr (keyed (Or.inr (parts_bare_key app)) canonical))
          · rw [canonical_unmarked unmarked] at canonical
            exact absurd canonical not_mem_nil

theorem managed_concrete {input : AppWorkloadInput} {app : ArgoRef} (managed : ManagedBy input app)
    (member : input ∈ inputs) :
    (app.namespace_, app.name) ∈ argoApplicationNamespaces inputs := by
  rw [argoApplicationNamespaces, mem_dedup, mem_flatMap]
  refine ⟨input, member, mem_filter.mpr ⟨mem_append.mpr ?_, ?_⟩⟩
  · rcases managed.carried with kind | ⟨o, overlay, key⟩
    · left
      rcases managed.root with ⟨_, key⟩ | ⟨other, _⟩
      · rw [kind, key, parts_key]
        exact mem_singleton_self _
      · exact absurd kind other
    · right
      rw [overlay, Option.bind_some, key, parts_key]
      exact mem_singleton_self _
  · exact decide_eq_true app.housed

/-- A name that belongs to two Applications of the list is ambiguous. -/
theorem ambiguous_of_two {a b : AppWorkloadInput} (managed : ManagedBy a app)
    (managed' : ManagedBy b app') (first : a ∈ inputs) (second : b ∈ inputs)
    (names : app.name = app'.name) (apart : app ≠ app') :
    ambiguous (argoApplicationNamespaces inputs) app.name = true := by
  have held : (app.namespace_, app.name) ∈ (argoApplicationNamespaces inputs).filter
      fun pair => decide (pair.2 = app.name) :=
    mem_filter.mpr ⟨managed_concrete managed first, decide_eq_true rfl⟩
  have held' : (app'.namespace_, app'.name) ∈ (argoApplicationNamespaces inputs).filter
      fun pair => decide (pair.2 = app.name) :=
    mem_filter.mpr ⟨managed_concrete managed' second, decide_eq_true names.symm⟩
  apply decide_eq_true
  by_contra few
  have one : ((argoApplicationNamespaces inputs).filter
      fun pair => decide (pair.2 = app.name)).length = 1 := by
    have some := length_pos_of_mem held
    omega
  obtain ⟨only, single⟩ := length_eq_one_iff.mp one
  rw [single, mem_singleton] at held held'
  have same := held.trans held'.symm
  exact apart (argo_ref_ext (Prod.mk.inj same).1 names)

end Atoms

/-- Evidence that is not of Argo CD: a common root or overlay of another kind. -/
def OtherEvidence (a b : AppWorkloadInput) : Prop :=
  (a.rootKind ≠ "Application" ∧ b.rootKind ≠ "Application" ∧ a.rootKey = b.rootKey) ∨
    ∃ o p, a.overlay = some o ∧ b.overlay = some p ∧ o.winner.key = p.winner.key ∧ Unmarked o.winner.key

/-- A chain of workloads of one Application each, or with other evidence in common. -/
def Linked (inputs : List AppWorkloadInput) (ref : AppWorkloadInput → ArgoRef) :
    AppWorkloadInput → AppWorkloadInput → Prop :=
  Relation.EqvGen fun a b => a ∈ inputs ∧ b ∈ inputs ∧ (ref a = ref b ∨ OtherEvidence a b)

/-- Both have an overlay that speaks of one name in no namespace, but are of two Applications. -/
structure ShareBareLabel (ref : AppWorkloadInput → ArgoRef) (a b : AppWorkloadInput) : Prop where
  apart : ref a ≠ ref b
  names : (ref a).name = (ref b).name
  first : ∃ o, a.overlay = some o ∧ o.winner.key = (ref a).bareKey
  second : ∃ o, b.overlay = some o ∧ o.winner.key = (ref b).bareKey

def SameRow (inputs : List AppWorkloadInput) (a b : AppWorkloadInput) : Prop :=
  ∃ g ∈ components inputs, a ∈ g ∧ b ∈ g

section Step
variable {inputs : List AppWorkloadInput} {ref : AppWorkloadInput → ArgoRef}
variable {a b : AppWorkloadInput}

theorem same_row_iff : SameRow inputs a b ↔ a ∈ inputs ∧ b ∈ inputs ∧ Connected inputs a b :=
  same_group_iff (Relation.EqvGen.is_equivalence _) (components_grouped inputs)

theorem root_atom_shared (managed : ManagedBy a app)
    (managed' : ManagedBy b app') (same : rootAtom a = rootAtom b) :
    app = app' ∨ OtherEvidence a b := by
  have keys : a.rootKey = b.rootKey := by
    have chars := congrArg String.toList same
    simp only [rootAtom, String.toList_append, append_cancel_left_eq] at chars
    exact String.toList_inj.mp chars
  rcases managed.root with ⟨_, key⟩ | ⟨kind, unmarked⟩
  · rcases managed'.root with ⟨_, key'⟩ | ⟨_, unmarked'⟩
    · exact Or.inl (key_inj (key.symm.trans (keys.trans key')))
    · rw [← keys, key] at unmarked'
      exact absurd unmarked' (key_marked app)
  · rcases managed'.root with ⟨_, key'⟩ | ⟨kind', _⟩
    · rw [keys, key'] at unmarked
      exact absurd unmarked (key_marked app')
    · exact Or.inr (Or.inl ⟨kind, kind', keys⟩)

theorem overlay_atom_shared (managed : ManagedBy a (ref a)) (managed' : ManagedBy b (ref b))
    {o p : AppOverlay} (overlay : a.overlay = some o) (overlay' : b.overlay = some p)
    (same : overlayAtom o = overlayAtom p) :
    ref a = ref b ∨ OtherEvidence a b ∨ ShareBareLabel ref a b := by
  have keys : o.winner.key = p.winner.key := by
    have chars := congrArg String.toList same
    simp only [overlayAtom, String.toList_append, append_cancel_left_eq] at chars
    exact String.toList_inj.mp chars
  rcases managed.overlay o overlay with full | bare | unmarked
  · rcases managed'.overlay p overlay' with full' | bare' | unmarked'
    · exact Or.inl (key_inj (full.symm.trans (keys.trans full')))
    · exact absurd (full.symm.trans (keys.trans bare')) key_ne_bare_key
    · rw [← keys, full] at unmarked'
      exact absurd unmarked' (key_marked _)
  · rcases managed'.overlay p overlay' with full' | bare' | unmarked'
    · exact absurd (full'.symm.trans (keys.symm.trans bare)) key_ne_bare_key
    · by_cases apart : ref a = ref b
      · exact Or.inl apart
      · have names : (ref a).name = (ref b).name := by
          have parts := parts_bare_key (ref a)
          rw [← bare, keys, bare', parts_bare_key, Option.some.injEq, Prod.mk.injEq] at parts
          exact parts.2.symm
        exact Or.inr (Or.inr ⟨apart, names, ⟨o, overlay, bare⟩, ⟨p, overlay', bare'⟩⟩)
    · rw [← keys, bare] at unmarked'
      exact absurd unmarked' (bare_key_marked _)
  · exact Or.inr (Or.inl (Or.inr ⟨o, p, overlay, overlay', keys, unmarked⟩))

theorem kinds_apart {p q s t : String} (other : p.toList.head? ≠ q.toList.head?) (given : p ≠ "")
    (given' : q ≠ "") : p ++ s ≠ q ++ t := by
  intro same
  have heads : (p ++ s).toList.head? = (q ++ t).toList.head? := by rw [same]
  rw [String.toList_append, String.toList_append, head?_append_of_ne_nil _ (by simpa using given),
    head?_append_of_ne_nil _ (by simpa using given')] at heads
  exact other heads

/-- What two managed workloads with a common atom have in common. -/
theorem shared_atom (managed : ∀ input ∈ inputs, ManagedBy input (ref input))
    (shares : SharesAtom inputs a b) :
    ref a = ref b ∨ OtherEvidence a b ∨ ShareBareLabel ref a b := by
  obtain ⟨first, second, atom, own, own'⟩ := shares
  have rootOverlay : ∀ (input : AppWorkloadInput) (o : AppOverlay), rootAtom input ≠ overlayAtom o := by
    intro input o
    exact kinds_apart (by decide) (by decide) (by decide)
  have rootArgo : ∀ (input : AppWorkloadInput) (app : ArgoRef),
      rootAtom input ≠ fullAtom app ∧ rootAtom input ≠ nameAtom app := by
    intro input app
    rw [full_atom_text, String.append_assoc, String.append_assoc]
    exact ⟨kinds_apart (by decide) (by decide) (by decide), kinds_apart (by decide) (by decide) (by decide)⟩
  have overlayArgo : ∀ (o : AppOverlay) (app : ArgoRef),
      overlayAtom o ≠ fullAtom app ∧ overlayAtom o ≠ nameAtom app := by
    intro o app
    rw [full_atom_text, String.append_assoc, String.append_assoc]
    exact ⟨kinds_apart (by decide) (by decide) (by decide), kinds_apart (by decide) (by decide) (by decide)⟩
  rcases managed_atom (managed a first) own with rfl | ⟨o, overlay, rfl⟩ | rfl | ⟨rfl, sole⟩
  · rcases managed_atom (managed b second) own' with same | ⟨p, _, same⟩ | same | ⟨same, _⟩
    · rcases root_atom_shared (managed a first) (managed b second) same with eq | other
      · exact Or.inl eq
      · exact Or.inr (Or.inl other)
    · exact absurd same (rootOverlay a p)
    · exact absurd same (rootArgo a _).1
    · exact absurd same (rootArgo a _).2
  · rcases managed_atom (managed b second) own' with same | ⟨p, overlay', same⟩ | same | ⟨same, _⟩
    · exact absurd same.symm (rootOverlay b o)
    · exact overlay_atom_shared (managed a first) (managed b second) overlay overlay' same
    · exact absurd same (overlayArgo o _).1
    · exact absurd same (overlayArgo o _).2
  · rcases managed_atom (managed b second) own' with same | ⟨p, _, same⟩ | same | ⟨same, _⟩
    · exact absurd same.symm (rootArgo b _).1
    · exact absurd same.symm (overlayArgo p _).1
    · exact Or.inl (full_atom_inj same)
    · exact absurd same full_atom_ne_name
  · rcases managed_atom (managed b second) own' with same | ⟨p, _, same⟩ | same | ⟨same, _⟩
    · exact absurd same.symm (rootArgo b _).2
    · exact absurd same.symm (overlayArgo p _).2
    · exact absurd same.symm full_atom_ne_name
    · left
      by_contra apart
      have many := ambiguous_of_two (managed a first) (managed b second) first second
        (name_atom_inj same) apart
      rw [many] at sole
      exact absurd sole (by simp)

theorem linked_same_ref (none : ∀ a ∈ inputs, ∀ b ∈ inputs, ¬ OtherEvidence a b)
    (linked : Linked inputs ref a b) : ref a = ref b := by
  induction linked with
  | rel a b edge =>
    obtain ⟨first, second, same | other⟩ := edge
    · exact same
    · exact absurd other (none a first b second)
  | refl a => rfl
  | symm a b _ ih => exact ih.symm
  | trans a b c _ _ ih ih' => exact ih.trans ih'

end Step

/-- Workloads of two Applications keep apart exactly if those that share a label without its
    namespace are linked by other evidence anyway. -/
theorem argo_separation_iff (inputs : List AppWorkloadInput) (ref : AppWorkloadInput → ArgoRef)
    (managed : ∀ input ∈ inputs, ManagedBy input (ref input)) :
    (∀ a b, SameRow inputs a b → ref a ≠ ref b → Linked inputs ref a b) ↔
      ∀ a ∈ inputs, ∀ b ∈ inputs, ShareBareLabel ref a b → Linked inputs ref a b := by
  constructor
  · intro separated a first b second label
    obtain ⟨o, overlay, key⟩ := label.first
    obtain ⟨p, overlay', key'⟩ := label.second
    apply separated a b _ label.apart
    refine same_row_iff.mpr ⟨first, second, .rel _ _ ⟨first, second, overlayAtom o, ?_, ?_⟩⟩
    · apply mem_cons_of_mem
      apply mem_append_right
      rw [overlay]
      exact mem_cons_self
    · apply mem_cons_of_mem
      apply mem_append_right
      have same : overlayAtom o = overlayAtom p := by
        rw [overlayAtom, overlayAtom, key, key', ArgoRef.bareKey, ArgoRef.bareKey, label.names]
      rw [overlay', same]
      exact mem_cons_self
  · intro labels a b row _
    obtain ⟨_, _, connected⟩ := same_row_iff.mp row
    unfold Linked
    refine Relation.EqvGen.eqvGen_le ?_ a b connected
    intro a b shares
    have first := shares.1
    have second := shares.2.1
    rcases shared_atom managed shares with same | other | label
    · exact .rel _ _ ⟨first, second, Or.inl same⟩
    · exact .rel _ _ ⟨first, second, Or.inr other⟩
    · exact labels a first b second label

section Resolved

/-- Kubernetes lets no slash into a namespace or a label, and Helm none into its two names. -/
structure Slashless (obj : ObjectMeta) : Prop where
  namespace_ : '/' ∉ obj.namespace_.toList
  labels : ∀ key, '/' ∉ (obj.labels key).toList
  release : '/' ∉ (obj.annotations "meta.helm.sh/release-name").toList
  releaseNamespace : '/' ∉ (obj.annotations "meta.helm.sh/release-namespace").toList

def argoTier (tier : Tier) : Prop := tier = .argoTrackingID ∨ tier = .argoInstance

theorem plain_key_unmarked {ns name : String} (kind : String) (plain : '/' ∉ ns.toList)
    (plain' : '/' ∉ kind.toList) (plain'' : '/' ∉ name.toList) (other : kind ≠ "Application") :
    Unmarked (ns ++ "/" ++ kind ++ "/" ++ name) := by
  have chars : (ns ++ "/" ++ kind ++ "/" ++ name).toList =
      ns.toList ++ '/' :: (kind.toList ++ '/' :: name.toList) := by
    simp [String.toList_append]
  rw [Unmarked, chars, cut_around_key plain plain' plain'', if_neg]
  exact fun same => other (String.toList_inj.mp same)

theorem flux_signal_unmarked {tier : Tier} {kind group name ns : String} {s : Signal}
    (listed : s ∈ fluxSignal tier kind group name ns) (plain : '/' ∉ ns.toList)
    (plain' : '/' ∉ kind.toList) (plain'' : '/' ∉ name.toList) (other : kind ≠ "Application") :
    Unmarked s.key := by
  unfold fluxSignal at listed
  split at listed
  next =>
    rw [mem_singleton.mp listed]
    exact plain_key_unmarked kind plain plain' plain'' other
  next => exact absurd listed not_mem_nil

theorem app_signal_unmarked {tier : Tier} {name ns : String} {s : Signal}
    (listed : s ∈ appSignal tier ns name) (plain : '/' ∉ ns.toList) (plain' : '/' ∉ name.toList) :
    Unmarked s.key := by
  unfold appSignal at listed
  split at listed
  next =>
    rw [mem_singleton.mp listed]
    have key : ns ++ "/app/" ++ name = ns ++ "/" ++ "app" ++ "/" ++ name := by
      have marker : "/" ++ "app" ++ "/" = "/app/" := by decide
      rw [← marker, ← String.append_assoc, ← String.append_assoc]
    have unmarked := plain_key_unmarked "app" plain (by decide) plain' (by decide)
    rw [← key] at unmarked
    exact unmarked
  next => exact absurd listed not_mem_nil

/-- Argo CD's signals name their Application in the key; no other signal's key holds the marker. -/
theorem signal_key (plain : Slashless obj) {s : Signal} (listed : s ∈ signals obj) :
    (argoTier s.tier ∧ s.key = s.ref.namespace_ ++ "/Application/" ++ s.ref.name) ∨ Unmarked s.key := by
  unfold signals at listed
  simp only [mem_append] at listed
  rcases listed with (((((((helm | kustomize) | tracking) | release) | instance_) | installed) |
    part) | named) | bare
  · exact Or.inr (flux_signal_unmarked helm (plain.labels _) (by decide) (plain.labels _)
      (by decide))
  · exact Or.inr (flux_signal_unmarked kustomize (plain.labels _) (by decide) (plain.labels _)
      (by decide))
  · split at tracking
    next => exact absurd tracking not_mem_nil
    next =>
      rw [mem_singleton.mp tracking]
      exact Or.inl ⟨Or.inl rfl, rfl⟩
  · split at release
    next =>
      have key := plain_key_unmarked "HelmRelease" plain.releaseNamespace (by decide)
        plain.release (by decide)
      have same : ∀ ns n : String, ns ++ "/" ++ "HelmRelease" ++ "/" ++ n = ns ++ "/HelmRelease/" ++ n := by
        intro ns n
        have marker : "/" ++ "HelmRelease" ++ "/" = "/HelmRelease/" := by decide
        rw [← marker, ← String.append_assoc, ← String.append_assoc]
      rw [same] at key
      rw [mem_singleton.mp release]
      exact Or.inr key
    next => exact absurd release not_mem_nil
  · split at instance_
    next =>
      rw [mem_singleton.mp instance_]
      exact Or.inl ⟨Or.inr rfl, rfl⟩
    next => exact absurd instance_ not_mem_nil
  · exact Or.inr (app_signal_unmarked installed plain.namespace_ (plain.labels _))
  · exact Or.inr (app_signal_unmarked part plain.namespace_ (plain.labels _))
  · exact Or.inr (app_signal_unmarked named plain.namespace_ (plain.labels _))
  · exact Or.inr (app_signal_unmarked bare plain.namespace_ (plain.labels _))

theorem resolved_mem {bare : Bool} {o : AppOverlay}
    (resolved : resolveOverlay obj bare = some o) : o.winner ∈ signals obj := by
  unfold resolveOverlay at resolved
  split at resolved
  next => exact absurd resolved (by simp)
  next winner conflicts order =>
    split at resolved
    next => exact absurd resolved (by simp)
    next =>
      obtain rfl := Option.some.inj resolved
      have sorted : winner ∈ (signals obj).mergeSort fun a b =>
          decide (a.tier.rank ≤ b.tier.rank) := order ▸ mem_cons_self
      exact mem_mergeSort.mp sorted

/-- So an overlay read off a workload speaks of an Application in its key, or of none. -/
theorem resolved_key (plain : Slashless obj) {bare : Bool} {o : AppOverlay}
    (resolved : resolveOverlay obj bare = some o) :
    (argoTier o.winner.tier ∧
      o.winner.key = o.winner.ref.namespace_ ++ "/Application/" ++ o.winner.ref.name) ∨
      Unmarked o.winner.key := signal_key plain (resolved_mem resolved)

/-- Argo CD's web application tracks the workload. -/
def tracked : ObjectMeta :=
  ⟨"shop", fun _ => "", fun key => if key = "argocd.argoproj.io/tracking-id" then "argocd_web:apps/Deployment:shop/web" else ""⟩

theorem tracked_key : ∃ o, resolveOverlay tracked false = some o ∧ ((argoTier o.winner.tier ∧
    o.winner.key = o.winner.ref.namespace_ ++ "/Application/" ++ o.winner.ref.name) ∨ Unmarked o.winner.key) := by
  have plain : Slashless tracked := ⟨by decide, fun _ => List.not_mem_nil, by decide, by decide⟩
  have found : (resolveOverlay tracked false).isSome = true := by decide +kernel
  obtain ⟨o, resolved⟩ := Option.isSome_iff_exists.mp found
  exact ⟨o, resolved, resolved_key plain resolved⟩

end Resolved

/-- The Application called shop of a namespace. -/
def shopOf (namespace_ : String) (housed : namespace_ ≠ "") (plain : '/' ∉ namespace_.toList) :
    ArgoRef := ⟨namespace_, "shop", housed, by decide, plain, by decide⟩

/-- A Deployment that an Application shop manages, with what Argo CD left on it. -/
def shopWorkload (argoNamespace : String) (obj : ObjectMeta) : AppWorkloadInput :=
  ⟨⟨"Deployment", obj.namespace_, "front"⟩, resolveOverlay obj false, none,
    argoNamespace ++ "/Application/shop", "Application"⟩

def instanceLabelled : ObjectMeta :=
  ⟨"web", fun key => if key = "argocd.argoproj.io/instance" then "shop" else "", fun _ => ""⟩

def trackedIn (argoNamespace : String) : ObjectMeta := ⟨"web", fun _ => "", fun key =>
    if key = "argocd.argoproj.io/tracking-id" then argoNamespace ++ "_shop:apps/Deployment:web/front"
    else ""⟩

def blueOrGreen (input : AppWorkloadInput) : ArgoRef :=
  if input.rootKey = "blue/Application/shop" then shopOf "blue" (by decide) (by decide)
  else shopOf "green" (by decide) (by decide)

theorem shop_managed {argoNamespace : String} (housed : argoNamespace ≠ "")
    (plain : '/' ∉ argoNamespace.toList)
    (overlay : ∀ o, resolveOverlay obj false = some o → o.winner.key = "/Application/shop" ∨
      o.winner.key = argoNamespace ++ "/Application/shop") :
    ManagedBy (shopWorkload argoNamespace obj) (shopOf argoNamespace housed plain) := by
  have key : argoNamespace ++ "/Application/shop" = (shopOf argoNamespace housed plain).key := by
    have marker : "/Application/" ++ "shop" = "/Application/shop" := by decide
    rw [← marker, ← String.append_assoc]
    rfl
  refine ⟨Or.inl ⟨rfl, key⟩, fun o resolved => ?_, Or.inl rfl⟩
  rcases overlay o resolved with bare | full
  · exact Or.inr (Or.inl bare)
  · exact Or.inl (full.trans key)

theorem labelled_key (o : AppOverlay) (resolved : resolveOverlay instanceLabelled false = some o) :
    o.winner.key = "/Application/shop" := by
  have keys : (resolveOverlay instanceLabelled false).map (fun o => o.winner.key) =
      some "/Application/shop" := by
    decide +kernel
  rw [resolved, Option.map_some, Option.some.injEq] at keys
  exact keys

theorem blue_apart_green (obj obj' : ObjectMeta) :
    blueOrGreen (shopWorkload "blue" obj) ≠ blueOrGreen (shopWorkload "green" obj') := by
  have blue : blueOrGreen (shopWorkload "blue" obj) = shopOf "blue" (by decide) (by decide) :=
    if_pos (show "blue" ++ "/Application/shop" = "blue/Application/shop" by decide)
  have green : blueOrGreen (shopWorkload "green" obj') = shopOf "green" (by decide) (by decide) :=
    if_neg (show "green" ++ "/Application/shop" ≠ "blue/Application/shop" by decide)
  rw [blue, green]
  intro same
  have namespaces : "blue" = "green" := congrArg ArgoRef.namespace_ same
  exact absurd namespaces (by decide)

/-- Two Applications of one name, whose workloads only carry the instance label, share a row. -/
theorem instance_label_merges :
    (∀ input ∈ [shopWorkload "blue" instanceLabelled, shopWorkload "green" instanceLabelled],
      ManagedBy input (blueOrGreen input)) ∧
    SameRow [shopWorkload "blue" instanceLabelled, shopWorkload "green" instanceLabelled]
      (shopWorkload "blue" instanceLabelled) (shopWorkload "green" instanceLabelled) ∧
    blueOrGreen (shopWorkload "blue" instanceLabelled) ≠
      blueOrGreen (shopWorkload "green" instanceLabelled) ∧
    ¬ Linked [shopWorkload "blue" instanceLabelled, shopWorkload "green" instanceLabelled]
      blueOrGreen (shopWorkload "blue" instanceLabelled)
      (shopWorkload "green" instanceLabelled) := by
  have apart := blue_apart_green instanceLabelled instanceLabelled
  refine ⟨?_, ?_, apart, fun linked => apart (linked_same_ref ?_ linked)⟩
  · simp only [mem_cons, not_mem_nil, or_false, forall_eq_or_imp, forall_eq]
    constructor
    · exact shop_managed (by decide) (by decide) fun o resolved => Or.inl (labelled_key o resolved)
    · exact shop_managed (by decide) (by decide) fun o resolved => Or.inl (labelled_key o resolved)
  · show ∃ g ∈ components _, _ ∈ g ∧ _ ∈ g
    decide +kernel
  · simp only [mem_cons, not_mem_nil, or_false, forall_eq_or_imp, forall_eq]
    have other : ∀ ns ns' : String, ¬ OtherEvidence (shopWorkload ns instanceLabelled)
        (shopWorkload ns' instanceLabelled) := by
      rintro ns ns' (⟨kind, _⟩ | ⟨o, _, resolved, _, _, unmarked⟩)
      · exact kind rfl
      · rw [labelled_key o resolved] at unmarked
        exact bare_key_marked (shopOf "blue" (by decide) (by decide)) unmarked
    exact ⟨⟨other _ _, other _ _⟩, other _ _, other _ _⟩

theorem tracked_shops_apart : ¬ ∃ a b,
      SameRow [shopWorkload "blue" (trackedIn "blue"), shopWorkload "green" (trackedIn "green")] a b ∧
        blueOrGreen a ≠ blueOrGreen b ∧
          ¬ Linked [shopWorkload "blue" (trackedIn "blue"), shopWorkload "green" (trackedIn "green")]
            blueOrGreen a b := by
  rintro ⟨a, b, together, apart, unlinked⟩
  have keys : ∀ ns ∈ ["blue", "green"], (resolveOverlay (trackedIn ns) false).map
      (fun o => o.winner.key) = some (ns ++ "/Application/shop") := by
    decide +kernel
  have full : ∀ ns ∈ ["blue", "green"], ∀ o, resolveOverlay (trackedIn ns) false = some o →
      o.winner.key = ns ++ "/Application/shop" := by
    intro ns listed o resolved
    have key := keys ns listed
    rw [resolved, Option.map_some, Option.some.injEq] at key
    exact key
  apply unlinked
  refine (argo_separation_iff _ blueOrGreen ?managed).mpr ?labels a b together apart
  case labels =>
    intro a listed b _ label
    obtain ⟨o, overlay, key⟩ := label.first
    have bare : (blueOrGreen a).bareKey = "/Application/shop" := by
      rw [ArgoRef.bareKey, blueOrGreen]
      split <;> decide
    rw [bare] at key
    simp only [mem_cons, not_mem_nil, or_false] at listed
    rcases listed with rfl | rfl
    · rw [full "blue" (by decide) o overlay] at key
      exact absurd key (by decide)
    · rw [full "green" (by decide) o overlay] at key
      exact absurd key (by decide)
  case managed =>
    simp only [mem_cons, not_mem_nil, or_false, forall_eq_or_imp, forall_eq]
    constructor
    · exact shop_managed (by decide) (by decide) fun o resolved =>
        Or.inr (full "blue" (by decide) o resolved)
    · exact shop_managed (by decide) (by decide) fun o resolved =>
        Or.inr (full "green" (by decide) o resolved)

end Applications
