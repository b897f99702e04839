import Radar.Applications.Grouping

/- The rows are the connected components of the workloads under shared atoms. -/
namespace Applications
open Firsts GoText MultiMap Overlay Partition UnionFind List

def atomsAmong (inputs : List AppWorkloadInput) (input : AppWorkloadInput) : List String :=
  inputAtoms input (argoApplicationNamespaces inputs)

def rootAtom (input : AppWorkloadInput) : String := "S:" ++ input.rootKey

/-- Two of the workloads have an atom in common. -/
def SharesAtom (inputs : List AppWorkloadInput) (a b : AppWorkloadInput) : Prop :=
  a ∈ inputs ∧ b ∈ inputs ∧ ∃ atom, atom ∈ atomsAmong inputs a ∧ atom ∈ atomsAmong inputs b

/-- A chain of shared atoms leads from one to the other. -/
def Connected (inputs : List AppWorkloadInput) : AppWorkloadInput → AppWorkloadInput → Prop :=
  Relation.EqvGen (SharesAtom inputs)

section Atoms
variable {inputs : List AppWorkloadInput}

theorem root_atom_mem (inputs : List AppWorkloadInput) (input : AppWorkloadInput) :
    rootAtom input ∈ atomsAmong inputs input := mem_cons_self

theorem mem_atom_pairs (inputs : List AppWorkloadInput) (input : AppWorkloadInput)
    (s t : String) : (s, t) ∈ atomPairs (atomsAmong inputs input) ↔
      s = rootAtom input ∧ t ∈ (atomsAmong inputs input).tail := by
  unfold atomsAmong inputAtoms atomPairs
  rw [mem_map, tail_cons]
  constructor
  · rintro ⟨_, member, same⟩
    obtain ⟨rfl, rfl⟩ := Prod.mk.inj same
    exact ⟨rfl, member⟩
  · rintro ⟨rfl, member⟩
    exact ⟨t, member, rfl⟩

/-- The atoms a union has brought together. -/
def Joined (inputs : List AppWorkloadInput) : String → String → Prop := Relation.EqvGen fun s t =>
    (s, t) ∈ inputs.flatMap fun input => atomPairs (atomsAmong inputs input)

theorem atom_joined {input : AppWorkloadInput} (member : input ∈ inputs) {atom : String}
    (own : atom ∈ atomsAmong inputs input) : Joined inputs (rootAtom input) atom := by
  rcases mem_cons.mp own with rfl | later
  · exact .refl _
  · refine .rel _ _ (mem_flatMap.mpr ⟨input, member, ?_⟩)
    exact (mem_atom_pairs inputs input _ _).mpr ⟨rfl, later⟩

/-- Atoms are joined if they are one, or atoms of connected workloads. -/
theorem joined_atoms {s t : String} (joined : Joined inputs s t) : s = t ∨
    ∃ a ∈ inputs, ∃ b ∈ inputs, s ∈ atomsAmong inputs a ∧ t ∈ atomsAmong inputs b ∧
      Connected inputs a b := by
  induction joined with
  | rel s t edge =>
    obtain ⟨input, member, pair⟩ := mem_flatMap.mp edge
    obtain ⟨rfl, later⟩ := (mem_atom_pairs inputs input s t).mp pair
    exact Or.inr ⟨input, member, input, member, root_atom_mem inputs input,
      mem_of_mem_tail later, .refl _⟩
  | refl s => exact Or.inl rfl
  | symm s t _ ih =>
    rcases ih with same | ⟨a, first, b, second, own, own', connected⟩
    · exact Or.inl same.symm
    · exact Or.inr ⟨b, second, a, first, own', own, .symm _ _ connected⟩
  | trans s t u _ _ ih ih' =>
    rcases ih with rfl | ⟨a, first, b, second, own, mid, connected⟩
    · exact ih'
    · rcases ih' with rfl | ⟨c, third, d, fourth, mid', own', connected'⟩
      · exact Or.inr ⟨a, first, b, second, own, mid, connected⟩
      · refine Or.inr ⟨a, first, d, fourth, own, own', ?_⟩
        exact .trans _ _ _ connected
          (.trans _ _ _ (.rel _ _ ⟨second, third, t, mid, mid'⟩) connected')

theorem connected_joined {a b : AppWorkloadInput} (connected : Connected inputs a b) :
    Joined inputs (rootAtom a) (rootAtom b) := by
  induction connected with
  | rel a b edge =>
    obtain ⟨first, second, atom, own, own'⟩ := edge
    exact .trans _ _ _ (atom_joined first own) (.symm _ _ (atom_joined second own'))
  | refl a => exact .refl _
  | symm a b _ ih => exact .symm _ _ ih
  | trans a b c _ _ ih ih' => exact .trans _ _ _ ih ih'

theorem joined_iff_connected {a b : AppWorkloadInput} (first : a ∈ inputs) (second : b ∈ inputs) :
    Joined inputs (rootAtom a) (rootAtom b) ↔ Connected inputs a b := by
  refine ⟨fun joined => ?_, connected_joined⟩
  rcases joined_atoms joined with same | ⟨c, third, d, fourth, own, own', connected⟩
  · have own : rootAtom a ∈ atomsAmong inputs b := same ▸ root_atom_mem inputs b
    exact .rel _ _ ⟨first, second, rootAtom a, root_atom_mem inputs a, own⟩
  · have toC : SharesAtom inputs a c := ⟨first, third, rootAtom a, root_atom_mem inputs a, own⟩
    have fromD : SharesAtom inputs d b := ⟨fourth, second, rootAtom b, own', root_atom_mem inputs b⟩
    exact .trans _ _ _ (.rel _ _ toC) (.trans _ _ _ connected (.rel _ _ fromD))

end Atoms

section Collect

def component (inputs : List AppWorkloadInput) (input : AppWorkloadInput) : String :=
  (find (joinedAtoms inputs) (rootAtom input)).1

/-- The searches of the second pass find the roots of the first. -/
theorem collect_spec {d d' : Forest String} (grounded : Grounded (up d)) (same : SameRoots d d')
    {order : List String} {members : Map String AppWorkloadInput}
    (tracked : ∀ comp, comp ∈ order ↔ comp ∈ members) (inputs : List AppWorkloadInput) :
    collect d' order members inputs =
      (firsts id order (inputs.map fun input => (find d (rootAtom input)).1),
        pushAll members (inputs.map fun input => ((find d (rootAtom input)).1, input))) := by
  induction inputs generalizing d' order members with
  | nil => rfl
  | cons input rest ih =>
    have root := (find_spec grounded (rootAtom input)).1
    obtain ⟨root', same'⟩ := find_spec (same.grounded grounded) (rootAtom input)
    have found : (find d' (rootAtom input)).1 = (find d (rootAtom input)).1 :=
      rooted_unique ((same _ _).mp root') root
    have after : SameRoots d (find d' (rootAtom input)).2 := fun y s => (same' y s).trans (same y s)
    have step : collect d' order members (input :: rest) = collect (find d' (rootAtom input)).2
          (if (find d (rootAtom input)).1 ∈ members then order
            else order ++ [(find d (rootAtom input)).1])
          (push members (find d (rootAtom input)).1 input) rest := by
      rw [← found]
      rfl
    have seen : id (find d (rootAtom input)).1 ∈ order.map id ↔ (find d (rootAtom input)).1 ∈ members := by
      rw [map_id, ← tracked]
      rfl
    rw [step, map_cons, firsts]
    by_cases old : (find d (rootAtom input)).1 ∈ members
    · rw [if_pos old, if_pos (seen.mpr old)]
      apply ih after
      intro comp
      rw [mem_push, ← tracked comp]
      refine ⟨Or.inr, ?_⟩
      rintro (rfl | listed)
      · exact (tracked _).mpr old
      · exact listed
    · rw [if_neg old, if_neg (seen.not.mpr old)]
      apply ih after
      intro comp
      rw [mem_push, ← tracked comp, mem_append, mem_singleton, or_comm]

theorem joined_spec (inputs : List AppWorkloadInput) : Grounded (up (joinedAtoms inputs)) ∧
      ∀ s t, Same (joinedAtoms inputs) s t ↔ Joined inputs s t := union_all_generates _

/-- The components are the workloads of each root. -/
theorem components_eq (inputs : List AppWorkloadInput) : components inputs =
    (firsts id [] (inputs.map (component inputs))).map fun comp =>
      inputs.filter fun input => decide (component inputs input = comp) := by
  have start : ∀ comp, comp ∈ ([] : List String) ↔ comp ∈ (∅ : Map String AppWorkloadInput) := by
    simp
  unfold components
  rw [collect_spec (joined_spec inputs).1 (fun _ _ => Iff.rfl) start]
  apply map_congr_left
  intro comp _
  rw [values_push_all, values_empty, nil_append, filter_map, map_map]
  exact map_id _

theorem components_grouped (inputs : List AppWorkloadInput) :
    Grouped (Connected inputs) inputs (components inputs) := by
  obtain ⟨grounded, joined⟩ := joined_spec inputs
  have start : (([] : List String).map id).Nodup := nodup_nil
  have distinct := firsts_nodup start (inputs.map (component inputs))
  rw [map_id] at distinct
  have used : ∀ comp, comp ∈ firsts id [] (inputs.map (component inputs)) ↔
      ∃ input ∈ inputs, component inputs input = comp := by
    intro comp
    rw [← mem_map]
    refine ⟨firsts_mem, fun listed => ?_⟩
    obtain ⟨kept, held, rfl⟩ : ∃ kept ∈ firsts id [] (inputs.map (component inputs)),
        id kept = id comp := firsts_covers [] listed
    exact held
  rw [components_eq]
  apply (partition_by_key distinct used).congr
  intro a first b second
  rw [← joined_iff_connected first second, ← joined]
  exact find_eq_iff (find_spec grounded _).1 (find_spec grounded _).1

end Collect

section Order
variable {inputs inputs' : List AppWorkloadInput}

theorem ambiguous_perm (same : inputs.Perm inputs')
    (name : String) : ambiguous (argoApplicationNamespaces inputs) name =
      ambiguous (argoApplicationNamespaces inputs') name := by
  have apps := (same.flatMap_right concreteApplications).dedup
  have named := (apps.filter fun app => decide (app.2 = name)).length_eq
  unfold ambiguous argoApplicationNamespaces
  rw [named]

theorem atoms_perm (same : inputs.Perm inputs')
    (input : AppWorkloadInput) : atomsAmong inputs input = atomsAmong inputs' input := by
  unfold atomsAmong inputAtoms argoCanonicalAtoms
  simp only [ambiguous_perm same]

theorem connected_perm (same : inputs.Perm inputs') : Connected inputs = Connected inputs' := by
  unfold Connected SharesAtom
  simp only [same.mem_iff, atoms_perm same]

end Order

/-- The workloads of the rows, apart from the order of the rows. -/
theorem rows_workloads (inputs : List AppWorkloadInput) :
    ((groupApplications inputs).map AppRow.workloads).Perm
      ((components inputs).map fun g => g.map AppWorkloadInput.wl) := by
  have sorted := (mergeSort_perm ((components inputs).map rowOf) rowBefore).map
    AppRow.workloads
  rw [map_map] at sorted
  exact sorted

def withRelationships (rels : AppWorkloadInput → Option AppRelationships)
    (input : AppWorkloadInput) : AppWorkloadInput := { input with rels := rels input }

/-- Satellites are carried along; no component depends on them. -/
theorem components_rels (inputs : List AppWorkloadInput)
    (rels : AppWorkloadInput → Option AppRelationships) :
    components (inputs.map (withRelationships rels)) =
      (components inputs).map fun g => g.map (withRelationships rels) := by
  have apps : argoApplicationNamespaces (inputs.map (withRelationships rels)) =
      argoApplicationNamespaces inputs := by
    rw [argoApplicationNamespaces, flatMap_map]
    rfl
  have joined : joinedAtoms (inputs.map (withRelationships rels)) = joinedAtoms inputs := by
    rw [joinedAtoms, apps, flatMap_map]
    rfl
  have kept : ∀ input, component (inputs.map (withRelationships rels))
      (withRelationships rels input) = component inputs input := by
    intro input
    rw [component, joined]
    rfl
  rw [components_eq, components_eq, map_map, map_map]
  simp only [Function.comp_def, kept, filter_map]

/-- The rows are the components under shared atoms, in whatever order the workloads are listed and
    whatever satellites they have. -/
theorem applications_partitioned (inputs : List AppWorkloadInput) :
    (∃ groups, Grouped (Connected inputs) inputs groups ∧
      ((groupApplications inputs).map AppRow.workloads).Perm
        (groups.map fun g => g.map AppWorkloadInput.wl)) ∧
    (∀ inputs' : List AppWorkloadInput, inputs.Perm inputs' →
      ((groupApplications inputs).map fun r => Multiset.ofList r.workloads).Perm
        ((groupApplications inputs').map fun r => Multiset.ofList r.workloads)) ∧
    ∀ rels : AppWorkloadInput → Option AppRelationships,
      ((groupApplications (inputs.map (withRelationships rels))).map AppRow.workloads).Perm
        ((groupApplications inputs).map AppRow.workloads) := by
  refine ⟨⟨components inputs, components_grouped inputs, rows_workloads inputs⟩, ?_, ?_⟩
  · intro inputs' same
    have grouped := components_grouped inputs'
    rw [← connected_perm same] at grouped
    have groups := partition_unique (Relation.EqvGen.is_equivalence _) (components_grouped inputs)
      grouped same
    have workloads := groups.map (Multiset.map AppWorkloadInput.wl)
    have rows := (rows_workloads inputs).map Multiset.ofList
    have rows' := (rows_workloads inputs').map Multiset.ofList
    rw [List.map_map, List.map_map] at workloads rows rows'
    exact rows.trans (workloads.trans rows'.symm)
  · intro rels
    have rows := rows_workloads (inputs.map (withRelationships rels))
    rw [components_rels, List.map_map] at rows
    refine rows.trans (List.Perm.trans ?_ (rows_workloads inputs).symm)
    simp [withRelationships, Function.comp_def]

end Applications
