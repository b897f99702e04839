import Radar.GitOps.Drift

/- Rewriting the maps of a document key by key, what it leaves of the document, and that doing it again
   changes nothing. -/
namespace Drift
open JsonText SortedEntries
variable {g : Json → Json} {f : Entries → Entries}

section Kept

inductive Step where
  | key (name : String)
  | index (i : Nat)

/-- The value at the end of a path. -/
def follow : Json → List Step → Option Json
  | v, [] => some v
  | .object entries, .key name :: rest => (find name entries).bind fun v => follow v rest
  | .array elements, .index i :: rest => elements[i]?.bind fun v => follow v rest
  | _, _ :: _ => none

/-- A list keeps its length, a map its keys, and any other value is the same. -/
inductive Unchanged : Json → Json → Prop where
  | same (v : Json) : Unchanged v v
  | array (a b : List Json) (lengths : a.length = b.length) : Unchanged (.array a) (.array b)
  | object (a b : Entries) (keys : ∀ key v, find key a = some v → ∃ w, find key b = some w) :
      Unchanged (.object a) (.object b)

/-- Every value that is not nilish stands unchanged where it stood. -/
def Kept (before after : Json) : Prop := ∀ path v, follow before path = some v → isNilish v = false →
    ∃ w, follow after path = some w ∧ Unchanged v w

theorem unchanged_trans {u v w : Json} (first : Unchanged u v) (second : Unchanged v w) : Unchanged u w := by
  cases first with
  | same => exact second
  | array a b lengths =>
    cases second with
    | same => exact .array a b lengths
    | array _ c lengths' => exact .array a c (lengths.trans lengths')
  | object a b keys =>
    cases second with
    | same => exact .object a b keys
    | object _ c keys' =>
      refine .object a c fun key x there => ?_
      obtain ⟨y, there'⟩ := keys key x there
      exact keys' key y there'

theorem unchanged_there {v w : Json} (unchanged : Unchanged v w) (there : isNilish v = false) :
    isNilish w = false := by
  cases unchanged with
  | same => exact there
  | array a b lengths =>
    cases a with
    | nil => cases there
    | cons _ _ =>
      cases b with
      | nil => cases lengths
      | cons _ _ => rfl
  | object a b keys =>
    cases a with
    | nil => cases there
    | cons entry rest =>
      obtain ⟨x, found⟩ := keys entry.1 entry.2 (by rw [find_cons, if_pos rfl])
      cases b with
      | nil => cases found
      | cons _ _ => rfl

theorem kept_refl (v : Json) : Kept v v := fun _ x there _ => ⟨x, there, .same x⟩

theorem kept_trans {u v w : Json} (first : Kept u v) (second : Kept v w) : Kept u w := by
  intro path x there some_
  obtain ⟨y, there', same⟩ := first path x there some_
  obtain ⟨z, there'', same'⟩ := second path y there' (unchanged_there same some_)
  exact ⟨z, there'', unchanged_trans same same'⟩

theorem follow_nilish {v : Json} (empty : isNilish v = true) {path : List Step} {x : Json}
    (there : follow v path = some x) : isNilish x = true := by
  cases path with
  | nil =>
    cases there
    exact empty
  | cons step rest =>
    cases v with
    | object entries =>
      cases entries with
      | nil => cases step <;> cases there
      | cons _ _ => cases empty
    | array elements =>
      cases elements with
      | nil => cases step <;> cases there
      | cons _ _ => cases empty
    | _ => cases step <;> cases there

theorem kept_put {entries : Entries} {key : String} (missing : isNilish (valueAt entries key) = true)
    (value : Json) : Kept (.object entries) (.object (put key value entries)) := by
  intro path x there some_
  cases path with
  | nil =>
    cases there
    refine ⟨_, rfl, .object _ _ fun name v found => ?_⟩
    rw [find_put]
    by_cases here : name = key
    · exact ⟨value, if_pos here⟩
    · exact ⟨v, (if_neg here).trans found⟩
  | cons step rest =>
    cases step with
    | index i => cases there
    | key name =>
      rw [follow, Option.bind_eq_some_iff] at there
      obtain ⟨v, found, inside⟩ := there
      by_cases here : name = key
      · subst here
        rw [valueAt, found] at missing
        rw [follow_nilish missing inside] at some_
        cases some_
      · refine ⟨x, ?_, .same x⟩
        rw [follow, find_put, if_neg here, found]
        exact inside

theorem kept_change (each : ∀ v, Kept v (g v)) (key : String) (entries : Entries) :
    Kept (.object entries) (.object (change key g entries)) := by
  intro path x there some_
  cases path with
  | nil =>
    cases there
    refine ⟨_, rfl, .object _ _ fun name v found => ?_⟩
    rw [find_change, found]
    exact ⟨_, rfl⟩
  | cons step rest =>
    cases step with
    | index i => cases there
    | key name =>
      rw [follow, Option.bind_eq_some_iff] at there
      obtain ⟨v, found, inside⟩ := there
      rw [follow, find_change, found, Option.map_some, Option.bind_some]
      by_cases here : name = key
      · rw [if_pos here]
        exact each v rest x inside some_
      · rw [if_neg here]
        exact ⟨x, inside, .same x⟩

def onObject (f : Entries → Entries) : Json → Json
  | .object entries => .object (f entries)
  | v => v

def onElements (g : Json → Json) : Json → Json
  | .array elements => .array (elements.map g)
  | v => v

theorem kept_onObject (each : ∀ m, Kept (.object m) (.object (f m))) (v : Json) :
    Kept v (onObject f v) := by
  cases v with
  | object entries => exact each entries
  | _ => exact kept_refl _

theorem kept_onElements (each : ∀ v, Kept v (g v)) (v : Json) : Kept v (onElements g v) := by
  cases v with
  | array elements =>
    intro path x there some_
    cases path with
    | nil =>
      cases there
      exact ⟨_, rfl, .array _ _ (List.length_map g).symm⟩
    | cons step rest =>
      cases step with
      | key name => cases there
      | index i =>
        rw [follow, Option.bind_eq_some_iff] at there
        obtain ⟨v, found, inside⟩ := there
        rw [onElements, follow, List.getElem?_map, found]
        exact each v rest x inside some_
  | _ => exact kept_refl _

end Kept

section KeyWise

/-- A rewriting of maps that changes what stands at the given keys, each by itself and once for all. -/
structure KeyWise (keys : List String) (f : Entries → Entries) : Prop where
  ordered : ∀ m, Ordered (.object m) → Ordered (.object (f m))
  frame : ∀ m key, key ∉ keys → find key (f m) = find key m
  own : ∀ m m' key, find key m = find key m' → find key (f m) = find key (f m')
  again : ∀ m key, Ordered (.object m) → find key (f (f m)) = find key (f m)
  kept : ∀ m, Kept (.object m) (.object (f m))

/-- What is asked of a rewriting of values. -/
structure Settling (g : Json → Json) : Prop where
  ordered : ∀ v, Ordered v → Ordered (g v)
  again : ∀ v, Ordered v → g (g v) = g v
  kept : ∀ v, Kept v (g v)

theorem KeyWise.idempotent {keys : List String} (wise : KeyWise keys f) (m : Entries)
    (ordered : Ordered (.object m)) : f (f m) = f m := by
  have once := wise.ordered m ordered
  exact entries_ext (wise.ordered _ once).entries.1 once.entries.1 fun key => wise.again m key ordered

/-- Rewritings of different keys do not get in each other's way. -/
theorem KeyWise.comp {keys keys' : List String} {f g : Entries → Entries} (wise : KeyWise keys f)
    (wise' : KeyWise keys' g) (apart : ∀ key ∈ keys, key ∉ keys') :
    KeyWise (keys ++ keys') fun m => g (f m) where
  ordered m ordered := wise'.ordered _ (wise.ordered m ordered)
  frame m key absent := by
    rw [List.mem_append, not_or] at absent
    rw [wise'.frame _ key absent.2, wise.frame m key absent.1]
  own m m' key same := wise'.own _ _ key (wise.own m m' key same)
  again m key ordered := by
    by_cases second : key ∈ keys'
    · have first : key ∉ keys := fun member => apart key member second
      rw [wise'.own _ (g (f m)) key (wise.frame _ key first)]
      exact wise'.again (f m) key (wise.ordered m ordered)
    · rw [wise'.frame _ key second, wise'.frame _ key second,
        wise.own _ (f m) key (wise'.frame _ key second)]
      exact wise.again m key ordered
  kept m := kept_trans (wise.kept m) (wise'.kept (f m))

theorem KeyWise.id : KeyWise [] fun m => m where
  ordered _ ordered := ordered
  frame _ _ _ := rfl
  own _ _ _ same := same
  again _ _ _ := rfl
  kept _ := kept_refl _

theorem KeyWise.onObject {keys : List String} (wise : KeyWise keys f) : Settling (onObject f) where
  ordered v ordered := by
    cases v with
    | object entries => exact wise.ordered entries ordered
    | _ => exact ordered
  again v ordered := by
    cases v with
    | object entries => exact congrArg Json.object (wise.idempotent entries ordered)
    | _ => rfl
  kept := kept_onObject wise.kept

theorem Settling.onElements (settling : Settling g) : Settling (onElements g) where
  ordered v ordered := by
    cases v with
    | array elements =>
      refine .array _ fun w member => ?_
      obtain ⟨u, there, rfl⟩ := List.mem_map.mp member
      exact settling.ordered u (ordered.elements u there)
    | _ => exact ordered
  again v ordered := by
    cases v with
    | array elements =>
      simp only [Drift.onElements, List.map_map, Json.array.injEq]
      apply List.map_congr_left
      intro u there
      exact settling.again u (ordered.elements u there)
    | _ => rfl
  kept := kept_onElements settling.kept

theorem Settling.change (settling : Settling g) (key : String) : KeyWise [key] (change key g) where
  ordered m ordered := by
    obtain ⟨sorted, all⟩ := ordered.entries
    refine .object _ (change_sorted sorted key g) fun e member => ?_
    obtain ⟨entry, there, rfl⟩ := List.mem_map.mp member
    by_cases here : entry.1 = key
    · rw [if_pos here]
      exact settling.ordered _ (all entry there)
    · rw [if_neg here]
      exact all entry there
  frame m name absent := by
    have other : name ≠ key := fun same => absent (List.mem_singleton.mpr same)
    rw [find_change]
    simp [other]
  own m m' name same := by rw [find_change, find_change, same]
  again m name ordered := by
    rw [find_change, find_change, Option.map_map]
    cases there : find name m with
    | none => rfl
    | some v =>
      by_cases here : name = key
      · simp [here, settling.again v (ordered.entries.2 (name, v) (find_mem there))]
      · simp [here]
  kept m := kept_change settling.kept key m

end KeyWise

end Drift
