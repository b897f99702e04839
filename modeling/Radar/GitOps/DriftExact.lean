import Mathlib.Data.List.Perm.Basic
import Mathlib.Data.List.Perm.Lattice
import Radar.GitOps.Drift

/- Which differences are reported: those that remain when empty values are taken out, and where the
   two part company. -/
namespace Drift
open JsonText SortedEntries
variable {entries : Entries}

section Removal
variable {deep : Bool}

mutual
/-- The value without the keys whose values are empty or become so, `deep` saying whether the removal
   enters arrays. -/
def strip (deep : Bool) : Json → Json
  | .object entries => .object (stripEntries deep entries)
  | .array elements => .array (if deep then stripElements deep elements else elements)
  | v => v

def stripElements (deep : Bool) : List Json → List Json
  | [] => []
  | v :: rest => strip deep v :: stripElements deep rest

def stripEntries (deep : Bool) : Entries → Entries
  | [] => []
  | (key, v) :: rest =>
    if isNilish (strip deep v) then stripEntries deep rest
    else (key, strip deep v) :: stripEntries deep rest
end

/-- What is left of a value, if anything. -/
def residue (deep : Bool) (v : Json) : Option Json :=
  if isNilish (strip deep v) then none else some (strip deep v)

theorem stripEntries_eq (deep : Bool) (entries : Entries) :
    stripEntries deep entries = trim (residue deep) entries := by
  induction entries with
  | nil => rfl
  | cons entry rest ih =>
    obtain ⟨key, v⟩ := entry
    rw [stripEntries, ih, trim_cons, residue]
    by_cases gone : isNilish (strip deep v) = true
    · rw [if_pos gone, if_pos gone]
      rfl
    · rw [if_neg gone, if_neg gone]
      rfl

theorem residue_nilish {v : Json} (empty : isNilish v = true) : residue deep v = none := by
  apply if_pos
  cases v with
  | null => rfl
  | string text => exact empty
  | array elements =>
    cases elements with
    | nil => cases deep <;> rfl
    | cons w rest => cases empty
  | object entries =>
    cases entries with
    | nil => rfl
    | cons e rest => cases empty
  | _ => cases empty

theorem residue_object : residue deep (.object entries) = if (trim (residue deep) entries).isEmpty then none
      else some (.object (trim (residue deep) entries)) := by
  rw [residue, strip, stripEntries_eq]
  rfl

theorem object_residues {a b : Entries} : residue deep (.object a) = residue deep (.object b) ↔
      trim (residue deep) a = trim (residue deep) b := by
  rw [residue_object, residue_object]
  constructor
  · intro same
    by_cases gone : (trim (residue deep) a).isEmpty = true
    · rw [if_pos gone] at same
      by_cases gone' : (trim (residue deep) b).isEmpty = true
      · rw [List.isEmpty_iff.mp gone, List.isEmpty_iff.mp gone']
      · rw [if_neg gone'] at same
        cases same
    · rw [if_neg gone] at same
      by_cases gone' : (trim (residue deep) b).isEmpty = true
      · rw [if_pos gone'] at same
        cases same
      · rw [if_neg gone', Option.some.injEq, Json.object.injEq] at same
        exact same
  · intro same
    rw [same]

theorem residue_at (sorted : Sorted entries) (key : String) :
    find key (trim (residue deep) entries) = residue deep (valueAt entries key) := by
  rw [find_trim sorted, valueAt]
  cases find key entries with
  | none => rfl
  | some v => rfl

/-- Maps leave the same when each key's values do. -/
theorem maps_residues {a b : Entries} (sorted : Sorted a) (sorted' : Sorted b) :
    residue deep (.object a) = residue deep (.object b) ↔
      ∀ key, residue deep (valueAt a key) = residue deep (valueAt b key) := by
  rw [object_residues]
  constructor
  · intro same key
    rw [← residue_at sorted, same, residue_at sorted']
  · intro same
    apply entries_ext (trim_sorted sorted _) (trim_sorted sorted' _)
    intro key
    rw [residue_at sorted, residue_at sorted', same]

end Removal

/-- The two differ where the removal sees no difference: a value that it empties meets an empty one,
   or the removal inside arrays makes two arrays the same. -/
inductive Clash (deep : Bool) : Json → Json → Prop where
  | removed (desired live : Json) (there : isNilish desired = false) (empties : residue deep desired = none)
      (none_ : isNilish live = true) : Clash deep desired live
  | added (desired live : Json) (none_ : isNilish desired = true) (there : isNilish live = false)
      (empties : residue deep live = none) : Clash deep desired live
  | arrays (desired live : List Json) (differ : desired ≠ live)
      (same : residue deep (.array desired) = residue deep (.array live)) :
      Clash deep (.array desired) (.array live)
  | within (dMap lMap : Entries) (key : String) (clash : Clash deep (valueAt dMap key) (valueAt lMap key)) :
      Clash deep (.object dMap) (.object lMap)

section Exact
variable {walk : Walk} {deep : Bool} {desired live : Json}

theorem union_covers {dMap lMap : Entries} {key : String}
    (absent : key ∉ keyUnion dMap lMap) : valueAt dMap key = .null ∧ valueAt lMap key = .null := by
  simp only [keyUnion, List.mem_dedup, List.mem_append, not_or, List.mem_map, not_exists, not_and] at absent
  constructor
  · rw [valueAt, find_absent fun e member same => absent.1 e member same.symm]
    rfl
  · rw [valueAt, find_absent fun e member same => absent.2 e member same.symm]
    rfl

theorem walk_mem {trail : List String} {dMap lMap : Entries} {key : String} :
    key ∈ walk.order trail (keyUnion dMap lMap) ↔ key ∈ keyUnion dMap lMap :=
  (walk.perm trail _).mem_iff

/-- Nothing is reported of a value that is nilish only beside another. -/
theorem silent_together {trail : List String} {path : String}
    (silent : diffValues walk trail path desired live = []) : isNilish desired = isNilish live := by
  cases here : isNilish desired with
  | true =>
    cases there : isNilish live with
    | true => rfl
    | false =>
      rw [diff_added here there] at silent
      cases silent
  | false =>
    cases there : isNilish live with
    | true =>
      rw [diff_removed here there] at silent
      cases silent
    | false => rfl

/-- What is not reported leaves the same. -/
theorem silent_residues : Ordered desired → Ordered live →
    ∀ {trail path}, diffValues walk trail path desired live = [] →
      residue deep desired = residue deep live := by
  induction desired, live using pair_induction with
  | none desired live here there =>
    intro _ _ _ _ _
    rw [residue_nilish here, residue_nilish there]
  | added desired live here there =>
    intro _ _ _ _ silent
    exact absurd (silent_together silent) (by simp [here, there])
  | removed desired live here there =>
    intro _ _ _ _ silent
    exact absurd (silent_together silent) (by simp [here, there])
  | maps dMap lMap here there ih =>
    intro ordered ordered' trail path silent
    obtain ⟨sorted, all⟩ := ordered.entries
    obtain ⟨sorted', all'⟩ := ordered'.entries
    rw [diff_maps here there, List.flatMap_eq_nil_iff] at silent
    rw [maps_residues sorted sorted']
    intro key
    by_cases member : key ∈ keyUnion dMap lMap
    · exact ih key (valueAt_ordered all key) (valueAt_ordered all' key) (silent key (walk_mem.mpr member))
    · obtain ⟨empty, empty'⟩ := union_covers member
      rw [empty, empty']
  | leaves desired live here there both =>
    intro _ _ trail path silent
    rw [diff_leaves here there both] at silent
    by_cases same : jsonString desired = jsonString live
    · rw [jsonString_inj.mp same]
    · rw [if_neg same] at silent
      cases silent

theorem object_residue {left : Json}
    (some_ : residue deep (.object entries) = some left) : kind left = kind (.object entries) := by
  rw [residue_object] at some_
  by_cases gone : (trim (residue deep) entries).isEmpty = true
  · rw [if_pos gone] at some_
    cases some_
  · rw [if_neg gone, Option.some.injEq] at some_
    rw [← some_]
    rfl

theorem other_residue {v : Json} (there : isNilish v = false) (single : kind v ≠ kind (.object [])) :
    ∃ left, residue deep v = some left ∧ kind left = kind v ∧ ((∃ elements, v = .array elements) ∨ left = v) := by
  cases v with
  | null => cases there
  | object entries => exact absurd rfl single
  | array elements =>
    cases elements with
    | nil => cases there
    | cons w rest => cases deep <;> exact ⟨_, rfl, rfl, Or.inl ⟨_, rfl⟩⟩
  | _ => exact ⟨_, if_neg (Bool.eq_false_iff.mp there), rfl, Or.inr rfl⟩

theorem object_kind {v : Json} (own : kind v = kind (.object [])) : ∃ entries, v = .object entries := by
  cases v with
  | object entries => exact ⟨entries, rfl⟩
  | _ => cases own

theorem array_kind {v : Json} (own : kind v = kind (.array [])) : ∃ elements, v = .array elements := by
  cases v with
  | array elements => exact ⟨elements, rfl⟩
  | _ => cases own

/-- Two values that are not both maps and leave the same are the same, or arrays. -/
theorem leaves_residues (here : isNilish desired = false)
    (there : isNilish live = false) (both : ¬ BothMaps desired live)
    (same : residue deep desired = residue deep live) :
    desired = live ∨ ∃ a b, desired = .array a ∧ live = .array b := by
  by_cases map : kind desired = kind (.object [])
  · obtain ⟨entries, rfl⟩ := object_kind map
    have single : kind live ≠ kind (.object []) := by
      intro map'
      obtain ⟨entries', rfl⟩ := object_kind map'
      exact both ⟨entries, entries', rfl, rfl⟩
    obtain ⟨left, some_, own, _⟩ := @other_residue deep _ there single
    exact absurd (own.symm.trans (object_residue (same.trans some_))) single
  · obtain ⟨left, some_, own, shape⟩ := @other_residue deep _ here map
    by_cases map' : kind live = kind (.object [])
    · obtain ⟨entries, rfl⟩ := object_kind map'
      exact absurd (own.symm.trans (object_residue (same.symm.trans some_))) map
    · obtain ⟨left', some', own', shape'⟩ := @other_residue deep _ there map'
      have equal : left = left' := by
        rw [← Option.some.injEq, ← some_, ← some', same]
      subst equal
      have kinds : kind desired = kind live := own.symm.trans own'
      rcases shape with ⟨a, rfl⟩ | rfl
      · obtain ⟨b, rfl⟩ := array_kind kinds.symm
        exact Or.inr ⟨a, b, rfl, rfl⟩
      · rcases shape' with ⟨b, rfl⟩ | rfl
        · obtain ⟨a, rfl⟩ := array_kind kinds
          exact Or.inr ⟨a, b, rfl, rfl⟩
        · exact Or.inl rfl

theorem unclashing_silent : Ordered desired → Ordered live →
    residue deep desired = residue deep live → ¬ Clash deep desired live →
    ∀ {trail path}, diffValues walk trail path desired live = [] := by
  induction desired, live using pair_induction with
  | none desired live here there => exact fun _ _ _ _ _ _ => diff_none here there
  | added desired live here there =>
    intro _ _ same clear
    rw [residue_nilish here] at same
    exact absurd (Clash.added desired live here there same.symm) clear
  | removed desired live here there =>
    intro _ _ same clear
    rw [residue_nilish there] at same
    exact absurd (Clash.removed desired live here same there) clear
  | maps dMap lMap here there ih =>
    intro ordered ordered' same clear trail path
    obtain ⟨sorted, all⟩ := ordered.entries
    obtain ⟨sorted', all'⟩ := ordered'.entries
    rw [diff_maps here there, List.flatMap_eq_nil_iff]
    intro key _
    exact ih key (valueAt_ordered all key) (valueAt_ordered all' key)
      ((maps_residues sorted sorted').mp same key) fun clash => clear (.within dMap lMap key clash)
  | leaves desired live here there both =>
    intro _ _ same clear trail path
    have equal : desired = live := by
      rcases leaves_residues here there both same with equal | ⟨a, b, rfl, rfl⟩
      · exact equal
      · by_contra differ
        exact clear (.arrays a b (fun eq => differ (eq ▸ rfl)) same)
    rw [diff_leaves here there both, if_pos (jsonString_inj.mpr equal)]

theorem clash_reported (clash : Clash deep desired live) :
    ∀ {trail path}, diffValues walk trail path desired live ≠ [] := by
  induction clash with
  | removed desired live there _ none_ =>
    intro trail path silent
    exact absurd (silent_together silent) (by simp [there, none_])
  | added desired live none_ there _ =>
    intro trail path silent
    exact absurd (silent_together silent) (by simp [there, none_])
  | arrays a b differ same =>
    intro trail path silent
    have together := silent_together silent
    cases here : isNilish (.array a) with
    | true =>
      rw [here, eq_comm, isNilish, List.isEmpty_iff] at together
      rw [isNilish, List.isEmpty_iff] at here
      exact differ (here.trans together.symm)
    | false =>
      rw [diff_leaves here (together.symm.trans here) (by rintro ⟨_, _, map, _⟩; cases map)] at silent
      by_cases equal : jsonString (.array a) = jsonString (.array b)
      · exact differ (Json.array.inj (jsonString_inj.mp equal))
      · simp [equal] at silent
  | within dMap lMap key clash ih =>
    intro trail path silent
    have together := silent_together silent
    have nulls : valueAt dMap key = .null → valueAt lMap key = .null → False := by
      intro empty empty'
      rw [empty, empty'] at ih
      exact @ih [] path (diff_none rfl rfl)
    cases here : isNilish (.object dMap) with
    | true =>
      rw [here, eq_comm, isNilish, List.isEmpty_iff] at together
      rw [isNilish, List.isEmpty_iff] at here
      exact nulls (by rw [here]; rfl) (by rw [together]; rfl)
    | false =>
      rw [diff_maps here (together.symm.trans here), List.flatMap_eq_nil_iff] at silent
      by_cases member : key ∈ keyUnion dMap lMap
      · exact ih (silent key (walk_mem.mpr member))
      · exact nulls (union_covers member).1 (union_covers member).2

end Exact

section Swap

def DriftOp.swap : DriftOp → DriftOp
  | .added => .removed
  | .removed => .added
  | .changed => .changed

def DriftEntry.swap (e : DriftEntry) : DriftEntry := ⟨e.path, e.op.swap, e.live, e.desired⟩

theorem union_swap (dMap lMap : Entries) : (keyUnion lMap dMap).Perm (keyUnion dMap lMap) :=
  List.perm_append_comm.dedup

/-- The other way round, the same paths are reported, with added and removed exchanged. -/
theorem diff_swap (walk walk' : Walk) (desired live : Json) : ∀ trail path,
    (diffValues walk' trail path live desired).Perm
      ((diffValues walk trail path desired live).map DriftEntry.swap) := by
  induction desired, live using pair_induction with
  | none desired live here there =>
    intro trail path
    rw [diff_none here there, diff_none there here]
    exact List.Perm.nil
  | added desired live here there =>
    intro trail path
    rw [diff_added here there, diff_removed there here]
    exact List.Perm.refl _
  | removed desired live here there =>
    intro trail path
    rw [diff_removed here there, diff_added there here]
    exact List.Perm.refl _
  | maps dMap lMap here there ih =>
    intro trail path
    rw [diff_maps here there, diff_maps there here, List.map_flatMap]
    have orders := (walk'.perm trail _).trans ((union_swap dMap lMap).trans (walk.perm trail _).symm)
    exact orders.flatMap fun key _ => ih key _ _
  | leaves desired live here there both =>
    intro trail path
    have both' : ¬ BothMaps live desired := fun ⟨l, d, left, right⟩ => both ⟨d, l, right, left⟩
    rw [diff_leaves here there both, diff_leaves there here both']
    by_cases same : jsonString desired = jsonString live
    · rw [if_pos same, if_pos same.symm]
      exact List.Perm.nil
    · rw [if_neg same, if_neg (Ne.symm same)]
      exact List.Perm.refl _

end Swap

/-- Silence means that nothing differs after the removal, and swapping the values swaps the report,
   exactly where the values do not clash or differ after the removal as well. -/
theorem drift_exact (deep : Bool) (walk walk' : Walk) (trail : List String) (path : String)
    (desired live : Doc) :
    ((diffValues walk trail path desired.value live.value = [] ↔
        residue deep desired.value = residue deep live.value) ∧
      (diffValues walk' trail path live.value desired.value).Perm
        ((diffValues walk trail path desired.value live.value).map DriftEntry.swap)) ↔
    ¬ (residue deep desired.value = residue deep live.value ∧ Clash deep desired.value live.value) := by
  constructor
  · rintro ⟨exact_, _⟩ ⟨same, clash⟩
    exact clash_reported clash (exact_.mpr same)
  · intro clear
    refine ⟨⟨silent_residues desired.ordered live.ordered, ?_⟩, diff_swap walk walk' _ _ trail path⟩
    intro same
    exact unclashing_silent desired.ordered live.ordered same fun clash => clear ⟨same, clash⟩

section Hollow

/-- A map that holds a null, and the map without it. -/
theorem null_key_reported : diffValues inOrder ["spec"] "spec" (.object [("a", .null)]) (.object []) =
      [⟨"spec", .removed, jsonString (.object [("a", .null)]), ""⟩] ∧
    residue false (.object [("a", .null)]) = residue false (.object []) ∧
    residue true (.object [("a", .null)]) = residue true (.object []) :=
  ⟨diff_removed rfl rfl, rfl, rfl⟩

end Hollow

end Drift
