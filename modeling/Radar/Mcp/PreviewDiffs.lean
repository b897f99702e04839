import Radar.Mcp.MutationPreview

/- What collectValueDiffs collects: the limit only cuts the list of differences short, and an
   object's differences are those below its keys, in order. -/
namespace PreviewDiffs
open JsonTree MutationPreview Bounded Arrange GoText List
variable {items : String → List Difference} {entries : Entries}

section Lookup
variable (lowering : Lowering) (limit : Nat)

/-- The value below a key is collected with its own collector, and a missing one as null. -/
theorem lookup_collector (entries : Entries) (key : String) :
    ((collectEntries lowering limit entries).lookup key).getD (collectOne lowering limit .null) =
      collectValueDiffs lowering limit (at_ entries key) := by
  induction entries with
  | nil =>
    rw [at_, field, collectEntries, lookup_nil, lookup_nil]
    rfl
  | cons entry rest ih =>
    obtain ⟨name, value⟩ := entry
    rw [at_, field_cons, collectEntries, lookup_cons]
    by_cases here : key = name
    · rw [beq_iff_eq.mpr here, if_pos here]
      rfl
    · rw [beq_false_of_ne here, if_neg here]
      exact ih

theorem collect_elements (elements : List Value) :
    collectElements lowering limit elements = elements.map (collectValueDiffs lowering limit) := by
  induction elements with
  | nil => rw [collectElements, map_nil]
  | cons value rest ih => rw [collectElements, map_cons, ih]

theorem collect_object (entries : Entries) (path : String) (before : Value) :
    collectValueDiffs lowering limit (.object entries) path before = fun differences =>
      if limit ≤ differences.length then differences
      else if unchanged before (.object entries) then differences
      else inTurn limit ((sortedKeys entries (entriesOf before)).map fun key =>
        collectValueDiffs lowering limit (at_ entries key) (jsonPathAppend path key)
          (at_ (entriesOf before) key)) differences := by
  funext differences
  rw [collectValueDiffs]
  simp only [lookup_collector]

theorem collect_array (elements : List Value) (path : String) (before : Value) :
    collectValueDiffs lowering limit (.array elements) path before = fun differences =>
      if limit ≤ differences.length then differences
      else if unchanged before (.array elements) then differences
      else match before with
      | .array befores =>
        if elements.length = befores.length then
          inTurn limit ((elements.zip befores).zipIdx.map fun part =>
            collectValueDiffs lowering limit part.1.1 (jsonPathAppend path (toString part.2))
              part.1.2) differences
        else differences ++ [difference lowering path before (.array elements)]
      | _ => if elements.length = 0 then differences
        else differences ++ [difference lowering path before (.array elements)] := by
  funext differences
  rw [collectValueDiffs]
  cases before with
  | array befores =>
    simp only [collect_elements, zip_map_left, zipIdx_map, map_map]
    rfl
  | _ => rfl

end Lookup

section Unchanged

theorem normalize_field (entries : Entries) (key : String) :
    field (normalizeEntries entries) key = (field entries key).map normalizeJSONNumber := by
  induction entries with
  | nil => rfl
  | cons entry rest ih =>
    obtain ⟨name, value⟩ := entry
    rw [normalizeEntries, field_cons, field_cons]
    by_cases here : key = name
    · rw [if_pos here, if_pos here]
      rfl
    · rw [if_neg here, if_neg here]
      exact ih

theorem normalize_at (entries : Entries) (key : String) :
    normalizeJSONNumber (at_ entries key) = (field (normalizeEntries entries) key).getD .null := by
  rw [normalize_field, at_]
  cases field entries key <;> rfl

/-- Below each key of an object that did not change, nothing did. -/
theorem unchanged_at {before : Value} (same : unchanged before (.object entries) = true) (key : String) :
    unchanged (at_ (entriesOf before) key) (at_ entries key) = true := by
  rw [unchanged, decide_eq_true_eq] at same ⊢
  cases before with
  | object befores =>
    rw [normalizeJSONNumber, normalizeJSONNumber, Value.object.injEq] at same
    rw [entriesOf, normalize_at, normalize_at, same]
  | _ =>
    simp [normalizeJSONNumber] at same

theorem unchanged_collect {lowering : Lowering} {limit : Nat} {before after : Value}
    (same : unchanged before after = true) (path : String) (differences : List Difference) :
    collectValueDiffs lowering limit after path before differences = differences := by
  cases after with
  | object entries => simp only [collect_object, same, if_true, ite_self]
  | array elements => simp only [collect_array, same, if_true, ite_self]
  | _ => simp only [collectValueDiffs, collectOne, same, if_true, ite_self]

end Unchanged

section Collects
variable (lowering : Lowering)

/-- A value on its own is one difference where it changed. -/
def oneDifference (path : String) (before after : Value) : List Difference :=
  if unchanged before after then [] else [difference lowering path before after]

theorem collects_one (limit : Nat) (after : Value) (path : String) (before : Value) :
    Collects limit (collectOne lowering limit after path before)
      (oneDifference lowering path before after) := by
  apply collects_guarded
  intro held room
  rw [oneDifference]
  split
  next => rw [append_nil, take_of_length_le room.le]
  next => exact append_one room _

/-- The differences below each key in the order of the keys. -/
theorem collects_object {limit : Nat} {path : String} {before : Value}
    (each : ∀ key, Collects limit (collectValueDiffs lowering limit (at_ entries key)
      (jsonPathAppend path key) (at_ (entriesOf before) key)) (items key))
    (still : unchanged before (.object entries) = true → ∀ key, items key = []) :
    Collects limit (collectValueDiffs lowering limit (.object entries) path before)
      ((sortedKeys entries (entriesOf before)).flatMap items) := by
  rw [collect_object]
  apply collects_guarded
  intro held room
  split
  next same =>
    have none : (sortedKeys entries (entriesOf before)).flatMap items = [] :=
      flatMap_eq_nil_iff.mpr fun key _ => still same key
    rw [none, append_nil, take_of_length_le room.le]
  next => exact collects_each (fun key _ => each key) held room.le

/-- All differences below a value, of which a limit shows the first so many. -/
def Limited (after : Value) : Prop :=
  ∀ path before, Cut fun limit => collectValueDiffs lowering limit after path before

theorem limited_one {after : Value}
    (alone : ∀ limit, collectValueDiffs lowering limit after = collectOne lowering limit after) :
    Limited lowering after := by
  intro path before
  refine ⟨oneDifference lowering path before after, ?_⟩
  intro limit
  show Collects limit (collectValueDiffs lowering limit after path before) _
  rw [alone]
  exact collects_one lowering limit after path before

theorem limited_at (each : ∀ entry ∈ entries, Limited lowering entry.2)
    (key : String) : Limited lowering (at_ entries key) := by
  rw [at_, field]
  cases found : entries.lookup key with
  | none => exact limited_one lowering fun limit => rfl
  | some value =>
    obtain ⟨front, back, split, _⟩ := lookup_eq_some_iff.mp found
    exact each (key, value) (by simp [split])

theorem limited_object (each : ∀ entry ∈ entries, Limited lowering entry.2) :
    Limited lowering (.object entries) := by
  intro path before
  have below : ∀ key, Cut fun limit => collectValueDiffs lowering limit (at_ entries key)
      (jsonPathAppend path key) (at_ (entriesOf before) key) :=
    fun key => limited_at lowering each key _ _
  choose items collects using below
  refine ⟨(sortedKeys entries (entriesOf before)).flatMap items, ?_⟩
  intro limit
  refine collects_object lowering (fun key => collects key limit) ?_
  intro same key
  exact collects_still Nat.one_pos (collects key 1) (unchanged_collect (unchanged_at same key) _ [])

theorem limited_array {elements : List Value}
    (each : ∀ element ∈ elements, Limited lowering element) : Limited lowering (.array elements) := by
  intro path before
  simp only [collect_array]
  by_cases same : unchanged before (.array elements) = true
  · simp only [same, if_true, ite_self]
    exact cut_none
  · simp only [same, Bool.false_eq_true, if_false]
    cases before with
    | array befores =>
      by_cases level : elements.length = befores.length
      · simp only [level, if_true]
        apply cut_guarded
        apply cut_inTurn
        intro part member
        have zipped : part.1 ∈ elements.zip befores := fst_mem_of_mem_zipIdx member
        exact each part.1.1 (of_mem_zip zipped).1 _ _
      · simp only [level, if_false]
        exact cut_one _
    | _ =>
      by_cases empty : elements.length = 0
      · simp only [empty, if_true, ite_self]
        exact cut_none
      · simp only [empty, if_false]
        exact cut_one _

mutual
theorem limited : ∀ after : Value, Limited lowering after
  | .object entries => limited_object lowering (entries_limited entries)
  | .array elements => limited_array lowering (elements_limited elements)
  | .null => limited_one lowering fun _ => rfl
  | .bool _ => limited_one lowering fun _ => rfl
  | .integer _ => limited_one lowering fun _ => rfl
  | .float _ => limited_one lowering fun _ => rfl
  | .string _ => limited_one lowering fun _ => rfl

theorem elements_limited : ∀ elements : List Value, ∀ element ∈ elements, Limited lowering element
  | [], _, member => absurd member not_mem_nil
  | value :: rest, element, member => by
    rcases mem_cons.mp member with first | later
    · exact first ▸ limited value
    · exact elements_limited rest element later

theorem entries_limited : ∀ entries : Entries, ∀ entry ∈ entries, Limited lowering entry.2
  | [], _, member => absurd member not_mem_nil
  | (_, value) :: rest, entry, member => by
    rcases mem_cons.mp member with first | later
    · exact first ▸ limited value
    · exact entries_limited rest entry later
end

end Collects

section Preview

/-- The data of an object as a preview holds it, null where it has none. -/
def dataValue (obj : Option Entries) : Value := (obj.bind fun o => field o "data").getD .null

def metadataPart (obj : Entries) : Entries :=
  (nested (.object obj) ["metadata", "annotations"]).toList.map (fun v => ("annotations", v)) ++
    (nested (.object obj) ["metadata", "labels"]).toList.map (fun v => ("labels", v))

/-- What else of an object a preview holds. -/
def otherParts : Option Entries → Entries
  | none => []
  | some obj => (if metadataPart obj = [] then [] else [("metadata", .object (metadataPart obj))]) ++
    (nested (.object obj) ["spec"]).toList.map (fun v => ("spec", v))

def dataPart (obj : Option Entries) : Entries :=
  (obj.bind fun o => field o "data").toList.map fun v => ("data", v)

theorem preview_parts (obj : Option Entries) :
    entriesOf (mutationPreviewObject obj) = dataPart obj ++ otherParts obj := by
  cases obj with
  | none => rfl
  | some o =>
    have part : nested (.object o) ["data"] = field o "data" := by
      rw [nested]
      cases field o "data" <;> rfl
    simp only [mutationPreviewObject, entriesOf, part, append_assoc]
    rfl

/-- Of three keys, those that are there. -/
def keysOf (data metadata spec : Bool) : List String :=
  (if data then ["data"] else []) ++ (if metadata then ["metadata"] else []) ++
    (if spec then ["spec"] else [])

theorem preview_keys (obj : Option Entries) : ∃ metadata spec,
    (entriesOf (mutationPreviewObject obj)).map Prod.fst =
      keysOf (obj.bind fun o => field o "data").isSome metadata spec := by
  rw [preview_parts]
  cases obj with
  | none => exact ⟨false, false, rfl⟩
  | some o =>
    refine ⟨!(metadataPart o).isEmpty, (nested (.object o) ["spec"]).isSome, ?_⟩
    rw [keysOf, dataPart, otherParts, append_assoc, map_append, map_append]
    congr 1
    · rw [Option.bind_some]
      cases field o "data" <;> rfl
    · congr 1
      · cases metadataPart o <;> rfl
      · cases nested (.object o) ["spec"] <;> rfl

theorem mem_keysOf (data metadata spec : Bool) : ("data" ∈ keysOf data metadata spec ↔ data = true) ∧
      ("metadata" ∈ keysOf data metadata spec ↔ metadata = true) ∧
      ("spec" ∈ keysOf data metadata spec ↔ spec = true) := by
  cases data <;> cases metadata <;> cases spec <;> decide

theorem flatMap_keysOf (data metadata spec : Bool) (items : String → List Difference) :
    (keysOf data metadata spec).flatMap items =
      (if data = true then items "data" else []) ++ ((if metadata = true then items "metadata" else []) ++
        (if spec = true then items "spec" else [])) := by
  cases data <;> cases metadata <;> cases spec <;> simp [keysOf]

theorem ite_absent {there : Bool} {items : List Difference} (absent : there = false → items = []) :
    (if there = true then items else []) = items := by
  cases there with
  | true => rfl
  | false => exact (absent rfl).symm

theorem sorted_keysOf : ∀ data metadata spec data' metadata' spec' : Bool,
    sortStable lessText (keysOf data metadata spec ++
      (keysOf data' metadata' spec').filter fun key => !(keysOf data metadata spec).contains key) =
      keysOf (data || data') (metadata || metadata') (spec || spec') := by
  decide

/-- A preview's differences are those of the data, of the metadata and of the spec, in this order. -/
theorem preview_sections {before : Option Entries} {after : Entries}
    (absent : ∀ key, key ∉ (entriesOf (mutationPreviewObject (some after))).map Prod.fst →
      key ∉ (entriesOf (mutationPreviewObject before)).map Prod.fst → items key = []) :
    (sortedKeys (entriesOf (mutationPreviewObject (some after)))
      (entriesOf (mutationPreviewObject before))).flatMap items =
      items "data" ++ (items "metadata" ++ items "spec") := by
  obtain ⟨m, s, keys⟩ := preview_keys (some after)
  obtain ⟨m', s', keys'⟩ := preview_keys before
  rw [keys, keys'] at absent
  rw [sortedKeys, keys, keys', sorted_keysOf, flatMap_keysOf]
  generalize ((some after).bind fun o => field o "data").isSome = d at absent ⊢
  generalize (before.bind fun o => field o "data").isSome = d' at absent ⊢
  congr 1
  · exact ite_absent fun gone => absent "data" (by simp_all [mem_keysOf]) (by simp_all [mem_keysOf])
  · congr 1
    · exact ite_absent fun gone => absent "metadata" (by simp_all [mem_keysOf]) (by simp_all [mem_keysOf])
    · exact ite_absent fun gone => absent "spec" (by simp_all [mem_keysOf]) (by simp_all [mem_keysOf])

theorem at_data (obj : Option Entries) :
    at_ (entriesOf (mutationPreviewObject obj)) "data" = dataValue obj := by
  have elsewhere : field (otherParts obj) "data" = none := by
    cases obj with
    | none => rfl
    | some o =>
      apply field_absent
      rw [otherParts]
      cases nested (.object o) ["spec"] <;> split <;> simp
  rw [preview_parts, at_, field, lookup_append, ← field, ← field, elsewhere, dataPart, dataValue]
  cases obj.bind fun o => field o "data" <;> rfl

theorem at_other (obj : Option Entries) {key : String} (other : key ≠ "data") :
    at_ (entriesOf (mutationPreviewObject obj)) key = at_ (otherParts obj) key := by
  have elsewhere : field (dataPart obj) key = none := by
    apply field_absent
    rw [dataPart]
    cases obj.bind fun o => field o "data" <;> simp [other]
  rw [preview_parts, at_, field, lookup_append, ← field, ← field, elsewhere, at_, Option.none_or]

variable {lowering : Lowering}

/-- A preview shows the first twelve of the differences in the data and those elsewhere. -/
theorem preview_run {before : Option Entries} {after : Entries} {data : List Difference}
    (collects : Collects 12
      (collectValueDiffs lowering 12 (dataValue (some after)) "/data" (dataValue before)) data)
    (others : ∀ key, Collects 12 (collectValueDiffs lowering 12 (at_ (otherParts (some after)) key)
      (jsonPathAppend "" key) (at_ (otherParts before) key)) (items key)) :
    collectValueDiffs lowering 12 (mutationPreviewObject (some after)) ""
      (mutationPreviewObject before) [] =
      (data ++ (items "metadata" ++ items "spec")).take 12 := by
  let whole : String → List Difference := fun key => if key = "data" then data else items key
  let entries := entriesOf (mutationPreviewObject (some after))
  let befores := entriesOf (mutationPreviewObject before)
  have each : ∀ key, Collects 12 (collectValueDiffs lowering 12 (at_ entries key)
      (jsonPathAppend "" key) (at_ befores key)) (whole key) := by
    intro key
    by_cases here : key = "data"
    · subst here
      have path : jsonPathAppend "" "data" = "/data" := by decide
      simp only [entries, befores, whole, at_data, path, if_true]
      exact collects
    · simp only [entries, befores, whole, at_other _ here, here, if_false]
      exact others key
  have nothing : ∀ key, unchanged (at_ befores key) (at_ entries key) = true → whole key = [] :=
    fun key same => collects_still (by decide) (each key) (unchanged_collect same _ [])
  have object : mutationPreviewObject (some after) = .object entries := rfl
  have run : Collects 12 (collectValueDiffs lowering 12 (.object entries) ""
      (mutationPreviewObject before)) ((sortedKeys entries befores).flatMap whole) := by
    apply collects_object lowering each
    intro same key
    exact nothing key (unchanged_at same key)
  have sections : (sortedKeys entries befores).flatMap whole =
      whole "data" ++ (whole "metadata" ++ whole "spec") := by
    apply preview_sections
    intro key gone gone'
    apply nothing
    rw [at_, at_, field_absent gone, field_absent gone']
    rfl
  rw [object, run [] (Nat.zero_le 12), nil_append, sections]
  rfl

/-- Two previews that differ in the data alone show the same differences elsewhere. -/
theorem preview_two {before before' : Option Entries} {after after' : Entries}
    {data data' : List Difference} (others : otherParts before = otherParts before')
    (others' : otherParts (some after) = otherParts (some after'))
    (collects : Collects 12
      (collectValueDiffs lowering 12 (dataValue (some after)) "/data" (dataValue before)) data)
    (collects' : Collects 12
      (collectValueDiffs lowering 12 (dataValue (some after')) "/data" (dataValue before')) data') :
    ∃ rest, collectValueDiffs lowering 12 (mutationPreviewObject (some after)) ""
        (mutationPreviewObject before) [] = (data ++ rest).take 12 ∧
      collectValueDiffs lowering 12 (mutationPreviewObject (some after')) ""
        (mutationPreviewObject before') [] = (data' ++ rest).take 12 := by
  have below : ∀ key, Cut fun limit => collectValueDiffs lowering limit
      (at_ (otherParts (some after)) key) (jsonPathAppend "" key) (at_ (otherParts before) key) :=
    fun key => limited lowering _ _ _
  choose items each using below
  refine ⟨items "metadata" ++ items "spec", ?_, ?_⟩
  · exact preview_run collects fun key => each key 12
  · refine preview_run collects' fun key => ?_
    rw [← others, ← others']
    exact each key 12

end Preview

end PreviewDiffs
