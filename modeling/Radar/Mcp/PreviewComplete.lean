import Radar.Base.JsonPointer
import Radar.Mcp.PreviewDiffs

/- internal/mcp/mutation_verification.go: when the differences of a preview, put back at their paths,
   lead from the one object to the other. -/
namespace PreviewComplete
open List hiding head
open GoText JsonTree JsonPointer MutationPreview PreviewDiffs Bounded Arrange

section Claims

/-- A value as it is decoded: an object has each key once, and a float is one of 64 bits. -/
def Decoded (value : Option Value) : Prop := ∀ path,
  (∀ entries, valueAt path value = some (.object entries) → (entries.map Prod.fst).Nodup) ∧
    ∀ n : Int, valueAt path value = some (.float n) → float64 n = n

/-- The value after put where a difference has its path. -/
def replaceAt (after : Option Value) (value : Option Value) (d : Difference) : Option Value :=
  match tokensOf d.path with
  | some path => putAt path (valueAt path after) value
  | none => value

/-- The differences are all there are, each at a place of its own. -/
structure Complete (before after : Option Value) (differences : List Difference) : Prop where
  silent : differences = [] ↔ Same before after
  places : ∀ d ∈ differences, ∃ path, d.path = pointer path ∧
    ¬ Same (valueAt path before) (valueAt path after)
  apart : differences.Pairwise fun d e => ∀ path path', tokensOf d.path = some path →
    tokensOf e.path = some path' → ¬ path <+: path' ∧ ¬ path' <+: path
  restores : Same (differences.foldl (replaceAt after) before) after

/-- Two values under one path, the way the values after lead. -/
inductive Meets (before after : Option Value) : Option Value → Option Value → Prop
  | here : Meets before after before after
  | key {b : Option Value} {entries : Entries} (key : String)
      (above : Meets before after b (some (.object entries))) :
      Meets before after (field (entriesOf (b.getD .null)) key) (field entries key)
  | index {befores elements : List Value} (i : Nat)
      (above : Meets before after (some (.array befores)) (some (.array elements)))
      (level : elements.length = befores.length) : Meets before after befores[i]? elements[i]?

/-- A pair that nothing or the wrong thing is reported of: a null beside a missing value, numbers that
are rounded to one, an object in the place of anything else unless it is not empty and the place was,
an empty array in the place of what was no array. -/
structure Plain (before after : Option Value) : Prop where
  added : before = none → after ≠ some .null
  removed : before = some .null → after ≠ none
  exact_ : ∀ b a p q, before = some b → after = some a → number b = some p → number a = some q →
    unchanged b a = true → p = q
  objects : ∀ entries, after = some (.object entries) → (∃ befores, before = some (.object befores)) ∨
    entries ≠ [] ∧ (before = none ∨ before = some .null)
  arrays : after = some (.array []) → ∃ befores, before = some (.array befores)

def PlainThroughout (before after : Option Value) : Prop := ∀ b a, Meets before after b a → Plain b a

end Claims

section Paths

theorem escape_code (key : String) : replaceChar '/' "~1" (replaceChar '~' "~0" key) = escape key := by
  have inner : (replaceChar '~' "~0" key).toList =
      key.toList.flatMap fun d => if d = '~' then "~0".toList else [d] := String.toList_ofList
  have zero : "~0".toList = ['~', '0'] := by decide
  have one : "~1".toList = ['~', '1'] := by decide
  rw [replaceChar, inner, flatMap_assoc, escape, zero, one]
  refine congrArg String.ofList (flatMap_congr fun c _ => ?_)
  unfold escapeChar
  by_cases tilde : c = '~'
  · rw [if_pos tilde, if_pos tilde]
    decide
  · rw [if_neg tilde, if_neg tilde, flatMap_cons, flatMap_nil, append_nil]

theorem append_pointer (path key : String) : jsonPathAppend path key = path ++ pointer [key] := by
  unfold jsonPathAppend
  rw [escape_code]
  by_cases top : path = ""
  · simp [top, pointer]
  · simp [top, pointer, String.append_assoc]

/-- A difference by its place below the values at hand. -/
structure Found where
  path : List String
  before : Value
  after : Value

def Found.shown (lowering : Lowering) (path : String) (d : Found) : Difference :=
  difference lowering (path ++ pointer d.path) d.before d.after

def Found.below (key : String) (d : Found) : Found := ⟨key :: d.path, d.before, d.after⟩

theorem shown_below (lowering : Lowering) (path key : String) (ds : List Found) :
    (ds.map (Found.below key)).map (Found.shown lowering path) =
      ds.map (Found.shown lowering (jsonPathAppend path key)) := by
  rw [map_map]
  refine map_congr_left fun d _ => ?_
  simp only [Function.comp, Found.shown, Found.below, append_pointer, pointer, String.append_assoc,
    String.append_empty]

def restore (after : Option Value) (ds : List Found) (before : Option Value) : Option Value :=
  ds.foldl (fun value d => putAt d.path (valueAt d.path after) value) before

/-- What is collected below two values. -/
structure Charts (lowering : Lowering) (before after : Option Value) (ds : List Found) : Prop where
  collects : ∀ limit path, Collects limit (collectValueDiffs lowering limit (after.getD .null) path
    (before.getD .null)) (ds.map (Found.shown lowering path))
  still : unchanged (before.getD .null) (after.getD .null) = true → ds = []
  apart : ds.Pairwise fun d e => ¬ d.path <+: e.path ∧ ¬ e.path <+: d.path
  differ : PlainThroughout before after → ∀ d ∈ ds, ¬ Same (valueAt d.path before) (valueAt d.path after)
  restores : Same (restore after ds before) after ↔ PlainThroughout before after

end Paths

section Leaves
variable {lowering : Lowering} {before after : Option Value}

theorem plain_leaf (leaf : Leaf after) : PlainThroughout before after ↔ Plain before after := by
  constructor
  · intro plain
    exact plain before after .here
  · intro plain b a meets
    have only : b = before ∧ a = after := by
      induction meets with
      | here => exact ⟨rfl, rfl⟩
      | key key above ih =>
        rw [← ih.2] at leaf
        exact leaf.elim
      | index i above level ih =>
        rw [← ih.2] at leaf
        exact leaf.elim
    rw [only.1, only.2]
    exact plain

theorem collect_leaf (leaf : Leaf after) (limit : Nat) :
    collectValueDiffs lowering limit (after.getD .null) = collectOne lowering limit (after.getD .null) := by
  cases after with
  | none => rfl
  | some value =>
    cases value with
    | object entries => exact leaf.elim
    | array elements => exact leaf.elim
    | _ => rfl

/-- What a number is rounded to. -/
theorem number_normal {v : Value} {p : Rat} (found : number v = some p) :
    ∃ r, normalizeJSONNumber v = .float r ∧ head v = .number p := by
  cases v with
  | integer n => exact ⟨_, rfl, congrArg Head.number (Option.some.inj found)⟩
  | float q => exact ⟨_, rfl, congrArg Head.number (Option.some.inj found)⟩
  | _ => exact absurd found (by simp [number])

theorem normal_number {v : Value} {r : Rat} (same : normalizeJSONNumber v = .float r) :
    ∃ p, number v = some p := by
  cases v with
  | integer n => exact ⟨_, rfl⟩
  | float q => exact ⟨_, rfl⟩
  | _ => exact absurd same (by simp [normalizeJSONNumber])

/-- What is neither a number nor has parts is as it is written. -/
theorem normal_other {v w : Value} (plain : Leaf (some w)) (none_ : number w = none)
    (same : normalizeJSONNumber v = normalizeJSONNumber w) : v = w := by
  cases w with
  | object entries => exact plain.elim
  | array elements => exact plain.elim
  | integer n => exact absurd none_ (by simp [number])
  | float q => exact absurd none_ (by simp [number])
  | _ => cases v <;> simp_all [normalizeJSONNumber]

theorem plain_iff (leaf : Leaf after) : Plain before after ↔
    (before = none → after ≠ some .null) ∧ (before = some .null → after ≠ none) ∧
      ∀ b a p q, before = some b → after = some a → number b = some p → number a = some q →
        unchanged b a = true → p = q := by
  constructor
  · intro plain
    exact ⟨plain.added, plain.removed, plain.exact_⟩
  · rintro ⟨added, removed, exact_⟩
    refine ⟨added, removed, exact_, ?_, ?_⟩
    · rintro entries rfl
      exact leaf.elim
    · rintro rfl
      exact leaf.elim

/-- A value that did not change is the one before up to what the pair hides. -/
theorem unchanged_leaf (leaf : Leaf after)
    (same : unchanged (before.getD .null) (after.getD .null) = true) :
    Same before after ↔ Plain before after := by
  rw [plain_iff leaf]
  have normal : normalizeJSONNumber (before.getD .null) = normalizeJSONNumber (after.getD .null) :=
    of_decide_eq_true same
  have leaf' : Leaf (some (after.getD .null)) := by
    cases after with
    | none => trivial
    | some a => exact leaf
  cases found : number (after.getD .null) with
  | some q =>
    obtain ⟨r, rounded, head_⟩ := number_normal found
    obtain ⟨p, found'⟩ := normal_number (normal.trans rounded)
    obtain ⟨_, _, head'⟩ := number_normal found'
    cases before with
    | none => exact absurd found' (by simp [number])
    | some b =>
      cases after with
      | none => exact absurd found (by simp [number])
      | some a =>
        have leaf_b : Leaf (some b) := by
          cases b with
          | object entries => exact absurd found' (by simp [number])
          | array elements => exact absurd found' (by simp [number])
          | _ => trivial
        rw [same_leaf leaf_b leaf]
        constructor
        · intro heads
          refine ⟨by simp, by simp, ?_⟩
          rintro b' a' p' q' ⟨⟩ ⟨⟩ number_b number_a _
          have both := heads
          rw [Option.map_some, Option.map_some, (number_normal number_b).choose_spec.2,
            (number_normal number_a).choose_spec.2] at both
          exact Head.number.inj (Option.some.inj both)
        · rintro ⟨_, _, exact_⟩
          rw [Option.map_some, Option.map_some]
          refine congrArg some (head'.trans (Eq.trans ?_ head_.symm))
          rw [exact_ b a p q rfl rfl found' found same]
  | none =>
    have equal : before.getD .null = after.getD .null := normal_other leaf' found normal
    have numbers : ∀ b a p q, before = some b → after = some a → number b = some p →
        number a = some q → unchanged b a = true → p = q := by
      rintro b a p q rfl rfl _ number_a _
      exact absurd (found.symm.trans number_a) (by simp)
    cases before with
    | none =>
      cases after with
      | none => exact iff_of_true (same_refl none) ⟨by simp, by simp, numbers⟩
      | some a =>
        obtain rfl : Value.null = a := equal
        exact iff_of_false (fun same => absurd same.head (by simp)) fun all => all.1 rfl rfl
    | some b =>
      cases after with
      | none =>
        obtain rfl : b = Value.null := equal
        exact iff_of_false (fun same => absurd same.head (by simp)) fun all => all.2.1 rfl rfl
      | some a =>
        obtain rfl : b = a := equal
        exact iff_of_true (same_refl _) ⟨by simp, by simp, numbers⟩

theorem unchanged_self (v : Value) : unchanged v v = true := decide_eq_true rfl

/-- Values of one head without parts did not change: a float of an integer's value is the integer's. -/
theorem same_unchanged (leaf : Leaf after) (decoded : Decoded before) (decoded' : Decoded after)
    (same : Same before after) : unchanged (before.getD .null) (after.getD .null) = true := by
  have heads := same.head
  cases before with
  | none =>
    cases after with
    | none => exact unchanged_self _
    | some a => exact absurd heads (by simp)
  | some b =>
    cases after with
    | none => exact absurd heads (by simp)
    | some a =>
      have head_ : head b = head a := Option.some.inj heads
      cases a with
      | object entries => exact leaf.elim
      | array elements => exact leaf.elim
      | integer n =>
        cases b with
        | integer m =>
          have values : (m : Rat) = n := Head.number.inj head_
          rw [Rat.intCast_inj.mp values]
          exact unchanged_self _
        | float q =>
          obtain rfl : q = (n : Rat) := Head.number.inj head_
          have kept : float64 n = n := (decoded []).2 n rfl
          simp [unchanged, normalizeJSONNumber, kept]
        | _ => exact absurd head_ (by simp [head])
      | float q =>
        cases b with
        | integer m =>
          obtain rfl : (m : Rat) = q := Head.number.inj head_
          have kept : float64 m = m := (decoded' []).2 m rfl
          simp [unchanged, normalizeJSONNumber, kept]
        | float p =>
          obtain rfl : p = q := Head.number.inj head_
          exact unchanged_self _
        | _ => exact absurd head_ (by simp [head])
      | _ => cases b <;> simp_all [head, unchanged]

theorem charts_leaf (leaf : Leaf after) (decoded : Decoded before) (decoded' : Decoded after) :
    ∃ ds, Charts lowering before after ds := by
  by_cases same : unchanged (before.getD .null) (after.getD .null) = true
  · refine ⟨[], fun limit path => ?_, fun _ => rfl, List.Pairwise.nil, ?_, ?_⟩
    · rw [collect_leaf leaf]
      have one := collects_one lowering limit (after.getD .null) path (before.getD .null)
      rwa [oneDifference, if_pos same] at one
    · exact fun _ d member => absurd member not_mem_nil
    · rw [plain_leaf leaf, ← unchanged_leaf leaf same]
      rfl
  · refine ⟨[⟨[], before.getD .null, after.getD .null⟩], fun limit path => ?_, fun same' => absurd same' same,
      pairwise_singleton _ _, ?_, ?_⟩
    · rw [collect_leaf leaf]
      have one := collects_one lowering limit (after.getD .null) path (before.getD .null)
      rw [oneDifference, if_neg same] at one
      simpa [Found.shown, pointer] using one
    · intro _ d member
      rw [mem_singleton.mp member]
      exact fun alike => same (same_unchanged leaf decoded decoded' alike)
    · rw [plain_leaf leaf, plain_iff leaf]
      refine iff_of_true (same_refl after) ⟨?_, ?_, ?_⟩
      · rintro rfl rfl
        exact same (unchanged_self _)
      · rintro rfl rfl
        exact same (unchanged_self _)
      · rintro b a p q rfl rfl _ _ same'
        exact absurd same' same

end Leaves

section Objects
variable {lowering : Lowering} {before : Option Value} {entries : Entries}
variable {items : String → List Found}

theorem value_none (path : List String) : valueAt path none = none := by
  cases path <;> rfl

/-- What is met below an object is met below one of its keys. -/
theorem meets_object {b a : Option Value} : Meets before (some (.object entries)) b a ↔
    (b = before ∧ a = some (.object entries)) ∨
      ∃ key, Meets (field (entriesOf (before.getD .null)) key) (field entries key) b a := by
  constructor
  · intro meets
    induction meets with
    | here => exact .inl ⟨rfl, rfl⟩
    | @key b' inner key above ih =>
      rcases ih with ⟨rfl, same⟩ | ⟨first, below⟩
      · obtain rfl : inner = entries := Value.object.inj (Option.some.inj same)
        exact .inr ⟨key, .here⟩
      · exact .inr ⟨first, below.key key⟩
    | index i above level ih =>
      rcases ih with ⟨_, same⟩ | ⟨first, below⟩
      · exact absurd same (by simp)
      · exact .inr ⟨first, below.index i level⟩
  · rintro (⟨rfl, rfl⟩ | ⟨first, below⟩)
    · exact .here
    · induction below with
      | here => exact .key first .here
      | key key above ih => exact ih.key key
      | index i above level ih => exact ih.index i level

theorem plain_object : PlainThroughout before (some (.object entries)) ↔
    Plain before (some (.object entries)) ∧
      ∀ key, PlainThroughout (field (entriesOf (before.getD .null)) key) (field entries key) := by
  constructor
  · intro plain
    exact ⟨plain _ _ .here, fun key b a below => plain b a (meets_object.mpr (.inr ⟨key, below⟩))⟩
  · rintro ⟨here, below⟩ b a meets
    rcases meets_object.mp meets with ⟨rfl, rfl⟩ | ⟨key, inner⟩
    · exact here
    · exact below key b a inner

theorem put_below (key : String) (ds : List Found) (befores : Entries) : ∃ rs,
    restore (some (.object entries)) (ds.map (Found.below key)) (some (.object befores)) =
      some (.object rs) ∧
    ∀ other, field rs other =
      if other = key then restore (field entries key) ds (field befores key) else field befores other := by
  induction ds generalizing befores with
  | nil =>
    refine ⟨befores, rfl, fun other => ?_⟩
    by_cases here : other = key
    · rw [if_pos here, here]
      rfl
    · rw [if_neg here]
  | cons d rest ih =>
    obtain ⟨rs, run, fields⟩ := ih
      (setField key (putAt d.path (valueAt d.path (field entries key)) (field befores key)) befores)
    refine ⟨rs, run, fun other => ?_⟩
    rw [fields, field_set, field_set, if_pos rfl]
    by_cases here : other = key
    · rw [if_pos here, if_pos here]
      rfl
    · rw [if_neg here, if_neg here, if_neg here]

theorem put_keys {keys : List String} (distinct : keys.Nodup) (items : String → List Found)
    (befores : Entries) : ∃ rs,
    restore (some (.object entries)) (keys.flatMap fun key => (items key).map (Found.below key))
      (some (.object befores)) = some (.object rs) ∧
    ∀ other, field rs other = if other ∈ keys then
      restore (field entries other) (items other) (field befores other) else field befores other := by
  induction keys generalizing befores with
  | nil => exact ⟨befores, rfl, fun other => (if_neg not_mem_nil).symm⟩
  | cons key rest ih =>
    obtain ⟨fresh, distinct'⟩ := nodup_cons.mp distinct
    obtain ⟨middle, first, fields⟩ := @put_below entries key (items key) befores
    obtain ⟨rs, later, fields'⟩ := ih distinct' middle
    refine ⟨rs, ?_, fun other => ?_⟩
    · rw [flatMap_cons, restore, foldl_append]
      exact (congrArg (restore _ _) first).trans later
    · rw [fields', fields]
      by_cases here : other = key
      · rw [here, if_neg fresh, if_pos rfl, if_pos mem_cons_self]
      · rw [if_neg here]
        simp only [mem_cons, here, false_or]

/-- A value that has no keys and is not null keeps to that. -/
def Solid (value : Value) : Prop := value ≠ .null ∧ ∀ inner, value ≠ .object inner

theorem put_solid {value : Value} (solid : Solid value) {path : List String} (deep : path ≠ [])
    (new : Option Value) : ∃ value', putAt path new (some value) = some value' ∧ Solid value' := by
  cases path with
  | nil => exact absurd rfl deep
  | cons token rest =>
    cases value with
    | object inner => exact absurd rfl (solid.2 inner)
    | null => exact absurd rfl solid.1
    | array elements => exact ⟨_, rfl, by simp, by simp⟩
    | _ => exact ⟨_, rfl, solid⟩

theorem restore_solid {after : Option Value} {value : Value} (solid : Solid value) {ds : List Found}
    (deep : ∀ d ∈ ds, d.path ≠ []) : ∃ value', restore after ds (some value) = some value' ∧ Solid value' := by
  induction ds generalizing value with
  | nil => exact ⟨value, rfl, solid⟩
  | cons d rest ih =>
    obtain ⟨middle, put, solid'⟩ := put_solid solid (deep d mem_cons_self) (valueAt d.path after)
    obtain ⟨value', later, solid''⟩ := ih solid' fun d' member => deep d' (mem_cons_of_mem d member)
    refine ⟨value', ?_, solid''⟩
    rw [restore, foldl_cons, put]
    exact later

theorem sorted_mem {entries befores : Entries} {key : String} : key ∈ sortedKeys entries befores ↔
    key ∈ entries.map Prod.fst ∨ key ∈ befores.map Prod.fst := by
  rw [sortedKeys, (sort_perm lessText _).mem_iff, mem_append, mem_filter]
  by_cases there : key ∈ entries.map Prod.fst <;> simp [there]

theorem sorted_distinct {entries befores : Entries} (distinct : (entries.map Prod.fst).Nodup)
    (distinct' : (befores.map Prod.fst).Nodup) : (sortedKeys entries befores).Nodup := by
  rw [sortedKeys, (sort_perm lessText _).nodup_iff, nodup_append]
  refine ⟨distinct, distinct'.filter _, fun key there other there' same => ?_⟩
  have fresh := (mem_filter.mp there').2
  simp [← same, there] at fresh

/-- The differences below each key, put back into an object, make each field what they make of it. -/
theorem restore_fields {befores : Entries} (distinct : (entries.map Prod.fst).Nodup)
    (distinct' : (befores.map Prod.fst).Nodup)
    (charts : ∀ key, Charts lowering (field befores key) (field entries key) (items key)) : ∃ rs,
    restore (some (.object entries)) ((sortedKeys entries befores).flatMap fun key =>
      (items key).map (Found.below key)) (some (.object befores)) = some (.object rs) ∧
    (Same (some (.object rs)) (some (.object entries)) ↔
      ∀ key, PlainThroughout (field befores key) (field entries key)) := by
  obtain ⟨rs, run, fields⟩ := @put_keys entries _ (sorted_distinct distinct distinct') items befores
  refine ⟨rs, run, same_object.trans (forall_congr' fun key => ?_)⟩
  rw [← (charts key).restores, fields]
  by_cases there : key ∈ sortedKeys entries befores
  · rw [if_pos there]
  · rw [sorted_mem, not_or] at there
    have none_ : field entries key = none := field_absent there.1
    have none_' : field befores key = none := field_absent there.2
    have still := (charts key).still (by rw [none_, none_']; exact unchanged_self _)
    rw [if_neg fun member => (sorted_mem.mp member).elim there.1 there.2, still]
    rfl

/-- The first difference put below nothing, or below null, makes an object of it. -/
theorem restore_fresh {after : Option Value} {ds : List Found} (deep : ∀ d ∈ ds, d.path ≠ [])
    (some_ : ds ≠ []) (fresh : before = none ∨ before = some .null) :
    restore after ds before = restore after ds (some (.object [])) := by
  cases ds with
  | nil => exact absurd rfl some_
  | cons d rest =>
    have first := deep d mem_cons_self
    rw [restore, restore, foldl_cons, foldl_cons]
    refine congrArg (restore after rest) ?_
    cases path : d.path with
    | nil => exact absurd path first
    | cons key inner => rcases fresh with rfl | rfl <;> rfl

theorem plain_object_iff : Plain before (some (.object entries)) ↔
    (∃ befores, before = some (.object befores)) ∨
      entries ≠ [] ∧ (before = none ∨ before = some .null) := by
  refine ⟨fun plain => plain.objects entries rfl, fun either => ⟨by simp, by simp, ?_, ?_, by simp⟩⟩
  · rintro b a p q _ ⟨⟩ _ found _
    exact absurd found (by simp [number])
  · rintro inner ⟨⟩
    exact either

theorem object_restores (distinct : (entries.map Prod.fst).Nodup)
    (distinct' : ((entriesOf (before.getD .null)).map Prod.fst).Nodup)
    (charts : ∀ key, Charts lowering (field (entriesOf (before.getD .null)) key) (field entries key)
      (items key)) :
    Same (restore (some (.object entries)) ((sortedKeys entries (entriesOf (before.getD .null))).flatMap
      fun key => (items key).map (Found.below key)) before) (some (.object entries)) ↔
      PlainThroughout before (some (.object entries)) := by
  have deep : ∀ d ∈ (sortedKeys entries (entriesOf (before.getD .null))).flatMap
      fun key => (items key).map (Found.below key), d.path ≠ [] := by
    intro d member
    obtain ⟨key, _, there⟩ := mem_flatMap.mp member
    obtain ⟨d', _, rfl⟩ := mem_map.mp there
    exact cons_ne_nil _ _
  obtain ⟨rs, run, same⟩ := restore_fields distinct distinct' charts
  rw [plain_object, plain_object_iff]
  by_cases object : ∃ befores, before = some (.object befores)
  · obtain ⟨befores, rfl⟩ := object
    rw [and_iff_right (.inl ⟨befores, rfl⟩)]
    exact (iff_of_eq (congrArg (Same · _) run)).trans same
  · by_cases fresh : before = none ∨ before = some .null
    · have empty : entriesOf (before.getD .null) = [] := by
        rcases fresh with rfl | rfl <;> rfl
      by_cases nothing : (sortedKeys entries (entriesOf (before.getD .null))).flatMap
          (fun key => (items key).map (Found.below key)) = []
      · rw [nothing]
        refine iff_of_false (fun same => ?_) ?_
        · have heads := same.head
          rcases fresh with rfl | rfl <;> simp [restore, head] at heads
        · rintro ⟨either, below⟩
          obtain ⟨some_, _⟩ := either.resolve_left object
          obtain ⟨⟨key, value⟩, rest, rfl⟩ := exists_cons_of_ne_nil some_
          have listed : key ∈ sortedKeys ((key, value) :: rest) (entriesOf (before.getD .null)) :=
            sorted_mem.mpr (.inl (by simp))
          have none_ : items key = [] :=
            map_eq_nil_iff.mp (flatMap_eq_nil_iff.mp nothing key listed)
          have restored := (charts key).restores.mpr (below key)
          rw [none_, empty, field_cons, if_pos rfl] at restored
          exact absurd restored.head (by simp [restore, field])
      · have start : some (Value.object []) = some (.object (entriesOf (before.getD .null))) := by rw [empty]
        have some_ : entries ≠ [] := by
          rintro rfl
          refine nothing (flatMap_eq_nil_iff.mpr fun key listed => ?_)
          rw [sorted_mem, empty] at listed
          exact absurd listed (by simp)
        rw [restore_fresh deep nothing fresh, start, run, same, and_iff_right (.inr ⟨some_, fresh⟩)]
    · refine iff_of_false (fun same => ?_) fun both => both.1.elim object fun other => fresh other.2
      obtain ⟨value, rfl⟩ := Option.ne_none_iff_exists'.mp fun none_ => fresh (.inl none_)
      have solid : Solid value :=
        ⟨fun null => fresh (.inr (congrArg some null)), fun inner same => object ⟨inner, congrArg some same⟩⟩
      obtain ⟨value', kept, solid'⟩ := @restore_solid (some (.object entries)) value solid _ deep
      have heads := same.head
      rw [kept] at heads
      cases value' with
      | object inner => exact solid'.2 inner rfl
      | _ => exact absurd heads (by simp [head])

theorem charts_object (distinct : (entries.map Prod.fst).Nodup)
    (distinct' : ((entriesOf (before.getD .null)).map Prod.fst).Nodup)
    (each : ∀ key, ∃ ds, Charts lowering (field (entriesOf (before.getD .null)) key) (field entries key) ds) :
    ∃ ds, Charts lowering before (some (.object entries)) ds := by
  choose items charts using each
  have keys := sorted_distinct distinct distinct'
  have none_ : unchanged (before.getD .null) (.object entries) = true → ∀ key, items key = [] :=
    fun same key => (charts key).still (unchanged_at same key)
  refine ⟨(sortedKeys entries (entriesOf (before.getD .null))).flatMap fun key =>
    (items key).map (Found.below key), fun limit path => ?_, fun same => ?_, ?_, fun plain d member => ?_,
    object_restores distinct distinct' charts⟩
  · have collected := @collects_object (fun key => (items key).map (Found.shown lowering (jsonPathAppend path key))) entries
      lowering limit path (before.getD .null)
      (fun key => (charts key).collects limit (jsonPathAppend path key))
      (fun same key => by rw [none_ same key]; rfl)
    rw [map_flatMap]
    simp only [shown_below]
    exact collected
  · exact flatMap_eq_nil_iff.mpr fun key _ => by rw [none_ same key]; rfl
  · rw [pairwise_flatMap]
    constructor
    · intro key _
      refine pairwise_map.mpr ((charts key).apart.imp fun apart => ?_)
      simpa [Found.below, cons_prefix_cons] using apart
    · refine keys.imp fun differ d there d' there' => ?_
      obtain ⟨e, _, rfl⟩ := mem_map.mp there
      obtain ⟨e', _, rfl⟩ := mem_map.mp there'
      simp [Found.below, cons_prefix_cons, differ, Ne.symm differ]
  · obtain ⟨key, _, there⟩ := mem_flatMap.mp member
    obtain ⟨e, found, rfl⟩ := mem_map.mp there
    obtain ⟨here, below⟩ := plain_object.mp plain
    have inner : valueAt (key :: e.path) before =
        valueAt e.path (field (entriesOf (before.getD .null)) key) := by
      rcases here.objects entries rfl with ⟨befores, rfl⟩ | ⟨_, rfl | rfl⟩
      · rfl
      · exact (value_none e.path).symm
      · exact (value_none e.path).symm
    rw [Found.below, inner]
    exact (charts key).differ (below key) e found

end Objects

section Arrays
variable {lowering : Lowering} {before : Option Value} {befores elements : List Value}

/-- What is met below arrays of one length is met below one of their indices. -/
theorem meets_array {b a : Option Value} (level : elements.length = befores.length) :
    Meets (some (.array befores)) (some (.array elements)) b a ↔
      (b = some (.array befores) ∧ a = some (.array elements)) ∨
        ∃ i : Nat, Meets befores[i]? elements[i]? b a := by
  constructor
  · intro meets
    induction meets with
    | here => exact .inl ⟨rfl, rfl⟩
    | key key above ih =>
      rcases ih with ⟨_, same⟩ | ⟨first, below⟩
      · exact absurd same (by simp)
      · exact .inr ⟨first, below.key key⟩
    | @index befores' elements' i above level' ih =>
      rcases ih with ⟨same, same'⟩ | ⟨first, below⟩
      · obtain rfl : befores' = befores := Value.array.inj (Option.some.inj same)
        obtain rfl : elements' = elements := Value.array.inj (Option.some.inj same')
        exact .inr ⟨i, .here⟩
      · exact .inr ⟨first, below.index i level'⟩
  · rintro (⟨rfl, rfl⟩ | ⟨first, below⟩)
    · exact .here
    · induction below with
      | here => exact .index first .here level
      | key key above ih => exact ih.key key
      | index i above level' ih => exact ih.index i level'

theorem plain_levels (level : elements.length = befores.length) :
    PlainThroughout (some (.array befores)) (some (.array elements)) ↔
      ∀ i : Nat, PlainThroughout befores[i]? elements[i]? := by
  constructor
  · intro plain i b a below
    exact plain b a ((meets_array level).mpr (.inr ⟨i, below⟩))
  · intro below b a meets
    rcases (meets_array level).mp meets with ⟨rfl, rfl⟩ | ⟨i, inner⟩
    · exact ⟨by simp, by simp, fun _ _ _ _ same _ found => by cases same; simp [number] at found,
        by simp, fun _ => ⟨befores, rfl⟩⟩
    · exact below i b a inner

/-- Below an array that is not beside one of its length nothing is met. -/
theorem plain_alone (alone : ∀ befores, before = some (.array befores) → elements.length ≠ befores.length) :
    PlainThroughout before (some (.array elements)) ↔ Plain before (some (.array elements)) := by
  constructor
  · intro plain
    exact plain _ _ .here
  · intro plain b a meets
    have only : b = before ∧ a = some (.array elements) := by
      induction meets with
      | here => exact ⟨rfl, rfl⟩
      | key key above ih => exact absurd ih.2 (by simp)
      | @index befores' elements' i above level ih =>
        obtain rfl : elements' = elements := Value.array.inj (Option.some.inj ih.2)
        exact absurd level (alone befores' ih.1.symm)
    rw [only.1, only.2]
    exact plain

theorem put_some {path : List String} {new : Option Value} (value : Value)
    (either : path = [] → new ≠ none) : ∃ value', putAt path new (some value) = some value' := by
  cases path with
  | nil => exact Option.ne_none_iff_exists'.mp (either rfl)
  | cons token rest => cases value <;> exact ⟨_, rfl⟩

theorem put_index {i : Nat} (inside : i < elements.length) (ds : List Found) {values : List Value}
    (level : values.length = elements.length) : ∃ rs,
    restore (some (.array elements)) (ds.map (Found.below (toString i))) (some (.array values)) =
      some (.array rs) ∧ rs.length = values.length ∧
    ∀ j : Nat, rs[j]? = if j = i then restore elements[i]? ds values[i]? else values[j]? := by
  induction ds generalizing values with
  | nil =>
    refine ⟨values, rfl, rfl, fun j => ?_⟩
    by_cases here : j = i
    · rw [if_pos here, here]
      rfl
    · rw [if_neg here]
  | cons d rest ih =>
    have inside' : i < values.length := level ▸ inside
    have there : values[i]? = some values[i] := getElem?_eq_getElem inside'
    obtain ⟨new, put⟩ := @put_some d.path (valueAt d.path elements[i]?) values[i] fun top => by
      rw [top, valueAt, getElem?_eq_getElem inside]
      simp
    obtain ⟨rs, run, lengths, places⟩ := @ih (values.set i new) (by rw [length_set, level])
    have first : putAt (toString i :: d.path) (valueAt (toString i :: d.path) (some (.array elements)))
        (some (.array values)) = some (.array (values.set i new)) := by
      rw [element_value inside, putAt, arrayIndex_iff.mpr ⟨inside', rfl⟩]
      refine congrArg (fun vs => some (Value.array vs)) (ext_getElem? fun j => ?_)
      rw [getElem?_modify, getElem?_set]
      by_cases here : i = j
      · subst here
        simp [inside', put]
      · simp [here]
    refine ⟨rs, ?_, lengths.trans length_set, fun j => ?_⟩
    · rw [map_cons, restore, foldl_cons, Found.below, first]
      exact run
    · rw [places]
      by_cases here : j = i
      · rw [if_pos here, if_pos here, getElem?_set_self inside', ← put, ← there]
        rfl
      · rw [if_neg here, if_neg here, getElem?_set_ne (Ne.symm here)]

theorem put_indices {indices : List Nat} (distinct : indices.Nodup)
    (inside : ∀ i ∈ indices, i < elements.length) (items : Nat → List Found) {values : List Value}
    (level : values.length = elements.length) : ∃ rs,
    restore (some (.array elements)) (indices.flatMap fun i => (items i).map (Found.below (toString i)))
      (some (.array values)) = some (.array rs) ∧ rs.length = values.length ∧
    ∀ j : Nat, rs[j]? = if j ∈ indices then restore elements[j]? (items j) values[j]? else values[j]? := by
  induction indices generalizing values with
  | nil => exact ⟨values, rfl, rfl, fun j => (if_neg not_mem_nil).symm⟩
  | cons i rest ih =>
    obtain ⟨fresh, distinct'⟩ := nodup_cons.mp distinct
    obtain ⟨middle, first, level', places⟩ := put_index (inside i mem_cons_self) (items i) level
    obtain ⟨rs, later, lengths, places'⟩ := ih distinct'
      (fun j member => inside j (mem_cons_of_mem i member)) (level'.trans level)
    refine ⟨rs, ?_, lengths.trans level', fun j => ?_⟩
    · rw [flatMap_cons, restore, foldl_append]
      exact (congrArg (restore _ _) first).trans later
    · rw [places', places]
      by_cases here : j = i
      · rw [here, if_neg fresh, if_pos rfl, if_pos mem_cons_self]
      · rw [if_neg here]
        simp only [mem_cons, here, false_or]

theorem normalize_elements (elements : List Value) :
    normalizeElements elements = elements.map normalizeJSONNumber := by
  induction elements with
  | nil => rfl
  | cons value rest ih => rw [normalizeElements, map_cons, ih]

theorem unchanged_array {value : Value} (same : unchanged value (.array elements) = true) :
    ∃ befores, value = .array befores ∧ elements.length = befores.length ∧
      ∀ i : Nat, unchanged (befores[i]?.getD .null) (elements[i]?.getD .null) = true := by
  rw [unchanged, decide_eq_true_eq] at same
  cases value with
  | array befores =>
    rw [normalizeJSONNumber, normalizeJSONNumber, Value.array.injEq, normalize_elements,
      normalize_elements] at same
    have level : befores.length = elements.length := by
      simpa using congrArg length same
    refine ⟨befores, rfl, level.symm, fun i => ?_⟩
    have place := congrArg (fun vs => vs[i]?.getD .null) same
    simp only [getElem?_map] at place
    rw [unchanged, decide_eq_true_eq]
    cases before_ : befores[i]? <;> cases after_ : elements[i]? <;> simp_all
  | _ => simp [normalizeJSONNumber] at same

theorem zip_indices (level : elements.length = befores.length) : (elements.zip befores).zipIdx =
    (range elements.length).map fun i => ((elements[i]?.getD .null, befores[i]?.getD .null), i) := by
  refine ext_getElem (by simp [level]) fun i inside inside' => ?_
  have here : i < elements.length := by simpa using inside'
  simp [getElem?_eq_getElem here, getElem?_eq_getElem (level ▸ here)]

theorem charts_levels (level : elements.length = befores.length)
    (each : ∀ i : Nat, ∃ ds, Charts lowering befores[i]? elements[i]? ds) :
    ∃ ds, Charts lowering (some (.array befores)) (some (.array elements)) ds := by
  choose items charts using each
  have none_ : unchanged (.array befores) (.array elements) = true → ∀ i, items i = [] := by
    intro same i
    obtain ⟨_, ⟨⟩, _, each⟩ := unchanged_array same
    exact (charts i).still (each i)
  refine ⟨(range elements.length).flatMap fun i => (items i).map (Found.below (toString i)),
    fun limit path => ?_, fun same => ?_, ?_, fun plain d member => ?_, ?_⟩
  · show Collects limit (collectValueDiffs lowering limit (.array elements) path (.array befores)) _
    rw [map_flatMap, collect_array]
    simp only [shown_below]
    apply collects_guarded
    intro held room
    split
    next same =>
      have nothing : (range elements.length).flatMap (fun i =>
          (items i).map (Found.shown lowering (jsonPathAppend path (toString i)))) = [] :=
        flatMap_eq_nil_iff.mpr fun i _ => by rw [none_ same i]; rfl
      rw [nothing, append_nil, take_of_length_le room.le]
    next =>
      simp only [level]
      rw [zip_indices level, map_map, ← level]
      exact collects_each (fun i _ => (charts i).collects limit (jsonPathAppend path (toString i)))
        held room.le
  · exact flatMap_eq_nil_iff.mpr fun i _ => by rw [none_ same i]; rfl
  · rw [pairwise_flatMap]
    constructor
    · intro i _
      refine pairwise_map.mpr ((charts i).apart.imp fun apart => ?_)
      simpa [Found.below, cons_prefix_cons] using apart
    · refine nodup_range.imp fun differ d there d' there' => ?_
      obtain ⟨e, _, rfl⟩ := mem_map.mp there
      obtain ⟨e', _, rfl⟩ := mem_map.mp there'
      exact ⟨fun first => differ (toString_inj (cons_prefix_cons.mp first).1),
        fun first => differ (toString_inj (cons_prefix_cons.mp first).1).symm⟩
  · obtain ⟨i, inside, there⟩ := mem_flatMap.mp member
    obtain ⟨e, found, rfl⟩ := mem_map.mp there
    have here : i < elements.length := mem_range.mp inside
    rw [Found.below, element_value here, element_value (level ▸ here)]
    exact (charts i).differ ((plain_levels level).mp plain i) e found
  · obtain ⟨rs, run, lengths, places⟩ := put_indices nodup_range
      (fun i member => mem_range.mp member) items level.symm
    rw [run, same_array, plain_levels level, and_iff_right (lengths.trans level.symm)]
    refine forall_congr' fun i => ?_
    rw [← (charts i).restores, places]
    by_cases here : i < elements.length
    · rw [if_pos (mem_range.mpr here)]
    · have still := (charts i).still (by
        rw [getElem?_eq_none (by omega), getElem?_eq_none (by omega)]
        exact unchanged_self _)
      rw [if_neg fun member => here (mem_range.mp member), still]
      rfl

/-- An array is one difference as a whole, unless it is empty and the place was no array. -/
theorem charts_whole (alone : ∀ befores, before = some (.array befores) → elements.length ≠ befores.length) :
    ∃ ds, Charts lowering before (some (.array elements)) ds := by
  have changed : ¬ unchanged (before.getD .null) (.array elements) = true := by
    intro same
    obtain ⟨befores, value, level, _⟩ := unchanged_array same
    cases before with
    | none => exact absurd value (by simp)
    | some b => exact alone befores (congrArg some value) level
  have differs : ¬ Same before (some (.array elements)) := by
    intro same
    have heads := same.head
    cases before with
    | none => exact absurd heads (by simp)
    | some b =>
      cases b with
      | array befores => exact alone befores rfl (Head.array.inj (Option.some.inj heads)).symm
      | _ => exact absurd heads (by simp [head])
  by_cases kept : elements = [] ∧ ∀ befores, before ≠ some (.array befores)
  · obtain ⟨rfl, other⟩ := kept
    refine ⟨[], fun limit path => ?_, fun _ => rfl, List.Pairwise.nil,
      fun _ d member => absurd member not_mem_nil, ?_⟩
    · show Collects limit (collectValueDiffs lowering limit (.array []) path (before.getD .null)) _
      rw [collect_array]
      apply collects_guarded
      intro held room
      rw [if_neg changed, map_nil, append_nil, take_of_length_le room.le]
      cases before with
      | none => rfl
      | some b =>
        cases b with
        | array befores => exact absurd rfl (other befores)
        | _ => rfl
    · rw [plain_alone alone]
      refine iff_of_false differs fun plain => ?_
      obtain ⟨befores, same⟩ := plain.arrays rfl
      exact other befores same
  · refine ⟨[⟨[], before.getD .null, .array elements⟩], fun limit path => ?_,
      fun same => absurd same changed, pairwise_singleton _ _, ?_, ?_⟩
    · show Collects limit (collectValueDiffs lowering limit (.array elements) path (before.getD .null)) _
      rw [collect_array]
      apply collects_guarded
      intro held room
      have one : ([(⟨[], before.getD .null, .array elements⟩ : Found)].map (Found.shown lowering path)) =
          [difference lowering path (before.getD .null) (.array elements)] := by
        simp [Found.shown, pointer]
      rw [if_neg changed, one, ← append_one room]
      cases before with
      | none =>
        have some_ : elements.length ≠ 0 := fun empty => kept ⟨eq_nil_of_length_eq_zero empty, by simp⟩
        exact if_neg some_
      | some b =>
        cases b with
        | array befores => exact if_neg (alone befores rfl)
        | _ =>
          have some_ : elements.length ≠ 0 := fun empty =>
            kept ⟨eq_nil_of_length_eq_zero empty, by simp⟩
          exact if_neg some_
    · intro _ d member
      rw [mem_singleton.mp member]
      exact differs
    · rw [plain_alone alone]
      refine iff_of_true (same_refl _) ⟨by simp, by simp, ?_, by simp, ?_⟩
      · rintro b a p q _ ⟨⟩ _ found _
        exact absurd found (by simp [number])
      · intro empty
        by_contra other
        refine kept ⟨Value.array.inj (Option.some.inj empty), fun befores same => other ⟨befores, same⟩⟩

theorem charts_array (each : ∀ (i : Nat) befores, before = some (.array befores) →
    ∃ ds, Charts lowering befores[i]? elements[i]? ds) :
    ∃ ds, Charts lowering before (some (.array elements)) ds := by
  by_cases level : ∃ befores, before = some (.array befores) ∧ elements.length = befores.length
  · obtain ⟨befores, rfl, level⟩ := level
    exact charts_levels level fun i => each i befores rfl
  · exact charts_whole fun befores same level' => level ⟨befores, same, level'⟩

end Arrays

section Whole
variable (lowering : Lowering)

theorem decoded_none : Decoded none := by
  intro path
  rw [value_none]
  exact ⟨by simp, by simp⟩

theorem decoded_field {entries : Entries} (decoded : Decoded (some (.object entries))) (key : String) :
    Decoded (field entries key) := fun path => decoded (key :: path)

theorem decoded_entries {before : Option Value} (decoded : Decoded before) :
    ((entriesOf (before.getD .null)).map Prod.fst).Nodup ∧
      ∀ key, Decoded (field (entriesOf (before.getD .null)) key) := by
  cases before with
  | none => exact ⟨nodup_nil, fun _ => decoded_none⟩
  | some value =>
    cases value with
    | object befores => exact ⟨(decoded []).1 befores rfl, decoded_field decoded⟩
    | _ => exact ⟨nodup_nil, fun _ => decoded_none⟩

theorem decoded_element {elements : List Value} (decoded : Decoded (some (.array elements))) (i : Nat) :
    Decoded elements[i]? := by
  by_cases inside : i < elements.length
  · intro path
    rw [← element_value inside]
    exact decoded (toString i :: path)
  · rw [getElem?_eq_none (Nat.le_of_not_lt inside)]
    exact decoded_none

/-- A value after is charted whatever was there before. -/
def Charted (after : Option Value) : Prop :=
  ∀ before, Decoded before → Decoded after → ∃ ds, Charts lowering before after ds

theorem charted_none : Charted lowering none :=
  fun _ decoded decoded' => charts_leaf trivial decoded decoded'

theorem charted_object {entries : Entries} (each : ∀ entry ∈ entries, Charted lowering (some entry.2)) :
    Charted lowering (some (.object entries)) := by
  intro before decoded decoded'
  obtain ⟨distinct, fields⟩ := decoded_entries decoded
  refine charts_object ((decoded' []).1 entries rfl) distinct fun key => ?_
  have below : Charted lowering (field entries key) := by
    rw [field]
    cases found : entries.lookup key with
    | none => exact charted_none lowering
    | some value =>
      obtain ⟨front, back, split, _⟩ := lookup_eq_some_iff.mp found
      exact each (key, value) (by simp [split])
  exact below _ (fields key) (decoded_field decoded' key)

theorem charted_array {elements : List Value}
    (each : ∀ element ∈ elements, Charted lowering (some element)) :
    Charted lowering (some (.array elements)) := by
  intro before decoded decoded'
  refine charts_array ?_
  rintro i befores rfl
  have below : Charted lowering elements[i]? := by
    cases found : elements[i]? with
    | none => exact charted_none lowering
    | some element => exact each element (mem_of_getElem? found)
  exact below _ (decoded_element decoded i) (decoded_element decoded' i)

mutual
theorem charted : ∀ after : Value, Charted lowering (some after)
  | .object entries => charted_object lowering (entries_charted entries)
  | .array elements => charted_array lowering (elements_charted elements)
  | .null => fun _ decoded decoded' => charts_leaf trivial decoded decoded'
  | .bool _ => fun _ decoded decoded' => charts_leaf trivial decoded decoded'
  | .integer _ => fun _ decoded decoded' => charts_leaf trivial decoded decoded'
  | .float _ => fun _ decoded decoded' => charts_leaf trivial decoded decoded'
  | .string _ => fun _ decoded decoded' => charts_leaf trivial decoded decoded'

theorem elements_charted : ∀ elements : List Value, ∀ element ∈ elements, Charted lowering (some element)
  | [], _, member => absurd member not_mem_nil
  | value :: rest, element, member => by
    rcases mem_cons.mp member with first | later
    · exact first ▸ charted value
    · exact elements_charted rest element later

theorem entries_charted : ∀ entries : Entries, ∀ entry ∈ entries, Charted lowering (some entry.2)
  | [], _, member => absurd member not_mem_nil
  | (_, value) :: rest, entry, member => by
    rcases mem_cons.mp member with first | later
    · exact first ▸ charted value
    · exact entries_charted rest entry later
end

theorem value_append (path more : List String) (value : Option Value) :
    valueAt (path ++ more) value = valueAt more (valueAt path value) := by
  induction path generalizing value with
  | nil => rfl
  | cons token rest ih =>
    rw [cons_append]
    cases value with
    | none => rw [value_none, value_none, value_none]
    | some v =>
      cases v with
      | object entries => exact ih (field entries token)
      | array elements => exact ih ((arrayIndex elements.length token).bind fun i => elements[i]?)
      | _ => exact (value_none more).symm

theorem same_at {a b : Option Value} (same : Same a b) (path : List String) :
    Same (valueAt path a) (valueAt path b) := by
  intro more
  rw [← value_append, ← value_append]
  exact same (path ++ more)

variable {lowering} {before after : Option Value}

theorem shown_path (d : Found) : tokensOf (d.shown lowering "").path = some d.path := by
  rw [Found.shown, difference, String.empty_append, tokensOf_pointer]

theorem restore_shown (ds : List Found) (value : Option Value) :
    (ds.map (Found.shown lowering "")).foldl (replaceAt after) value = restore after ds value := by
  rw [foldl_map, restore]
  refine congrArg (fun step => ds.foldl step value) ?_
  funext value d
  rw [replaceAt, shown_path]

/-- What is charted is complete just where every pair on the way is plain. -/
theorem complete_charted {ds : List Found} (charts : Charts lowering before after ds) :
    Complete before after (ds.map (Found.shown lowering "")) ↔ PlainThroughout before after := by
  constructor
  · intro complete
    rw [← charts.restores, ← restore_shown ds before]
    exact complete.restores
  · intro plain
    have restored := charts.restores.mpr plain
    refine ⟨⟨fun none_ => ?_, fun same => ?_⟩, fun d member => ?_, ?_, ?_⟩
    · rw [map_eq_nil_iff.mp none_] at restored
      exact restored
    · refine map_eq_nil_iff.mpr (eq_nil_iff_forall_not_mem.mpr fun d member => ?_)
      exact charts.differ plain d member (same_at same d.path)
    · obtain ⟨e, found, rfl⟩ := mem_map.mp member
      exact ⟨e.path, String.empty_append, charts.differ plain e found⟩
    · refine pairwise_map.mpr (charts.apart.imp fun apart path path' first second => ?_)
      rw [shown_path] at first second
      obtain rfl := Option.some.inj first
      obtain rfl := Option.some.inj second
      exact apart
    · rw [restore_shown]
      exact restored

end Whole

/-- A preview that is not cut short tells all there is to tell just where every pair on the way is
plain. -/
theorem preview_complete_iff (lowering : Lowering) (limit : Nat) (before after : Entries)
    (decoded : Decoded (some (.object before))) (decoded' : Decoded (some (.object after)))
    (room : (collectValueDiffs lowering limit (.object after) "" (.object before) []).length < limit) :
    Complete (some (.object before)) (some (.object after))
        (collectValueDiffs lowering limit (.object after) "" (.object before) []) ↔
      PlainThroughout (some (.object before)) (some (.object after)) := by
  obtain ⟨ds, charts⟩ := charted lowering (.object after) _ decoded decoded'
  have collected : collectValueDiffs lowering limit (.object after) "" (.object before) [] =
      (ds.map (Found.shown lowering "")).take limit := charts.collects limit "" [] (Nat.zero_le limit)
  have whole : (ds.map (Found.shown lowering "")).length ≤ limit := by
    rw [collected, length_take] at room
    omega
  rw [collected, take_of_length_le whole]
  exact complete_charted charts

section Inputs

def running : Entries := [("spec", .object [])]

def paused : Entries := [("spec", .object [("paused", .bool true)])]

/-- A policy that comes to select every pod. -/
def selecting : Entries := [("spec", .object [("podSelector", .object [])])]

theorem decoded_empty : Decoded (some (.object [])) := by
  rintro (_ | ⟨key, rest⟩)
  · exact ⟨by rintro entries ⟨⟩; exact nodup_nil, by simp [valueAt]⟩
  · exact decoded_none rest

theorem decoded_one {key : String} {value : Value} (decoded : Decoded (some value)) :
    Decoded (some (.object [(key, value)])) := by
  rintro (_ | ⟨token, rest⟩)
  · exact ⟨by rintro entries ⟨⟩; exact nodup_singleton key, by simp [valueAt]⟩
  · rw [valueAt, field_cons]
    by_cases here : token = key
    · rw [if_pos here]
      exact decoded rest
    · rw [if_neg here]
      exact decoded_none rest

theorem decoded_bool (b : Bool) : Decoded (some (.bool b)) := by
  rintro (_ | ⟨token, rest⟩)
  · exact ⟨by simp [valueAt], by simp [valueAt]⟩
  · exact ⟨by simp [valueAt], by simp [valueAt]⟩

theorem plain_missing : PlainThroughout none none := have leaf : Leaf none := trivial
  (plain_leaf leaf).mpr ((plain_iff leaf).mpr ⟨by simp, by simp, by simp⟩)

theorem paused_complete : Complete (some (.object running)) (some (.object paused))
    (collectValueDiffs asciiLowering 12 (.object paused) "" (.object running) []) := by
  refine (preview_complete_iff asciiLowering 12 running paused (decoded_one decoded_empty)
    (decoded_one (decoded_one (decoded_bool true))) (by decide +kernel)).mpr ?_
  have leaf : Leaf (some (.bool true)) := trivial
  have pair : Plain none (some (.bool true)) := (plain_iff leaf).mpr ⟨by simp, by simp, by simp⟩
  refine plain_object.mpr ⟨plain_object_iff.mpr (.inl ⟨_, rfl⟩), fun key => ?_⟩
  show PlainThroughout (field running key) (field paused key)
  rw [running, paused, field_cons, field_cons]
  by_cases spec : key = "spec"
  · rw [if_pos spec, if_pos spec]
    refine plain_object.mpr ⟨plain_object_iff.mpr (.inl ⟨_, rfl⟩), fun inner => ?_⟩
    show PlainThroughout none (field [("paused", .bool true)] inner)
    rw [field_cons]
    by_cases flag : inner = "paused"
    · rw [if_pos flag]
      exact (plain_leaf leaf).mpr pair
    · rw [if_neg flag]
      exact plain_missing
  · rw [if_neg spec, if_neg spec]
    exact plain_missing

/-- A selector that was not there and is empty is not shown. -/
theorem selector_unseen : Decoded (some (.object running)) ∧ Decoded (some (.object selecting)) ∧
      collectValueDiffs asciiLowering 12 (.object selecting) "" (.object running) [] = [] ∧
      ¬ Complete (some (.object running)) (some (.object selecting))
        (collectValueDiffs asciiLowering 12 (.object selecting) "" (.object running) []) := by
  have silent : collectValueDiffs asciiLowering 12 (.object selecting) "" (.object running) [] = [] := by
    rfl
  refine ⟨decoded_one decoded_empty, decoded_one (decoded_one decoded_empty), silent, fun complete => ?_⟩
  have same := complete.silent.mp silent ["spec", "podSelector"]
  exact absurd same (by simp [valueAt, running, selecting, field])

end Inputs

end PreviewComplete
