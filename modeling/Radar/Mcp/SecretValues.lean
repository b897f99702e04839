import Radar.Mcp.PreviewDiffs

/- Which values of a Secret an agent gets to see. A typed Secret is given by its keys alone; an
   unstructured one is pruned like any other object, and so are the objects a mutation reports. -/
namespace SecretValues
open GoText JsonTree Minify MutationPreview PreviewDiffs Bounded List
variable {a b : Entries}

section Pairs

/-- Two typed Secrets alike in everything but their values. -/
structure SameKeys (s t : Secret) : Prop where
  metadata : s.metadata = t.metadata
  type_ : s.type_ = t.type_
  data : s.data.map Prod.fst = t.data.map Prod.fst
  stringData : s.stringData.map Prod.fst = t.stringData.map Prod.fst

def IsTexts (value : Value) : Prop := ∃ pairs, value = texts pairs

/-- A Secret as the dynamic client has it: data and stringData are maps of texts where they are. -/
structure IsSecret (obj : Entries) : Prop where
  distinct : (obj.map Prod.fst).Nodup
  apiVersion : field obj "apiVersion" = some (.string "v1")
  kind : field obj "kind" = some (.string "Secret")
  data : ∀ value, field obj "data" = some value → IsTexts value
  stringData : ∀ value, field obj "stringData" = some value → IsTexts value

def keysAt (obj : Entries) (name : String) : List String := (entriesOf (at_ obj name)).map Prod.fst

/-- Two unstructured Secrets alike in everything but their values. -/
structure SecretPair (a b : Entries) : Prop where
  first : IsSecret a
  second : IsSecret b
  fields : a.map Prod.fst = b.map Prod.fst
  others : ∀ name, name ≠ "data" → name ≠ "stringData" → field a name = field b name
  data : keysAt a "data" = keysAt b "data"
  stringData : keysAt a "stringData" = keysAt b "stringData"

def SameValues (a b : Entries) : Prop :=
  field a "data" = field b "data" ∧ field a "stringData" = field b "stringData"

end Pairs

section Minifier
variable {around : Surroundings} {name : String}

theorem keys_alone {s t : Secret} (same : SameKeys s t) : secretKeys around s = secretKeys around t := by
  rw [secretKeys, secretKeys, same.data, same.stringData]

theorem typed_alone {s t : Secret} (same : SameKeys s t) (level : VerbosityLevel) :
    minify around s level = minify around t level := by
  have keys : secretKeys around s = secretKeys around t := keys_alone same
  have metadata := same.metadata
  have type_ := same.type_
  simp only [minify, summarizeSecret, minifySecretDetail, minifySecretCompact, keys, metadata, type_]

theorem field_pruneMap (metadata spec : Entries → Entries) (m : Entries)
    (first : name ≠ "metadata") (second : name ≠ "spec") (third : name ≠ "status") :
    field (pruneMap around metadata spec m) name = field m name := by
  rw [pruneMap, field_change_other third, field_change_other second, field_change_other first]

theorem nested_alike (same : field a name = field b name) (rest : List String) :
    nested (.object a) (name :: rest) = nested (.object b) (name :: rest) := by
  rw [nested, nested, same]

theorem nestedText_alike (same : field a name = field b name)
    (rest : List String) : nestedText a (name :: rest) = nestedText b (name :: rest) := by
  rw [nestedText, nestedText, nested_alike same]

/-- A Secret is of no known custom kind, so its summary is the general one. -/
theorem secret_general {obj : Entries} (secret : IsSecret obj) :
    summarizeUnstructured around obj = summarizeGenericCRD around obj := by
  have version : nestedText obj ["apiVersion"] = "v1" := by
    simp only [nestedText, nested, secret.apiVersion, Option.bind_some]
  have kind : nestedText obj ["kind"] = "Secret" := by
    simp only [nestedText, nested, secret.kind, Option.bind_some]
  have unknown : isKnownKind (groupOf "v1") "Secret" = false := by decide
  simp only [summarizeUnstructured, version, kind, unknown, Bool.false_eq_true, if_false]

theorem summary_alone (pair : SecretPair a b) :
    summarizeUnstructured around a = summarizeUnstructured around b := by
  have kind := nestedText_alike (pair.others "kind" (by decide) (by decide))
  have metadata := nestedText_alike (pair.others "metadata" (by decide) (by decide))
  have status := pair.others "status" (by decide) (by decide)
  have conditions : extractReadyCondition a = extractReadyCondition b := by
    rw [extractReadyCondition, extractReadyCondition, nested_alike status]
  rw [secret_general pair.first, secret_general pair.second]
  simp only [summarizeGenericCRD, kind, metadata, conditions, nestedText_alike status]

theorem same_of_values (pair : SecretPair a b) (values : SameValues a b) : a = b := by
  apply entries_ext pair.first.distinct pair.fields
  intro name
  by_cases data : name = "data"
  · rw [data]
    exact values.1
  · by_cases stringData : name = "stringData"
    · rw [stringData]
      exact values.2
    · exact pair.others name data stringData

/-- What is pruned of an object never is its data. -/
theorem pruned_values {metadata spec : Entries → Entries}
    (same : pruneMap around metadata spec a = pruneMap around metadata spec b) : SameValues a b := by
  have kept : ∀ obj, ∀ name ∈ ["data", "stringData"],
      field (pruneMap around metadata spec obj) name = field obj name := by
    intro obj name member
    apply field_pruneMap
    · rintro rfl; simp at member
    · rintro rfl; simp at member
    · rintro rfl; simp at member
  constructor
  · rw [← kept a "data" (by simp), ← kept b "data" (by simp), same]
  · rw [← kept a "stringData" (by simp), ← kept b "stringData" (by simp), same]

theorem unstructured_iff (pair : SecretPair a b) (level : VerbosityLevel) :
    minifyUnstructured around a level = minifyUnstructured around b level ↔
      level = levelSummary ∨ SameValues a b := by
  constructor
  · intro same
    by_cases summary : level = levelSummary
    · exact Or.inl summary
    · right
      by_cases detail : level = levelDetail
      · simp only [minifyUnstructured, detail, levelSummary, levelDetail] at same
        exact pruned_values (Minified.tree.inj same)
      · simp only [minifyUnstructured, summary, detail, if_false] at same
        exact pruned_values (Minified.tree.inj same)
  · rintro (summary | values)
    · rw [minifyUnstructured, minifyUnstructured, if_pos summary, if_pos summary, summary_alone pair]
    · rw [same_of_values pair values]

end Minifier

section Data
variable (lowering : Lowering)

/-- What a text at a data path is shown as. -/
def revealed (v : String) : List UInt8 :=
  if Redact.redactSecrets v = v then bytesOf "[redacted]" else shorten (Redact.redactSecrets v)

/-- A path below the data is sensitive whatever the key. -/
theorem data_path_sensitive (key : String) :
    isSensitivePreviewPath lowering (jsonPathAppend "/data" key) = true := by
  have path : ∃ rest, jsonPathAppend "/data" key = "/data/" ++ rest :=
    ⟨replaceChar '/' "~1" (replaceChar '~' "~0" key), rfl⟩
  obtain ⟨rest, path⟩ := path
  have plain : ("/data/".toList.map lowering.lower) = "/data/".toList := by
    have each : ∀ c ∈ "/data/".toList, lowering.lower c = c := by
      intro c member
      have letters : "/data/".toList = ['/', 'd', 'a', 't', 'a', '/'] := rfl
      have small : c.toNat < 128 ∧ c.toLower = c := by
        rw [letters] at member
        revert c
        simp
      rw [lowering.ascii c small.1, small.2]
    exact (map_congr_left each).trans (map_id' _)
  have starts : "/data/".toList.isPrefixOf (lowering.toLower ("/data/" ++ rest)).toList = true := by
    have lowered : (lowering.toLower ("/data/" ++ rest)).toList =
        "/data/".toList ++ rest.toList.map lowering.lower := by
      rw [Lowering.toLower, String.toList_append, map_append, plain]
      exact String.toList_ofList
    rw [lowered, isPrefixOf_iff_prefix]
    exact prefix_append _ _
  rw [path, isSensitivePreviewPath, contains_of_prefix starts, Bool.or_true]

theorem data_text_shown (key v : String) :
    previewValue lowering (jsonPathAppend "/data" key) (.string v) = .text (revealed v) := by
  rw [previewValue, revealed]
  simp only [data_path_sensitive, true_and]
  split <;> rfl

/-- Two maps of texts with the same keys, or no map on either side. -/
def SameShape (v w : Value) : Prop := (v = .null ∧ w = .null) ∨
    ∃ ps qs : List (String × String), v = texts ps ∧ w = texts qs ∧ ps.map Prod.fst = qs.map Prod.fst

def valueAt (data : Value) (key : String) : Value := at_ (entriesOf data) key

/-- The keys of the data whose change a preview lists, the first twelve. Data that is gone as a
   whole is one difference and lists no key. -/
def listedKeys (before after : Value) : List String := match after with
  | .object data => ((sortedKeys data (entriesOf before)).filter fun key =>
      !unchanged (valueAt before key) (at_ data key)).take 12
  | _ => []

/-- Two texts of which the same is shown. -/
def Alike : Value → Value → Prop
  | .string v, .string w => revealed v = revealed w
  | _, _ => True

variable {lowering : Lowering} {before before' after after' : Value}

theorem texts_cons (pair : String × String) (pairs : List (String × String)) :
    entriesOf (texts (pair :: pairs)) = (pair.1, .string pair.2) :: entriesOf (texts pairs) := rfl

theorem texts_keys (pairs : List (String × String)) :
    (entriesOf (texts pairs)).map Prod.fst = pairs.map Prod.fst := by
  rw [texts, entriesOf, map_map]
  rfl

/-- At a key two maps of one shape have a text each, or nothing. -/
theorem shape_at {v w : Value} (shape : SameShape v w) (key : String) :
    (valueAt v key = .null ∧ valueAt w key = .null) ∨
      ∃ x y, valueAt v key = .string x ∧ valueAt w key = .string y := by
  rcases shape with nothing | ⟨ps, qs, first, second, keys⟩
  · rw [nothing.1, nothing.2]
    exact Or.inl ⟨rfl, rfl⟩
  · subst first second
    induction ps generalizing qs with
    | nil =>
      rw [map_eq_nil_iff.mp keys.symm]
      exact Or.inl ⟨rfl, rfl⟩
    | cons p ps ih =>
      cases qs with
      | nil => simp at keys
      | cons q qs =>
        obtain ⟨same, behind⟩ := cons.inj keys
        rw [valueAt, valueAt, at_, at_, texts_cons, texts_cons, field_cons, field_cons, ← same]
        by_cases here : key = p.1
        · rw [if_pos here, if_pos here]
          exact Or.inr ⟨p.2, q.2, rfl, rfl⟩
        · rw [if_neg here, if_neg here]
          exact ih qs behind

theorem shape_keys {v w : Value} (shape : SameShape v w) :
    (entriesOf v).map Prod.fst = (entriesOf w).map Prod.fst := by
  rcases shape with nothing | ⟨ps, qs, first, second, keys⟩
  · rw [nothing.1, nothing.2]
  · rw [first, second, texts_keys, texts_keys, keys]

theorem flatMap_unchanged (keys : List String) (same : String → Bool) (d : String → Difference) :
    (keys.flatMap fun key => if same key = true then [] else [d key]) =
      (keys.filter fun key => !same key).map d := by
  induction keys with
  | nil => rfl
  | cons key rest ih =>
    rw [flatMap_cons, ih, filter_cons]
    cases same key <;> rfl

/-- The differences a map of texts has: one for each key at which the text changed. -/
def dataDifferences (lowering : Lowering) (before : Value) (data : Entries) : List Difference :=
  ((sortedKeys data (entriesOf before)).filter fun key =>
    !unchanged (valueAt before key) (at_ data key)).map fun key =>
      difference lowering (jsonPathAppend "/data" key) (valueAt before key) (at_ data key)

theorem data_collects (pairs : List (String × String)) (before : Value) :
    Collects 12 (collectValueDiffs lowering 12 (texts pairs) "/data" before)
      (dataDifferences lowering before (entriesOf (texts pairs))) := by
  have each : ∀ key, Collects 12 (collectValueDiffs lowering 12 (at_ (entriesOf (texts pairs)) key)
      (jsonPathAppend "/data" key) (at_ (entriesOf before) key))
      (oneDifference lowering (jsonPathAppend "/data" key) (at_ (entriesOf before) key)
        (at_ (entriesOf (texts pairs)) key)) := by
    intro key
    have shape : SameShape (texts pairs) (texts pairs) := Or.inr ⟨pairs, pairs, rfl, rfl, rfl⟩
    rcases shape_at shape key with nothing | ⟨x, _, text, _⟩
    · rw [valueAt] at nothing
      rw [nothing.1]
      exact collects_one lowering 12 .null _ _
    · rw [valueAt] at text
      rw [text]
      exact collects_one lowering 12 (.string x) _ _
  rw [dataDifferences, ← flatMap_unchanged]
  apply collects_object lowering each
  intro same key
  exact if_pos (unchanged_at same key)

/-- Differences of texts are the same where what they show is. -/
theorem difference_iff (shape : SameShape before before') (shape' : SameShape after after') (key : String) :
    difference lowering (jsonPathAppend "/data" key) (valueAt before key) (valueAt after key) =
        difference lowering (jsonPathAppend "/data" key) (valueAt before' key) (valueAt after' key) ↔
      Alike (valueAt before key) (valueAt before' key) ∧
        Alike (valueAt after key) (valueAt after' key) := by
  rcases shape_at shape key with old | ⟨x, y, old, old'⟩ <;>
    rcases shape_at shape' key with new | ⟨x', y', new, new'⟩
  all_goals simp only [*, difference, present, data_text_shown, Alike]
  all_goals simp

/-- Data that goes as a whole is one difference, which shows its shape only. -/
theorem gone_alike {before before' : Value} (shape : SameShape before before') :
    oneDifference lowering "/data" before .null = oneDifference lowering "/data" before' .null := by
  rcases shape with nothing | ⟨ps, qs, first, second, same⟩
  · rw [nothing.1, nothing.2]
  · have count : ps.length = qs.length := by
      rw [← length_map Prod.fst, same, length_map]
    subst first second
    simp only [oneDifference, unchanged, normalizeJSONNumber, difference, present, texts,
      previewValue, length_map, count]
    simp

section Pairs
variable {before before' : Value} {ps qs : List (String × String)} (shape : SameShape before before')
  (shape' : SameShape (texts ps) (texts qs))
  (changed : ∀ key, unchanged (valueAt before key) (valueAt (texts ps) key) =
    unchanged (valueAt before' key) (valueAt (texts qs) key))
include shape shape' changed

theorem changed_keys : (sortedKeys (entriesOf (texts qs)) (entriesOf before')).filter (fun key =>
      !unchanged (valueAt before' key) (valueAt (texts qs) key)) =
    (sortedKeys (entriesOf (texts ps)) (entriesOf before)).filter fun key =>
      !unchanged (valueAt before key) (valueAt (texts ps) key) := by
  rw [sortedKeys, sortedKeys, ← shape_keys shape, ← shape_keys shape']
  apply filter_congr
  intro key _
  rw [changed key]

/-- The differences of both are at the same keys. -/
theorem second_differences (lowering : Lowering) : dataDifferences lowering before' (entriesOf (texts qs)) =
      ((sortedKeys (entriesOf (texts ps)) (entriesOf before)).filter fun key =>
        !unchanged (valueAt before key) (valueAt (texts ps) key)).map fun key =>
        difference lowering (jsonPathAppend "/data" key) (valueAt before' key)
          (valueAt (texts qs) key) := by
  rw [← changed_keys shape shape' changed]
  rfl

end Pairs

/-- Of two pairs of maps that change at the same keys, the data lists the same differences exactly
   where it shows the same of each. -/
theorem data_two (lowering : Lowering) (shape : SameShape before before') (shape' : SameShape after after')
    (changed : ∀ key, unchanged (valueAt before key) (valueAt after key) =
      unchanged (valueAt before' key) (valueAt after' key)) :
    ∃ data data', Collects 12 (collectValueDiffs lowering 12 after "/data" before) data ∧
      Collects 12 (collectValueDiffs lowering 12 after' "/data" before') data' ∧
      data.length = data'.length ∧
      (data.take 12 = data'.take 12 ↔ ∀ key ∈ listedKeys before after,
        Alike (valueAt before key) (valueAt before' key) ∧
          Alike (valueAt after key) (valueAt after' key)) := by
  have maps := shape'
  rcases maps with nothing | ⟨ps, qs, first, second, _⟩
  · obtain ⟨gone, gone'⟩ := nothing
    subst gone gone'
    refine ⟨_, _, collects_one lowering 12 .null "/data" before,
      collects_one lowering 12 .null "/data" before', ?_⟩
    simp [gone_alike shape, listedKeys]
  · subst first second
    refine ⟨_, _, data_collects ps before, data_collects qs before', ?_⟩
    rw [second_differences shape shape' changed, dataDifferences]
    constructor
    · rw [length_map, length_map]
      rfl
    · refine (take_map_iff _).trans ?_
      refine forall₂_congr fun key _ => ?_
      exact difference_iff shape shape' key

end Data

section Verification
variable {around : Surroundings}

theorem field_isSome_iff {entries : Entries} {key : String} :
    (field entries key).isSome = true ↔ key ∈ entries.map Prod.fst := by
  constructor
  · intro there
    by_contra absent
    rw [field_absent absent] at there
    cases there
  · intro member
    obtain ⟨entry, inside, name⟩ := mem_map.mp member
    rw [field, lookup_isSome_iff]
    exact ⟨entry, inside, by simp [name]⟩

theorem pair_shape (pair : SecretPair a b) : SameShape (dataValue (some a)) (dataValue (some b)) := by
  have there : (field a "data").isSome = (field b "data").isSome := by
    rw [Bool.eq_iff_iff, field_isSome_iff, field_isSome_iff, pair.fields]
  have keys := pair.data
  rw [keysAt, keysAt, at_, at_] at keys
  show SameShape ((field a "data").getD .null) ((field b "data").getD .null)
  cases first : field a "data" with
  | none =>
    rw [first, Option.isSome_none, eq_comm, Option.isSome_eq_false_iff, Option.isNone_iff_eq_none] at there
    rw [there]
    exact Or.inl ⟨rfl, rfl⟩
  | some v =>
    rw [first, Option.isSome_some, eq_comm, Option.isSome_iff_exists] at there
    obtain ⟨w, second⟩ := there
    obtain ⟨ps, pairs⟩ := pair.first.data v first
    obtain ⟨qs, pairs'⟩ := pair.second.data w second
    rw [first, second, Option.getD_some, Option.getD_some, pairs, pairs', texts_keys, texts_keys]
      at keys
    rw [second, pairs, pairs']
    exact Or.inr ⟨ps, qs, rfl, rfl, keys⟩

theorem pair_others (pair : SecretPair a b) : otherParts (some a) = otherParts (some b) := by
  have metadata := nested_alike (pair.others "metadata" (by decide) (by decide))
  have spec := nested_alike (pair.others "spec" (by decide) (by decide))
  have part : metadataPart a = metadataPart b := by
    rw [metadataPart, metadataPart, metadata, metadata]
  rw [otherParts, otherParts, part, spec]

theorem before_shape {before before' : Option Entries} (pair : Option.Rel SecretPair before before') :
    SameShape (dataValue before) (dataValue before') ∧ otherParts before = otherParts before' := by
  cases pair with
  | some pair => exact ⟨pair_shape pair, pair_others pair⟩
  | none => exact ⟨Or.inl ⟨rfl, rfl⟩, rfl⟩

theorem alike_self (v : Value) : Alike v v := by
  cases v <;> simp [Alike]

/-- Two runs over pairs of Secrets that change at the same keys, with what each reads back. -/
structure TwoRuns (got got' : Except String Entries) (opts opts' : MutationVerificationOptions)
    (post post' : Entries) : Prop where
  mode : opts.previewDiff = opts'.previewDiff
  posted : postOf got opts = .ok post
  posted' : postOf got' opts' = .ok post'
  posts : SecretPair post post'
  befores : Option.Rel SecretPair opts.before opts'.before
  changed : ∀ key, unchanged (valueAt (dataValue opts.before) key) (valueAt (dataValue (some post)) key) =
      unchanged (valueAt (dataValue opts'.before) key) (valueAt (dataValue (some post')) key)

variable {got got' : Except String Entries} {opts opts' : MutationVerificationOptions}
  {post post' : Entries}

theorem resource_iff (runs : TwoRuns got got' opts opts' post post') :
    (buildMutationVerification around got opts).resource =
        (buildMutationVerification around got' opts').resource ↔ SameValues post post' := by
  have detail : levelDetail ≠ levelSummary := by decide
  rw [buildMutationVerification, buildMutationVerification, runs.posted, runs.posted']
  simp only [Option.some.injEq]
  rw [unstructured_iff runs.posts]
  simp [detail]

theorem previewDiff_iff (runs : TwoRuns got got' opts opts' post post') :
    (buildMutationVerification around got opts).previewDiff =
        (buildMutationVerification around got' opts').previewDiff ↔
      (opts.previewDiff = true → ∀ key ∈ listedKeys (dataValue opts.before) (dataValue (some post)),
        Alike (valueAt (dataValue opts.before) key) (valueAt (dataValue opts'.before) key) ∧
          Alike (valueAt (dataValue (some post)) key) (valueAt (dataValue (some post')) key)) := by
  rw [buildMutationVerification, buildMutationVerification, runs.posted, runs.posted', ← runs.mode]
  cases opts.previewDiff with
  | false => simp
  | true =>
    obtain ⟨shape, others⟩ := before_shape runs.befores
    obtain ⟨data, data', collects, collects', level, listed⟩ :=
      data_two around.lowering shape (pair_shape runs.posts) runs.changed
    obtain ⟨rest, first, second⟩ := preview_two others (pair_others runs.posts) collects collects'
    have cut : (data ++ rest).take 12 = (data' ++ rest).take 12 ↔ data.take 12 = data'.take 12 :=
      take_append_iff level
    have same : ∀ x y : List Difference,
        ((if x.isEmpty = true then none else some x) = if y.isEmpty = true then none else some y) ↔
          x = y := by
      intro x y
      cases x <;> cases y <;> simp
    simp only [if_true, beforeAfterPreviewDiff, first, second, same, cut, listed, forall_const]

/-- A typed Secret shows no value at any level. An unstructured one shows its values at every level
   but the summary, and so does the resource a mutation reports; of the values a preview lists,
   those in which RedactSecrets finds something are shown in part. -/
theorem secret_values_shown_iff (around : Surroundings) :
    (∀ level s t, SameKeys s t → minify around s level = minify around t level) ∧
    (∀ level a b, SecretPair a b → (minifyUnstructured around a level = minifyUnstructured around b level ↔
        level = levelSummary ∨ SameValues a b)) ∧
    ∀ got got' opts opts' post post', TwoRuns got got' opts opts' post post' →
      ((buildMutationVerification around got opts).resource =
          (buildMutationVerification around got' opts').resource ↔ SameValues post post') ∧
      ((buildMutationVerification around got opts).previewDiff =
          (buildMutationVerification around got' opts').previewDiff ↔
        (opts.previewDiff = true → ∀ key ∈ listedKeys (dataValue opts.before) (dataValue (some post)),
            Alike (valueAt (dataValue opts.before) key) (valueAt (dataValue opts'.before) key) ∧
              Alike (valueAt (dataValue (some post)) key) (valueAt (dataValue (some post')) key))) := by
  refine ⟨?_, ?_, ?_⟩
  · intro level s t same
    exact typed_alone same level
  · intro level a b pair
    exact unstructured_iff pair level
  · intro got got' opts opts' post post' runs
    exact ⟨resource_iff runs, previewDiff_iff runs⟩

end Verification

section Inputs

def plainSurroundings : Surroundings where
  now := 0
  keyOrder keys := keys
  parseTime _ := none
  lowering := ⟨Char.toLower, toLower_ascii⟩
  customSummary _ kind _ := { kind := kind }

def apiToken (token : String) : Entries :=
  [("apiVersion", .string "v1"), ("data", texts [("token", token)]), ("kind", .string "Secret"),
    ("metadata", .object [("name", .string "api"), ("namespace", .string "web")]),
    ("type", .string "Opaque")]

theorem apiToken_secret (token : String) : IsSecret (apiToken token) where
  distinct := by
    show ["apiVersion", "data", "kind", "metadata", "type"].Nodup
    decide
  apiVersion := rfl
  kind := rfl
  data := by
    intro value here
    exact ⟨[("token", token)], (Option.some.inj here).symm⟩
  stringData := by
    intro value here
    cases here

theorem apiToken_pair (token token' : String) : SecretPair (apiToken token) (apiToken token') where
  first := apiToken_secret token
  second := apiToken_secret token'
  fields := rfl
  others := by
    intro name data _
    simp only [apiToken, field_cons, data, if_false]
  data := rfl
  stringData := rfl

/-- A dry run that replaces a token. -/
def replaceToken (token : String) : MutationVerificationOptions where
  post := some (apiToken "bmV3")
  before := some (apiToken token)
  beforeErr := ""
  previewDiff := true

theorem replaceToken_runs {token token' : String} (first : token ≠ "bmV3") (second : token' ≠ "bmV3") :
    TwoRuns (.error "") (.error "") (replaceToken token) (replaceToken token') (apiToken "bmV3")
      (apiToken "bmV3") where
  mode := rfl
  posted := rfl
  posted' := rfl
  posts := apiToken_pair "bmV3" "bmV3"
  befores := Option.Rel.some (apiToken_pair token token')
  changed := by
    intro key
    show unchanged (at_ [("token", .string token)] key) (at_ [("token", .string "bmV3")] key) =
      unchanged (at_ [("token", .string token')] key) (at_ [("token", .string "bmV3")] key)
    simp only [at_, field_cons]
    by_cases here : key = "token"
    · simp [here, unchanged, normalizeJSONNumber, first, second]
    · simp [here, field]

theorem short_token_hidden : Redact.redactSecrets "aHVudGVyMg==" = "aHVudGVyMg==" := by
  decide +kernel

theorem other_token_hidden : Redact.redactSecrets "c3dvcmRmaXNo" = "c3dvcmRmaXNo" := by
  decide +kernel

theorem keyed_token_shown : Redact.redactSecrets "c2VjcmV0AKIAABCDEFGHIJKLMNOP" = "c2VjcmV0[REDACTED]" := by
  decide +kernel

/-- A dry run that replaces the token lists its one key. -/
theorem token_listed : listedKeys (dataValue (some (apiToken "c2VjcmV0AKIAABCDEFGHIJKLMNOP")))
    (dataValue (some (apiToken "bmV3"))) = ["token"] := by
  decide +kernel

theorem values_reach_agents : (SecretPair (apiToken "aHVudGVyMg==") (apiToken "c3dvcmRmaXNo") ∧
      minifyUnstructured plainSurroundings (apiToken "aHVudGVyMg==") levelDetail ≠
        minifyUnstructured plainSurroundings (apiToken "c3dvcmRmaXNo") levelDetail) ∧
    TwoRuns (.error "") (.error "") (replaceToken "c2VjcmV0AKIAABCDEFGHIJKLMNOP")
      (replaceToken "aHVudGVyMg==") (apiToken "bmV3") (apiToken "bmV3") ∧
    (buildMutationVerification plainSurroundings (.error "")
        (replaceToken "c2VjcmV0AKIAABCDEFGHIJKLMNOP")).previewDiff ≠
      (buildMutationVerification plainSurroundings (.error "")
        (replaceToken "aHVudGVyMg==")).previewDiff := by
  have pair := apiToken_pair "aHVudGVyMg==" "c3dvcmRmaXNo"
  have runs := replaceToken_runs (by decide : "c2VjcmV0AKIAABCDEFGHIJKLMNOP" ≠ "bmV3")
    (by decide : "aHVudGVyMg==" ≠ "bmV3")
  refine ⟨⟨pair, ?_⟩, runs, ?_⟩
  · rw [ne_eq, unstructured_iff pair]
    rintro (summary | values)
    · exact absurd summary (by decide)
    · exact absurd values.1 (by decide)
  · rw [ne_eq, previewDiff_iff runs]
    intro alike
    have shown := (alike rfl "token" (token_listed ▸ List.mem_singleton_self _)).1
    have differ : revealed "c2VjcmV0AKIAABCDEFGHIJKLMNOP" ≠ revealed "aHVudGVyMg==" := by
      rw [revealed, revealed, keyed_token_shown, short_token_hidden]
      decide
    exact differ shown

theorem tokens_hidden : minifyUnstructured plainSurroundings (apiToken "aHVudGVyMg==") levelSummary =
        minifyUnstructured plainSurroundings (apiToken "c3dvcmRmaXNo") levelSummary ∧
      (buildMutationVerification plainSurroundings (.error "")
          (replaceToken "aHVudGVyMg==")).previewDiff =
        (buildMutationVerification plainSurroundings (.error "")
          (replaceToken "c3dvcmRmaXNo")).previewDiff := by
  obtain ⟨_, minified, verified⟩ := secret_values_shown_iff plainSurroundings
  have runs := replaceToken_runs (by decide : "aHVudGVyMg==" ≠ "bmV3")
    (by decide : "c3dvcmRmaXNo" ≠ "bmV3")
  refine ⟨(minified _ _ _ (apiToken_pair _ _)).mpr (Or.inl rfl), ?_⟩
  refine (verified _ _ _ _ _ _ runs).2.mpr ?_
  intro _ key listed
  have listed_token : listedKeys (dataValue (some (apiToken "aHVudGVyMg==")))
      (dataValue (some (apiToken "bmV3"))) = ["token"] := by decide +kernel
  have here : key = "token" := by
    rw [show (replaceToken "aHVudGVyMg==").before = some (apiToken "aHVudGVyMg==") from rfl,
      listed_token] at listed
    exact List.mem_singleton.mp listed
  subst here
  refine ⟨?_, alike_self _⟩
  show revealed "aHVudGVyMg==" = revealed "c3dvcmRmaXNo"
  rw [revealed, revealed, short_token_hidden, other_token_hidden]
  rfl

end Inputs

end SecretValues
