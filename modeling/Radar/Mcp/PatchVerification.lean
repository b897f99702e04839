import Mathlib.Data.Bool.AllAny
import Radar.Base.JsonPatch
import Radar.Mcp.MutationPreview

/- internal/mcp/tools_patch.go: what is reported of each operation of a JSON Patch once the patched
   object is back. -/
namespace PatchVerification
open GoText JsonTree JsonPointer JsonPatch MutationPreview List

section Verification

/-- An operation as it is decoded. Its value is the one the API server decodes from the same text,
where json.Unmarshal makes each number a float64. -/
structure JsonPatchOperation where
  op : String
  path : String
  value : Option Value

structure Report where
  op : String
  path : String
  beforeFound : Bool
  afterFound : Bool
  status : String
  beforeError : Option String
  valueMatched : Option Bool
  note : Option String

def walkPointer : List String → Value → Option Value
  | [], cur => some cur
  | part :: rest, .object typed => (field typed part).bind (walkPointer rest)
  | part :: rest, .array typed =>
    if part = "-" then none
    else match parseInt64 part with
    | none => none
    | some idx =>
      if idx < 0 ∨ typed.length ≤ idx then none else typed[idx.toNat]?.bind (walkPointer rest)
  | _ :: _, _ => none

def getJSONPointerValue (obj : Option Entries) (pointer : String) : Option Value :=
  match obj, pointer.toList with
  | some object, '/' :: raw => walkPointer ((raw.splitOn '/').map unescape) (.object object)
  | _, _ => none

def hasSuffix (s suffix : String) : Bool := suffix.toList.isSuffixOf s.toList

/-- What a remove is reported as. -/
def removeStatus (beforeErr : String) (beforeVal afterVal : Option Value) : String :=
  if beforeErr ≠ "" then "unknown_before"
  else match beforeVal, afterVal with
  | some _, none => "removed"
  | some beforeVal, some afterVal => if beforeVal ≠ afterVal then "changed_at_path" else "unchanged"
  | none, _ => "missing_before"

/-- reflect.DeepEqual of the value after and the one asked for, up to how numbers are held. -/
def valueMatched (afterVal : Option Value) (want : Value) : Bool :=
  afterVal.map normalizeJSONNumber == some (normalizeJSONNumber want)

/-- What a replace or an add is reported as. -/
def presentStatus (afterVal value : Option Value) : String := if afterVal = none then "missing_after"
  else match value with
  | some want => if valueMatched afterVal want then "present" else "present_value_mismatch"
  | none => "present"

variable (l : Lowering) (before after : Option Entries) (beforeErr : String)

def verifyJSONPatchOperation (op : JsonPatchOperation) : Report :=
  let beforeVal := getJSONPointerValue before op.path
  let afterVal := getJSONPointerValue after op.path
  let entry : Report :=
    { op := op.op, path := op.path, beforeFound := beforeVal.isSome, afterFound := afterVal.isSome,
      status := "not_checked", beforeError := none, valueMatched := none, note := none }
  if l.toLower op.op = "remove" then
    { entry with
      status := removeStatus beforeErr beforeVal afterVal
      beforeError := if beforeErr ≠ "" then some beforeErr else none }
  else if l.toLower op.op = "replace" ∨ l.toLower op.op = "add" then
    if l.toLower op.op = "add" ∧ hasSuffix op.path "/-" then
      { entry with
        status := "array_append_not_checked"
        note := some ("JSON Patch append paths ending in /- cannot be resolved as a stable " ++
          "post-mutation JSON pointer") }
    else
      { entry with
        status := presentStatus afterVal op.value
        valueMatched := op.value.map (valueMatched afterVal) }
  else entry

def verifyJSONPatchOperations (ops : List JsonPatchOperation) : List Report :=
  ops.map (verifyJSONPatchOperation l before after beforeErr)

end Verification

section Claims

/-- An operation as a patch writes it. -/
def written : Operation → JsonPatchOperation
  | .add path value => ⟨"add", pointer path, some value⟩
  | .remove path => ⟨"remove", pointer path, none⟩
  | .replace path value => ⟨"replace", pointer path, some value⟩
  | .move _ path => ⟨"move", pointer path, none⟩
  | .copy _ path => ⟨"copy", pointer path, none⟩
  | .test path value => ⟨"test", pointer path, some value⟩

/-- An operation that was applied is not reported as if it was not. -/
def Fair (entry : Report) : Prop := (entry.op = "add" ∨ entry.op = "replace" →
    entry.status ≠ "missing_after" ∧ entry.status ≠ "present_value_mismatch") ∧
  (entry.op = "remove" →
    entry.status ≠ "unchanged" ∧ entry.status ≠ "changed_at_path" ∧ entry.status ≠ "missing_before")

def Truthful (report : List Report) : Prop := ∀ entry ∈ report, Fair entry

/-- The place in an array that a number names, which may have a sign and leading zeros. -/
def looseIndex (count : Nat) (token : String) : Option Nat :=
  (parseInt64 token).bind fun idx => if 0 ≤ idx ∧ idx < count then some idx.toNat else none

/-- What a pointer leads to when its indices are read that way. -/
def looseAt : List String → Option Value → Option Value
  | [], value => value
  | token :: rest, some (.object entries) => looseAt rest (field entries token)
  | token :: rest, some (.array elements) =>
    looseAt rest ((looseIndex elements.length token).bind fun i => elements[i]?)
  | _ :: _, _ => none

/-- What stands at a path as an operation left it still stands there in the end. -/
def Kept (path : List String) (left : Option Value) (after : Entries) : Prop :=
  (looseAt path (some (.object after))).map normalizeJSONNumber = (valueAt path left).map normalizeJSONNumber

/-- Nothing but the operation itself tells at its path: what it put there stands there in the end, and
what it removed was there from the start and nothing has come to its place. The documents just before
it and just after it are `here` and `next`. -/
def Undisturbed (before : Option Entries) (after : Entries) (here next : Option Value) : Operation → Prop
  | .add path _ => path.getLast? = some "-" ∨ path ≠ [] ∧ Kept path next after
  | .replace path _ => path ≠ [] ∧ Kept path next after
  | .remove path => ∀ object, before = some object →
    (looseAt path (some (.object object))).isSome = (valueAt path here).isSome ∧
      looseAt path (some (.object after)) = none
  | _ => True

end Claims

section Pointers

theorem loose_none (path : List String) : looseAt path none = none := by
  cases path <;> rfl

theorem walk_loose (path : List String) (cur : Value) : walkPointer path cur = looseAt path (some cur) := by
  induction path generalizing cur with
  | nil => rfl
  | cons part rest ih =>
    have below : ∀ there : Option Value, there.bind (walkPointer rest) = looseAt rest there := by
      intro there
      cases there with
      | none => exact (loose_none rest).symm
      | some inner => exact ih inner
    cases cur with
    | object typed => exact below (field typed part)
    | array typed =>
      rw [walkPointer, looseAt, looseIndex]
      by_cases append : part = "-"
      · have none_ : parseInt64 "-" = none := by decide
        rw [if_pos append, append, none_]
        exact (loose_none rest).symm
      · rw [if_neg append]
        cases parseInt64 part with
        | none => exact (loose_none rest).symm
        | some idx =>
          by_cases inside : 0 ≤ idx ∧ idx < typed.length
          · have room : ¬ (idx < 0 ∨ (typed.length : Int) ≤ idx) := by omega
            simp only [Option.bind_some, if_pos inside, if_neg room]
            exact below _
          · have outside : idx < 0 ∨ (typed.length : Int) ≤ idx := by omega
            simp only [Option.bind_some, if_neg inside, if_pos outside]
            exact (loose_none rest).symm
    | _ => rfl

/-- A pointer is followed token by token, but the empty one leads nowhere. -/
theorem get_pointer (object : Entries) (path : List String) : getJSONPointerValue (some object) (pointer path) =
    if path = [] then none else looseAt path (some (.object object)) := by
  cases path with
  | nil => rfl
  | cons token rest =>
    have read := tokensOf_pointer (token :: rest)
    rw [tokensOf, pointer_chars] at read
    simp only [Option.some.injEq] at read
    unfold getJSONPointerValue
    rw [pointer_chars]
    simp only [read, walk_loose]
    rfl

theorem escape_dash {token : String} : escape token = "-" ↔ token = "-" := by
  constructor
  · intro same
    have back := unescape_escape token
    rw [← back, ← unescape_escape "-"]
    have chars := congrArg String.toList same
    rw [escape, String.toList_ofList] at chars
    rw [chars]
    rfl
  · rintro rfl
    decide

/-- A pointer ends in a slash and a dash where its last token is a dash. -/
theorem append_suffix (path : List String) :
    hasSuffix (pointer path) "/-" = true ↔ path.getLast? = some "-" := by
  have dash : "/-".toList = ['/', '-'] := by decide
  rw [hasSuffix, isSuffixOf_iff_suffix, dash]
  cases path using reverseRecOn with
  | nil => simp [pointer]
  | append_singleton init last _ =>
    have slash : "/".toList = ['/'] := by decide
    have plain : '/' ∉ (escape last).toList := by
      rw [escape, String.toList_ofList]
      exact escape_plain last
    rw [pointer_append, getLast?_append, getLast?_singleton, Option.some_or,
      Option.some.injEq, ← escape_dash, pointer, pointer, String.append_empty, String.toList_append,
      String.toList_append, slash]
    constructor
    · rintro ⟨front, same⟩
      have mirrored := congrArg reverse same
      simp only [reverse_append, reverse_cons, reverse_nil, nil_append,
        append_assoc, cons_append] at mirrored
      have ends := @sep_inj '/' ['-'] (escape last).toList.reverse front.reverse (pointer init).toList.reverse
        (by decide) (by simpa using plain) mirrored
      have chars : (escape last).toList = ['-'] := by
        rw [← reverse_reverse (escape last).toList, ← ends.1]
        rfl
      rw [← @String.ofList_toList (escape last), chars]
    · intro same
      rw [same]
      exact ⟨(pointer init).toList, by simp⟩

end Pointers

section Reports
variable {l : Lowering} {before : Option Entries} {after : Entries} {beforeErr : String}
variable {here next : Option Value} {path : List String} {value : Value}

theorem lower_add (l : Lowering) : l.toLower "add" = "add" :=
  l.toLower_plain (all_iff_forall_prop.mp (by decide))

theorem lower_remove (l : Lowering) : l.toLower "remove" = "remove" :=
  l.toLower_plain (all_iff_forall_prop.mp (by decide))

theorem lower_replace (l : Lowering) : l.toLower "replace" = "replace" :=
  l.toLower_plain (all_iff_forall_prop.mp (by decide))

theorem report_op (op : JsonPatchOperation) : (verifyJSONPatchOperation l before (some after) beforeErr op).op =
    op.op := by
  unfold verifyJSONPatchOperation
  dsimp only
  split
  · rfl
  · split
    · split <;> rfl
    · rfl

/-- Of the other operations nothing is told. -/
theorem other_fair {op : JsonPatchOperation} (add : op.op ≠ "add") (replace : op.op ≠ "replace")
    (remove : op.op ≠ "remove") : Fair (verifyJSONPatchOperation l before (some after) beforeErr op) := by
  rw [Fair, report_op]
  exact ⟨fun either => absurd either (by simp [add, replace]), fun same => absurd same remove⟩

theorem present_fair {afterVal : Option Value} {want : Value} :
    (presentStatus afterVal (some want) ≠ "missing_after" ∧
      presentStatus afterVal (some want) ≠ "present_value_mismatch") ↔
      afterVal.map normalizeJSONNumber = some (normalizeJSONNumber want) := by
  cases afterVal with
  | none => simp [presentStatus]
  | some there =>
    by_cases same : normalizeJSONNumber there = normalizeJSONNumber want
    · simp [presentStatus, valueMatched, same]
    · simp [presentStatus, valueMatched, same]

theorem remove_fair {beforeVal afterVal : Option Value} :
    (removeStatus beforeErr beforeVal afterVal ≠ "unchanged" ∧
      removeStatus beforeErr beforeVal afterVal ≠ "changed_at_path" ∧
      removeStatus beforeErr beforeVal afterVal ≠ "missing_before") ↔
      (beforeErr = "" → beforeVal.isSome ∧ afterVal = none) := by
  by_cases read : beforeErr = ""
  · cases beforeVal with
    | none => simp [removeStatus, read]
    | some was =>
      cases afterVal with
      | none => simp [removeStatus, read]
      | some is_ =>
        by_cases same : was = is_
        · simp [removeStatus, read, same]
        · simp [removeStatus, read, same]
  · simp [removeStatus, read]

/-- A value put at a path is reported rightly where what stands there in the end is that value. -/
theorem put_fair {next : Option Value} (stands : valueAt path next = some value) :
    (presentStatus (getJSONPointerValue (some after) (pointer path)) (some value) ≠ "missing_after" ∧
      presentStatus (getJSONPointerValue (some after) (pointer path)) (some value) ≠
        "present_value_mismatch") ↔ path ≠ [] ∧ Kept path next after := by
  rw [present_fair, get_pointer, Kept, stands]
  by_cases top : path = []
  · simp [top]
  · rw [if_neg top, and_iff_right top]
    rfl

theorem add_fair (step : add path value here = some next) :
    Fair (verifyJSONPatchOperation l before (some after) beforeErr (written (.add path value))) ↔
      Undisturbed before after here next (.add path value) := by
  by_cases append : path.getLast? = some "-"
  · simp [Fair, verifyJSONPatchOperation, written, lower_add, Undisturbed, append,
      (append_suffix path).mpr append]
  · have suffix : hasSuffix (pointer path) "/-" = false :=
      Bool.eq_false_iff.mpr fun ends => append ((append_suffix path).mp ends)
    rw [Undisturbed, or_iff_right append, ← put_fair (add_value append step)]
    simp [Fair, verifyJSONPatchOperation, written, lower_add, suffix]

theorem replace_fair (step : replace path value here = some next) :
    Fair (verifyJSONPatchOperation l before (some after) beforeErr (written (.replace path value))) ↔
      Undisturbed before after here next (.replace path value) := by
  rw [Undisturbed, ← put_fair (replace_value step)]
  simp [Fair, verifyJSONPatchOperation, written, lower_replace]

theorem removed_fair {object : Entries} (step : remove path here = some next) :
    Fair (verifyJSONPatchOperation l (if beforeErr = "" then some object else none) (some after) beforeErr
      (written (.remove path))) ↔
      Undisturbed (if beforeErr = "" then some object else none) after here next (.remove path) := by
  have found := remove_found step
  have status : Fair (verifyJSONPatchOperation l (if beforeErr = "" then some object else none) (some after)
      beforeErr (written (.remove path))) ↔ (beforeErr = "" →
        (getJSONPointerValue (if beforeErr = "" then some object else none) (pointer path)).isSome ∧
          getJSONPointerValue (some after) (pointer path) = none) := by
    rw [← remove_fair]
    simp [Fair, verifyJSONPatchOperation, written, lower_remove]
  rw [status, Undisturbed, found]
  by_cases read : beforeErr = ""
  · rw [if_pos read]
    simp only [read, forall_const, Option.some.injEq, forall_eq', get_pointer]
    by_cases top : path = []
    · simp [top, looseAt]
    · simp [top]
  · simp [read]

/-- An operation's report is right just where nothing else touched its place. -/
theorem operation_fair {op : Operation} {object : Entries} (step : apply op here = some next) :
    Fair (verifyJSONPatchOperation l (if beforeErr = "" then some object else none) (some after) beforeErr
      (written op)) ↔ Undisturbed (if beforeErr = "" then some object else none) after here next op := by
  cases op with
  | add path value => exact add_fair step
  | remove path => exact removed_fair step
  | replace path value => exact replace_fair step
  | move origin path => exact iff_of_true (other_fair (by simp [written]) (by simp [written]) (by simp [written])) trivial
  | copy origin path => exact iff_of_true (other_fair (by simp [written]) (by simp [written]) (by simp [written])) trivial
  | test path value => exact iff_of_true (other_fair (by simp [written]) (by simp [written]) (by simp [written])) trivial

end Reports

/-- A patch is reported as it was applied just where the place of each operation is undisturbed. -/
theorem truthful_iff (l : Lowering) (before after : Entries) (beforeErr : String) (ops : List Operation)
    (applied : applyAll ops (some (.object before)) = some (some (.object after))) :
    Truthful (verifyJSONPatchOperations l (if beforeErr = "" then some before else none) (some after)
      beforeErr (ops.map written)) ↔
      ∀ front op back here next, ops = front ++ op :: back →
        applyAll front (some (.object before)) = some here → apply op here = some next →
          Undisturbed (if beforeErr = "" then some before else none) after here next op := by
  constructor
  · rintro truthful front op back here next rfl _ step
    have listed : written op ∈ (front ++ op :: back).map written :=
      List.mem_map_of_mem (List.mem_append_right front List.mem_cons_self)
    exact (operation_fair step).mp (truthful _ (List.mem_map_of_mem listed))
  · intro undisturbed entry member
    rw [verifyJSONPatchOperations, List.map_map] at member
    obtain ⟨op, listed, rfl⟩ := List.mem_map.mp member
    obtain ⟨front, back, rfl⟩ := List.append_of_mem listed
    obtain ⟨here, next, first, step, _⟩ := apply_split applied
    exact (operation_fair step).mpr (undisturbed front op back here next rfl first step)

section Inputs

/-- An object that two controllers hold. -/
def held : Entries := [("metadata", .object [("finalizers", .array [.string "drain", .string "backup"])])]

def released : Entries := [("metadata", .object [("finalizers", .array [.string "backup"])])]

def release (index : String) : List Operation := [.remove ["metadata", "finalizers", index]]

theorem last_released : Truthful (verifyJSONPatchOperations asciiLowering (some
    [("metadata", .object [("finalizers", .array [.string "backup", .string "drain"])])]) (some released) ""
      ((release "1").map written)) := by
  refine (truthful_iff asciiLowering _ released "" (release "1") (by decide +kernel)).mpr ?_
  intro front op back here next same first step
  cases front with
  | nil =>
    obtain ⟨rfl, rfl⟩ := List.cons.inj same
    obtain rfl := Option.some.inj first
    rintro object ⟨⟩
    decide +kernel
  | cons op' rest => exact absurd (congrArg List.length same) (by simp [release])

/-- The finalizer behind the one that was removed has come to its place. -/
theorem shifted_misreported :
    applyAll (release "0") (some (.object held)) = some (some (.object released)) ∧
      ¬ Truthful (verifyJSONPatchOperations asciiLowering (some held) (some released) ""
        ((release "0").map written)) := by
  refine ⟨by decide +kernel, fun truthful => ?_⟩
  have status : (verifyJSONPatchOperation asciiLowering (some held) (some released) ""
      (written (.remove ["metadata", "finalizers", "0"]))).status = "changed_at_path" := by
    decide +kernel
  exact ((truthful _ List.mem_cons_self).2 rfl).2.1 status

end Inputs

end PatchVerification
