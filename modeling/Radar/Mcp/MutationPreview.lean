import Radar.Ai.Minify
import Radar.Base.Arrange
import Radar.Base.Bounded

/- internal/mcp/mutation_verification.go: what a mutation reports back, and how its preview shows
   the values that changed. A nil value and a missing one are both null. -/
namespace MutationPreview
open GoText JsonTree Minify Arrange Bounded

section Normalize

/-- An integer as the nearest float64, ties to even. -/
def float64 (value : Int) : Rat := let size := value.natAbs
  let unit := 2 ^ (size.log2 - 52)
  let whole := size / unit
  let left := size % unit
  let rounded := if 2 * left > unit ∨ (2 * left = unit ∧ whole % 2 = 1) then whole + 1 else whole
  if value < 0 then -((rounded * unit : Nat) : Int) else ((rounded * unit : Nat) : Int)

mutual
def normalizeJSONNumber : Value → Value
  | .integer value => .float (float64 value)
  | .array elements => .array (normalizeElements elements)
  | .object entries => .object (normalizeEntries entries)
  | value => value
termination_by structural value => value

def normalizeElements : List Value → List Value
  | [] => []
  | value :: rest => normalizeJSONNumber value :: normalizeElements rest
termination_by structural elements => elements

def normalizeEntries : Entries → Entries
  | [] => []
  | (key, value) :: rest => (key, normalizeJSONNumber value) :: normalizeEntries rest
termination_by structural entries => entries
end

/-- reflect.DeepEqual up to how numbers are held. -/
def unchanged (before after : Value) : Bool := normalizeJSONNumber before = normalizeJSONNumber after

end Normalize

section Shown

/-- A value as the preview writes it: a text by its bytes, which a cut may leave inside a
   character, and a number, a truth value or null as it is. -/
inductive Shown where
  | text (bytes : List UInt8)
  | plain (value : Value)

def bytesOf (s : String) : List UInt8 := s.toList.flatMap String.utf8EncodeChar

variable (lowering : Lowering)

def isSensitivePreviewPath (path : String) : Bool := let lower := lowering.toLower path
  contains lower "secret" || contains lower "token" || contains lower "password" ||
    contains lower "credential" || contains lower "/data/"

/-- A text cut after 160 bytes. -/
def shorten (redacted : String) : List UInt8 := let bytes := bytesOf redacted
  if 160 < bytes.length then bytes.take 160 ++ bytesOf "..." else bytes

def previewValue (path : String) : Value → Shown
  | .string v =>
    let redacted := Redact.redactSecrets v
    if isSensitivePreviewPath lowering path ∧ redacted = v then .text (bytesOf "[redacted]")
    else .text (shorten redacted)
  | .object entries => .text (bytesOf ("object(" ++ toString entries.length ++ " keys)"))
  | .array elements => .text (bytesOf ("array(" ++ toString elements.length ++ " items)"))
  | value => .plain (normalizeJSONNumber value)

def jsonPathAppend (path key : String) : String :=
  let escaped := replaceChar '/' "~1" (replaceChar '~' "~0" key)
  if path = "" then "/" ++ escaped else path ++ "/" ++ escaped

end Shown

section Diffs

structure Difference where
  type_ : String
  path : String
  before : Option Shown
  after : Option Shown

variable (lowering : Lowering)

def present (path : String) (value : Value) : Option Shown :=
  if value = .null then none else some (previewValue lowering path value)

def difference (path : String) (before after : Value) : Difference :=
  { type_ := if before = .null then "added" else if after = .null then "removed" else "changed",
    path := path, before := present lowering path before, after := present lowering path after }

def entriesOf : Value → Entries
  | .object entries => entries
  | _ => []

/-- The value at a key, null where it has none. -/
def at_ (entries : Entries) (key : String) : Value := (field entries key).getD .null

def lessText (a b : String) : Bool := a < b

/-- The keys of either side, sorted. -/
def sortedKeys (after before : Entries) : List String := sortStable lessText (after.map Prod.fst ++
    (before.map Prod.fst).filter fun key => !(after.map Prod.fst).contains key)

/-- How the differences below a value are collected, given its path and what it was before. -/
abbrev Collector := (path : String) → (before : Value) → List Difference → List Difference

variable (limit : Nat)

/-- One value on its own, changed as a whole. -/
def collectOne (after : Value) : Collector := fun path before differences =>
  if limit ≤ differences.length then differences
  else if unchanged before after then differences
  else differences ++ [difference lowering path before after]

mutual
/-- collectValueDiffs, the value after the mutation first. -/
def collectValueDiffs : Value → Collector
  | .object entries => fun path before differences =>
    let inner := collectEntries entries
    if limit ≤ differences.length then differences
    else if unchanged before (.object entries) then differences
    else inTurn limit ((sortedKeys entries (entriesOf before)).map fun key =>
      ((inner.lookup key).getD (collectOne lowering limit .null)) (jsonPathAppend path key)
        (at_ (entriesOf before) key)) differences
  | .array elements => fun path before differences =>
    let inner := collectElements elements
    if limit ≤ differences.length then differences
    else if unchanged before (.array elements) then differences
    else match before with
    | .array befores =>
      if elements.length = befores.length then
        inTurn limit ((inner.zip befores).zipIdx.map fun part =>
          part.1.1 (jsonPathAppend path (toString part.2)) part.1.2) differences
      else differences ++ [difference lowering path before (.array elements)]
    | _ => if elements.length = 0 then differences
      else differences ++ [difference lowering path before (.array elements)]
  | after => collectOne lowering limit after
termination_by structural after => after

def collectElements : List Value → List Collector
  | [] => []
  | value :: rest => collectValueDiffs value :: collectElements rest
termination_by structural elements => elements

def collectEntries : Entries → List (String × Collector)
  | [] => []
  | (key, value) :: rest => (key, collectValueDiffs value) :: collectEntries rest
termination_by structural entries => entries
end

end Diffs

section Verification

/-- The parts of an object a preview looks at, its keys in order. -/
def mutationPreviewObject : Option Entries → Value
  | none => .null
  | some obj =>
    let part (path : List String) := nested (.object obj) path
    let metadata := (part ["metadata", "annotations"]).toList.map (fun v => ("annotations", v)) ++
      (part ["metadata", "labels"]).toList.map (fun v => ("labels", v))
    .object ((part ["data"]).toList.map (fun v => ("data", v)) ++
      (if metadata = [] then [] else [("metadata", .object metadata)]) ++
      (part ["spec"]).toList.map (fun v => ("spec", v)))

/-- The differences of a preview, none where there are none to show. -/
def beforeAfterPreviewDiff (lowering : Lowering) (before : Option Entries) (after : Entries) :
    Option (List Difference) :=
  let differences := collectValueDiffs lowering 12 (mutationPreviewObject (some after)) ""
    (mutationPreviewObject before) []
  if differences.isEmpty then none else some differences

structure MutationVerificationOptions where
  post : Option Entries
  before : Option Entries
  beforeErr : String
  previewDiff : Bool

/-- The block a mutation returns, as far as it shows the object itself. -/
structure Verification where
  mode : String
  error : Option String
  preMutationRead : Option String
  previewDiff : Option (List Difference)
  resource : Option Minified

/-- The object after the mutation: as the caller gives it, or as read back. -/
def postOf (got : Except String Entries) (opts : MutationVerificationOptions) : Except String Entries :=
  (opts.post.map Except.ok).getD got

def buildMutationVerification (around : Surroundings) (got : Except String Entries)
    (opts : MutationVerificationOptions) : Verification :=
  let mode := if opts.previewDiff then "dry_run_preview" else "post_mutation_state"
  match postOf got opts with
  | .error e => ⟨mode, some e, none, none, none⟩
  | .ok post =>
    { mode := mode, error := none
      preMutationRead := if opts.beforeErr = "" then none else some opts.beforeErr
      previewDiff := if opts.previewDiff then
          beforeAfterPreviewDiff around.lowering opts.before post
        else none
      resource := some (minifyUnstructured around post levelDetail) }

end Verification

end MutationPreview
