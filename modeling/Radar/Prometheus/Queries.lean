import Mathlib.Data.List.Forall2
import Radar.Base.GoText
import Radar.Base.QuotedText
import Radar.Base.Regexp

/- pkg/prom/queries.go: the queries for the metrics of a pod, a workload, a node and a namespace. The texts are character lists,
   and a query is the format and the arguments of its fmt.Sprintf; the filter on nodes is written into the formats. -/
namespace Queries
open GoText QuotedText Regexp

section Model

def unsafeLabelChars (c : Char) : Bool := ['\\', '\'', '"', '\x60', '{', '}'].contains c

def sanitizeLabelValue (s : List Char) : List Char := s.flatMap fun c => if unsafeLabelChars c then ['\\', c] else [c]

def regexMeta (c : Char) : Bool := ['.', '+', '*', '?', '^', '$', '{', '}', '(', ')', '|', '[', ']', '\\'].contains c

-- Both backslashes of the replacement are written: only a dollar sign is special there.
def escapeRegexMeta (s : List Char) : List Char := s.flatMap fun c => if regexMeta c then ['\\', '\\', c] else [c]

inductive MetricCategory where
  | cpu
  | memory
  | networkRX
  | networkTX
  | filesystem
  | restarts
  | other (name : String)

inductive Arg where
  | filter (filterContainer : Bool)
  | exact (s : List Char)
  | pods (workloadName : List Char)
  | node (nodeName : List Char)

def Arg.text : Arg → List Char
  | .filter filterContainer => if filterContainer then "container!='',".toList else []
  | .exact s => sanitizeLabelValue s
  | .pods workloadName => escapeRegexMeta (sanitizeLabelValue workloadName) ++ "-.*".toList
  | .node nodeName => escapeRegexMeta (sanitizeLabelValue nodeName)

structure Query where
  format : String
  args : List Arg

def Query.text (q : Query) : List Char := sprintf q.format.toList (q.args.map Arg.text)

/-- The queries over the pods that `op` and the argument `pod` select; `none` for the empty query. -/
def buildPodsQuery (op : String) (pod : Arg) (namespace_ : List Char) (category : MetricCategory) (filterContainer : Bool) :
    Option Query :=
  let cf := Arg.filter filterContainer
  let ns := Arg.exact namespace_
  match category with
  | .restarts => some ⟨"sum by (pod,namespace) (changes(kube_pod_container_status_restarts_total\x7bnamespace='%s',pod" ++ op ++
      "'%s'\x7d[1h]))", [ns, pod]⟩
  | .cpu => some ⟨"sum(rate(container_cpu_usage_seconds_total\x7b%snamespace='%s',pod" ++ op ++ "'%s'\x7d[5m])) by (pod,namespace)",
      [cf, ns, pod]⟩
  | .memory => some ⟨"sum by (pod,namespace) (max by (pod,namespace,container) " ++
      "(container_memory_working_set_bytes\x7b%snamespace='%s',pod" ++ op ++ "'%s'\x7d))", [cf, ns, pod]⟩
  | .networkRX => some ⟨"sum(rate(container_network_receive_bytes_total\x7bnamespace='%s',pod" ++ op ++
      "'%s'\x7d[5m])) by (pod,namespace)", [ns, pod]⟩
  | .networkTX => some ⟨"sum(rate(container_network_transmit_bytes_total\x7bnamespace='%s',pod" ++ op ++
      "'%s'\x7d[5m])) by (pod,namespace)", [ns, pod]⟩
  | .filesystem => some ⟨"sum(rate(container_fs_writes_bytes_total\x7bnamespace='%s',pod" ++ op ++
      "'%s'\x7d[5m]) + rate(container_fs_reads_bytes_total\x7bnamespace='%s',pod" ++ op ++ "'%s'\x7d[5m])) by (pod,namespace)",
      [ns, pod, ns, pod]⟩
  | .other _ => none

def buildPodQuery (namespace_ podName : List Char) : MetricCategory → Bool → Option Query :=
  buildPodsQuery "=" (.exact podName) namespace_

def buildWorkloadQuery (namespace_ workloadName : List Char) : MetricCategory → Bool → Option Query :=
  buildPodsQuery "=~" (.pods workloadName) namespace_

def nodeFilter : String := "instance=~'%s(:\\\\d+)?'"

def buildNodeQuery (nodeName : List Char) : MetricCategory → Option Query
  | .cpu => some ⟨"sum(rate(node_cpu_seconds_total\x7bmode!='idle'," ++ nodeFilter ++ "\x7d[5m]))", [.node nodeName]⟩
  | .memory => some ⟨"node_memory_MemTotal_bytes\x7b" ++ nodeFilter ++ "\x7d - node_memory_MemAvailable_bytes\x7b" ++ nodeFilter ++ "\x7d",
      [.node nodeName, .node nodeName]⟩
  | .filesystem => some ⟨"sum(node_filesystem_size_bytes\x7b" ++ nodeFilter ++
      ",fstype=~'ext4|xfs|btrfs'\x7d - node_filesystem_avail_bytes\x7b" ++ nodeFilter ++ ",fstype=~'ext4|xfs|btrfs'\x7d)",
      [.node nodeName, .node nodeName]⟩
  | _ => none

def buildNamespaceQueryInner (namespace_ : List Char) (category : MetricCategory) (filterContainer : Bool) : Option Query :=
  let cf := Arg.filter filterContainer
  let ns := Arg.exact namespace_
  match category with
  | .cpu => some ⟨"sum(rate(container_cpu_usage_seconds_total\x7b%snamespace='%s'\x7d[5m]))", [cf, ns]⟩
  | .memory => some ⟨"sum(max by (namespace,pod,container) (container_memory_working_set_bytes\x7b%snamespace='%s'\x7d))", [cf, ns]⟩
  | .networkRX => some ⟨"sum(rate(container_network_receive_bytes_total\x7bnamespace='%s'\x7d[5m]))", [ns]⟩
  | .networkTX => some ⟨"sum(rate(container_network_transmit_bytes_total\x7bnamespace='%s'\x7d[5m]))", [ns]⟩
  | _ => none

inductive Target where
  | pod
  | workload
  | node

/-- The cases of buildQueryInner, over the kind in lower case. -/
def target (kind : String) : Option Target := if kind = "pod" then some .pod
  else if ["deployment", "statefulset", "daemonset", "replicaset", "job", "cronjob"].contains kind then some .workload
  else if kind = "node" then some .node
  else none

def buildQueryInner (lowering : Lowering) (kind : String) (namespace_ name : List Char) (category : MetricCategory)
    (filterContainer : Bool) : Option Query :=
  match target (lowering.toLower kind) with
  | some .pod => buildPodQuery namespace_ name category filterContainer
  | some .workload => buildWorkloadQuery namespace_ name category filterContainer
  | some .node => buildNodeQuery name category
  | none => none

/-- A call of BuildQuery or BuildNamespaceQuery, or, without the container filter, of its fallback. -/
inductive Call where
  | resource (kind : String) (namespace_ name : List Char) (category : MetricCategory) (filterContainer : Bool)
  | ofNamespace (namespace_ : List Char) (category : MetricCategory) (filterContainer : Bool)

def build (lowering : Lowering) : Call → Option Query
  | .resource kind namespace_ name category filterContainer =>
    buildQueryInner lowering kind namespace_ name category filterContainer
  | .ofNamespace namespace_ category filterContainer => buildNamespaceQueryInner namespace_ category filterContainer

end Model

variable {a : Arg}

section Statement

inductive Op where
  | equal
  | notEqual
  | regex
  deriving DecidableEq

structure Matcher where
  label : List Char
  op : Op
  value : List Char

/-- The label and the operator in front of a string, from what stands there read backwards. -/
def matcher (before value : List Char) : Matcher :=
  let label (w : List Char) := (w.takeWhile fun c => c.isAlphanum || c == '_').reverse
  match before with
  | '~' :: '=' :: w => ⟨label w, .regex, value⟩
  | '=' :: '!' :: w => ⟨label w, .notEqual, value⟩
  | '=' :: w => ⟨label w, .equal, value⟩
  | w => ⟨label w, .equal, value⟩

def matchers : List Char → List Token → List Matcher
  | before, .string value :: rest => matcher before value :: matchers [] rest
  | before, .sign c :: rest => matchers (c :: before) rest
  | _, [] => []

/-- A matcher as it is meant. -/
structure Wanted where
  label : String
  op : Op
  means : List Char → Prop

def Meets (w : Wanted) (m : Matcher) : Prop := m.label = w.label.toList ∧ m.op = w.op ∧ w.means m.value

def exactly (label : String) (s : List Char) : Wanted := ⟨label, .equal, fun v => v = s⟩

/-- A pattern that matches exactly the texts it is meant for. -/
def Pattern (meant : List Char → Prop) (v : List Char) : Prop := ∃ r, parse v = some r ∧ ∀ t, r.Matches t ↔ meant t

def podsOf (workloadName : List Char) : Wanted := ⟨"pod", .regex, Pattern fun t => ∃ u, t = workloadName ++ '-' :: u⟩

def onNode (nodeName : List Char) : Wanted :=
  ⟨"instance", .regex, Pattern fun t => t = nodeName ∨ ∃ port, port ≠ [] ∧ (∀ c ∈ port, c.isDigit = true) ∧ t = nodeName ++ ':' :: port⟩

def noContainer : Wanted := ⟨"container", .notEqual, fun v => v = []⟩

/-- The matchers of a query over pods, in their order. -/
def overPods {α : Type} (container ns pod : α) (category : MetricCategory) (filterContainer : Bool) : List α :=
  match category with
  | .cpu | .memory => if filterContainer then [container, ns, pod] else [ns, pod]
  | .filesystem => [ns, pod, ns, pod]
  | _ => [ns, pod]

def overNode {α : Type} (mode fstype node : α) : MetricCategory → List α
  | .cpu => [mode, node]
  | .filesystem => [node, fstype, node, fstype]
  | _ => [node, node]

def overNamespace {α : Type} (container ns : α) (category : MetricCategory) (filterContainer : Bool) : List α :=
  match category with
  | .cpu | .memory => if filterContainer then [container, ns] else [ns]
  | _ => [ns]

def wanted (lowering : Lowering) : Call → List Wanted
  | .resource kind namespace_ name category filterContainer =>
    match target (lowering.toLower kind) with
    | some .pod => overPods noContainer (exactly "namespace" namespace_) (exactly "pod" name) category filterContainer
    | some .workload => overPods noContainer (exactly "namespace" namespace_) (podsOf name) category filterContainer
    | some .node => overNode ⟨"mode", .notEqual, fun v => v = "idle".toList⟩
        ⟨"fstype", .regex, fun v => v = "ext4|xfs|btrfs".toList⟩ (onNode name) category
    | none => []
  | .ofNamespace namespace_ category filterContainer =>
    overNamespace noContainer (exactly "namespace" namespace_) category filterContainer

/-- The filter is part of the query; the other arguments are the values of strings. -/
def Fills : Arg → Slot → Prop
  | .filter filterContainer, s => s = .part (Arg.filter filterContainer).text
  | _, s => ∃ v, s = .value v

/-- The query reads as the tokens of its format with strings at the arguments, and has the matchers it is meant to have. -/
def Sound (lenient : Bool) (lowering : Lowering) (call : Call) : Prop := match build lowering call with
  | none => True
  | some q => ∃ slots tokens, List.Forall₂ Fills q.args slots ∧ lex lenient q.text = some tokens ∧
      intended lenient q.format.toList slots = some tokens ∧ List.Forall₂ Meets (wanted lowering call) (matchers [] tokens)

/-- The characters that the escapes leave readable. -/
def readable (lenient : Bool) (c : Char) : Bool :=
  c != '\n' && c != '\x60' && c != '{' && c != '}' && (c != '"' || lenient)

/-- The characters that are themselves behind a backslash in a pattern, and that no pass escapes. -/
def stands (c : Char) : Bool := punctuation c && !regexMeta c && !unsafeLabelChars c

/-- Every backslash has such a character behind it. -/
def Settled (s : List Char) : Prop := ∀ u v, s = u ++ '\\' :: v → ∃ c w, v = c :: w ∧ stands c = true

def Arg.source : Arg → List Char
  | .filter _ => []
  | .exact s => s
  | .pods workloadName => workloadName
  | .node nodeName => nodeName

def Arg.Settled : Arg → Prop
  | .pods workloadName => Queries.Settled (workloadName ++ ['-'])
  | .node nodeName => Queries.Settled nodeName
  | _ => True

def args (lowering : Lowering) (call : Call) : List Arg := match build lowering call with
  | none => []
  | some q => q.args

def Readable (lenient : Bool) (lowering : Lowering) (call : Call) : Prop :=
  ∀ a ∈ args lowering call, a.source.all (readable lenient) = true

def Clean (lenient : Bool) (lowering : Lowering) (call : Call) : Prop :=
  Readable lenient lowering call ∧ ∀ a ∈ args lowering call, a.Settled

end Statement

section Escapes

/-- What a string reads of one character of a name in a pattern. -/
def block (c : Char) : List Char :=
  if c = '\\' then ['\\', '\\', '\\'] else if regexMeta c || unsafeLabelChars c then ['\\', c] else [c]

def pattern (s : List Char) : List Char := s.flatMap block

variable (lenient : Bool)

theorem run_blocks {block value : Char → List Char}
    (each : ∀ c read, run lenient (.quoted '\'' read) (block c) =
      if readable lenient c then some (.quoted '\'' (read ++ value c), []) else none) (s read : List Char) :
    run lenient (.quoted '\'' read) (s.flatMap block) =
      if s.all (readable lenient) then some (.quoted '\'' (read ++ s.flatMap value), []) else none := by
  induction s generalizing read with
  | nil => simp [run]
  | cons c rest ih =>
    rw [List.flatMap_cons, run_append, each]
    by_cases first : readable lenient c = true
    · rw [if_pos first, Option.bind_some, ih]
      by_cases later : rest.all (readable lenient) = true
      · rw [if_pos later, if_pos (by rw [List.all_cons, first, later]; rfl)]
        simp
      · rw [if_neg later, if_neg (by rw [List.all_cons, first]; exact later)]
        rfl
    · rw [if_neg first, if_neg (by rw [List.all_cons]; simp [first])]
      rfl

theorem special_mark {c : Char} (special : regexMeta c = true ∨ unsafeLabelChars c = true) : punctuation c = true := by
  rcases special with marked | unsafe_
  · have listed := List.contains_iff_mem.mp marked
    simp only [List.mem_cons, List.not_mem_nil, or_false] at listed
    rcases listed with rfl | rfl | rfl | rfl | rfl | rfl | rfl | rfl | rfl | rfl | rfl | rfl | rfl | rfl <;> rfl
  · have listed := List.contains_iff_mem.mp unsafe_
    simp only [List.mem_cons, List.not_mem_nil, or_false] at listed
    rcases listed with rfl | rfl | rfl | rfl | rfl | rfl <;> rfl

theorem run_plain {c : Char} (safe : unsafeLabelChars c = false) (read : List Char) :
    run lenient (.quoted '\'' read) [c] = if readable lenient c then some (.quoted '\'' (read ++ [c]), []) else none := by
  have other : ∀ d, unsafeLabelChars d = true → c ≠ d := by
    rintro d special rfl
    rw [safe] at special
    cases special
  have quote := other '\'' rfl
  have slash := other '\\' rfl
  have double := other '"' rfl
  have tick := other '\x60' rfl
  have opens := other '{' rfl
  have closes := other '}' rfl
  by_cases line : c = '\n'
  · subst line
    rfl
  · simp [run, step, readable, quote, slash, double, tick, opens, closes, line]

theorem run_sanitized (s read : List Char) : run lenient (.quoted '\'' read) (sanitizeLabelValue s) =
      if s.all (readable lenient) then some (.quoted '\'' (read ++ s), []) else none := by
  have each : ∀ c read, run lenient (.quoted '\'' read) (if unsafeLabelChars c then ['\\', c] else [c]) =
      if readable lenient c then some (.quoted '\'' (read ++ [c]), []) else none := by
    intro c read
    by_cases safe : unsafeLabelChars c = true
    · rw [if_pos safe]
      have listed := List.contains_iff_mem.mp safe
      simp only [List.mem_cons, List.not_mem_nil, or_false] at listed
      rcases listed with rfl | rfl | rfl | rfl | rfl | rfl <;> cases lenient <;> rfl
    · rw [if_neg safe]
      exact run_plain lenient (Bool.eq_false_iff.mpr safe) read
  have whole := run_blocks lenient each s read
  rwa [List.flatMap_singleton'] at whole

theorem run_escaped (s read : List Char) :
    run lenient (.quoted '\'' read) (escapeRegexMeta (sanitizeLabelValue s)) =
      if s.all (readable lenient) then some (.quoted '\'' (read ++ pattern s), []) else none := by
  rw [escapeRegexMeta, sanitizeLabelValue, List.flatMap_assoc, pattern]
  apply run_blocks
  intro c read
  by_cases safe : unsafeLabelChars c = true
  · have listed := List.contains_iff_mem.mp safe
    simp only [List.mem_cons, List.not_mem_nil, or_false] at listed
    have two : ∀ d, read ++ ['\\'] ++ [d] = read ++ ['\\', d] := fun d => List.append_assoc read _ _
    have three : read ++ ['\\'] ++ ['\\'] ++ ['\\'] = read ++ ['\\', '\\', '\\'] := by
      rw [two, List.append_assoc]
      rfl
    have quoted := fun v w (same : v = w) => congrArg (fun u => some (Mode.quoted '\'' u, ([] : List Token))) same
    rcases listed with rfl | rfl | rfl | rfl | rfl | rfl
    · exact quoted _ _ three
    · cases lenient <;> exact quoted _ _ (two '\'')
    · cases lenient with
      | false => rfl
      | true => exact quoted _ _ (two '"')
    · rfl
    · rfl
    · rfl
  · have plain := Bool.eq_false_iff.mpr safe
    have slash : c ≠ '\\' := by
      rintro rfl
      cases plain
    rw [if_neg safe, List.flatMap_singleton, block, if_neg slash, plain, Bool.or_false]
    by_cases marked : regexMeta c = true
    · have first : run lenient (.quoted '\'' read) ['\\', '\\'] = some (.quoted '\'' (read ++ ['\\']), []) := rfl
      have both := run_append lenient (.quoted '\'' read) ['\\', '\\'] [c]
      rw [first, Option.bind_some, run_plain lenient plain, List.append_assoc] at both
      rw [if_pos marked, if_pos marked]
      refine both.trans ?_
      split_ifs <;> rfl
    · rw [if_neg marked, if_neg marked]
      exact run_plain lenient plain read

end Escapes

section Patterns

/-- One character adds its literal. Where it is a backslash, another one is left, and waits for what stands behind. -/
theorem read_block {c : Char} {rest : List Char} {x : Reading} (settled : c = '\\' → ∃ d more, rest = d :: more ∧ stands d = true)
    (pending : x.escaped = true → stands c = true) :
    ∃ y : Reading, x.run (block c) = some y ∧ y.outer = x.outer ∧ y.items = literal c :: x.items ∧
      (y.escaped = true → ∃ d more, rest = d :: more ∧ stands d = true) := by
  cases escaped : x.escaped with
  | true =>
    have stand := pending escaped
    simp only [stands, Bool.and_eq_true, Bool.not_eq_true'] at stand
    obtain ⟨⟨mark, plain⟩, safe⟩ := stand
    have slash : c ≠ '\\' := by
      rintro rfl
      cases plain
    refine ⟨x.push (literal c), ?_, rfl, rfl, fun still => by cases still⟩
    rw [block, if_neg slash, if_neg (by simp [plain, safe]), Reading.run, step_escaped escaped mark]
    rfl
  | false =>
    by_cases slash : c = '\\'
    · refine ⟨{ x.push (literal '\\') with escaped := true }, ?_, rfl, by rw [slash]; rfl, fun _ => settled slash⟩
      rw [block, if_pos slash, Reading.run, step_escape escaped, Option.bind_some, Reading.run, step_escaped rfl rfl, Option.bind_some,
        Reading.run, step_escape rfl]
      rfl
    · refine ⟨x.push (literal c), ?_, rfl, rfl, fun still => by cases still⟩
      by_cases special : (regexMeta c || unsafeLabelChars c) = true
      · have mark := special_mark ((Bool.or_eq_true _ _).mp special)
        rw [block, if_neg slash, if_pos special, Reading.run, step_escape escaped, Option.bind_some, Reading.run, step_escaped rfl mark]
        rfl
      · rw [Bool.or_eq_true, not_or, Bool.not_eq_true, Bool.not_eq_true] at special
        rw [block, if_neg slash, if_neg (by simp [special]), Reading.run, step_plain escaped special.1]
        rfl

theorem run_pattern {s : List Char} {x : Reading} (settled : Settled s)
    (pending : x.escaped = true → ∃ c rest, s = c :: rest ∧ stands c = true) :
    ∃ y, x.run (pattern s) = some y ∧ y.escaped = false ∧ y.outer = x.outer ∧ y.items = (s.map literal).reverse ++ x.items := by
  induction s generalizing x with
  | nil =>
    refine ⟨x, rfl, Bool.eq_false_iff.mpr fun escaped => ?_, rfl, rfl⟩
    obtain ⟨c, rest, none, -⟩ := pending escaped
    cases none
  | cons c rest ih =>
    have later : Settled rest := fun u v split => settled (c :: u) v (by rw [split]; rfl)
    have waits : x.escaped = true → stands c = true := by
      intro escaped
      obtain ⟨d, more, listed, stand⟩ := pending escaped
      obtain ⟨rfl, -⟩ := List.cons.inj listed
      exact stand
    obtain ⟨y, ran, outer, items, behind⟩ := read_block (fun slash => settled [] rest (by rw [slash]; rfl)) waits
    obtain ⟨z, finished, ready, around, read⟩ := ih later behind
    refine ⟨z, ?_, ready, around.trans outer, ?_⟩
    · rw [pattern, List.flatMap_cons, read_append, ran, Option.bind_some]
      exact finished
    · rw [read, items, List.map_cons, List.reverse_cons, List.append_assoc]
      rfl

theorem pods_pattern {name : List Char} (settled : Settled (name ++ ['-'])) :
    Pattern (fun t => ∃ u, t = name ++ '-' :: u) (pattern name ++ "-.*".toList) := by
  obtain ⟨y, ran, ready, outer, items⟩ := run_pattern (x := ⟨[], [], false, false⟩) settled (fun escaped => by cases escaped)
  refine ⟨sequence ((name ++ ['-']).map literal ++ [.many (.one fun _ => true)]), ?_, fun t => ?_⟩
  · have written : pattern name ++ "-.*".toList = pattern (name ++ ['-']) ++ ['.', '*'] := by
      rw [pattern, pattern, List.flatMap_append, List.append_assoc]
      rfl
    obtain ⟨read, around, escaped, fresh⟩ := y
    cases ready
    cases outer
    rw [parse, written, read_append, ran]
    have listed : read = ((name ++ ['-']).map literal).reverse ++ [] := items
    simp [Reading.run, Reading.step, Reading.push, Reading.repeat_, listed]
  · rw [matches_literals]
    constructor
    · rintro ⟨u, rfl, -⟩
      exact ⟨u, by simp⟩
    · rintro ⟨u, rfl⟩
      exact ⟨u, by simp, (matches_single _ u).mpr (matches_any u)⟩

theorem node_pattern {name : List Char} (settled : Settled name) :
    Pattern (fun t => t = name ∨ ∃ port, port ≠ [] ∧ (∀ c ∈ port, c.isDigit = true) ∧ t = name ++ ':' :: port)
      (pattern name ++ "(:\\d+)?".toList) := by
  obtain ⟨y, ran, ready, outer, items⟩ := run_pattern (x := ⟨[], [], false, false⟩) settled (fun escaped => by cases escaped)
  refine ⟨sequence (name.map literal ++ [.maybe (sequence ([':'].map literal ++ [.some_ (.one Char.isDigit)]))]), ?_, fun t => ?_⟩
  · obtain ⟨read, around, escaped, fresh⟩ := y
    cases ready
    cases outer
    have ends : "(:\\d+)?".toList = ['(', ':', '\\', 'd', '+', ')', '?'] := rfl
    rw [parse, ends, read_append, ran]
    have listed : read = (name.map literal).reverse ++ [] := items
    simp [Reading.run, Reading.step, Reading.push, Reading.repeat_, listed, special]
  · rw [matches_literals]
    constructor
    · rintro ⟨u, rfl, held⟩
      rw [matches_single, Regex.Matches, matches_literals] at held
      rcases held with rfl | ⟨port, rfl, digits⟩
      · exact Or.inl (List.append_nil name)
      · rw [matches_single, matches_some] at digits
        exact Or.inr ⟨port, digits.1, digits.2, rfl⟩
    · rintro (rfl | ⟨port, some, digits, rfl⟩)
      · exact ⟨[], (List.append_nil t).symm, (matches_single _ _).mpr (Or.inl rfl)⟩
      · refine ⟨':' :: port, rfl, (matches_single _ _).mpr (Or.inr ?_)⟩
        exact (matches_literals [':'] _ _).mpr ⟨port, rfl, (matches_single _ port).mpr (matches_some.mpr ⟨some, digits⟩)⟩

end Patterns

section Reading_

def slot : Arg → Slot
  | .filter filterContainer => .part (Arg.filter filterContainer).text
  | .exact s => .value s
  | .pods workloadName => .value (pattern workloadName ++ "-.*".toList)
  | .node nodeName => .value (pattern nodeName)

variable {lenient : Bool}

theorem run_value {v : List Char} (value : slot a = .value v) (read : List Char) :
    run lenient (.quoted '\'' read) a.text =
      if a.source.all (readable lenient) then some (.quoted '\'' (read ++ v), []) else none := by
  cases a with
  | filter => cases value
  | exact s =>
    cases value
    exact run_sanitized lenient _ read
  | node nodeName =>
    cases value
    exact run_escaped lenient _ read
  | pods workloadName =>
    cases value
    rw [Arg.text, run_append, run_escaped, Arg.source]
    by_cases fine : workloadName.all (readable lenient) = true
    · have ends : run lenient (.quoted '\'' (read ++ pattern workloadName)) "-.*".toList =
          some (.quoted '\'' (read ++ pattern workloadName ++ ['-'] ++ ['.'] ++ ['*']), []) := rfl
      rw [if_pos fine, if_pos fine, Option.bind_some, ends, Option.map_some]
      have together : read ++ pattern workloadName ++ ['-'] ++ ['.'] ++ ['*'] = read ++ (pattern workloadName ++ "-.*".toList) := by
        rw [List.append_assoc, List.append_assoc, List.append_assoc]
        rfl
      rw [together]
      rfl
    · rw [if_neg fine, if_neg fine]
      rfl

theorem fills_slot (a : Arg) : Fills a (slot a) := by
  cases a with
  | filter => rfl
  | exact s => exact ⟨_, rfl⟩
  | pods workloadName => exact ⟨_, rfl⟩
  | node nodeName => exact ⟨_, rfl⟩

theorem fits_slot (fine : a.source.all (readable lenient) = true) : Fits lenient a.text (slot a) := by
  intro m x reads
  cases meant : slot a with
  | part text =>
    cases a <;> cases meant
    exact reads
  | value v =>
    rw [meant] at reads
    unfold Slot.read at reads
    split at reads
    · rename_i same
      cases same
    · rename_i w same
      cases same
      cases reads
      rw [run_value meant, if_pos fine]
    · cases reads

/-- A filled argument is a part of the query, or the value of a string it is read into. -/
theorem filled_cases {s : Slot} (fills : Fills a s) : s = .part a.text ∨ ∃ v w, s = .value w ∧ slot a = .value v := by
  cases a with
  | filter => exact Or.inl fills
  | exact s =>
    obtain ⟨w, rfl⟩ := fills
    exact Or.inr ⟨_, w, rfl, rfl⟩
  | pods workloadName =>
    obtain ⟨w, rfl⟩ := fills
    exact Or.inr ⟨_, w, rfl, rfl⟩
  | node nodeName =>
    obtain ⟨w, rfl⟩ := fills
    exact Or.inr ⟨_, w, rfl, rfl⟩

theorem value_quoted {w : List Char} {m : Mode} {x : Mode × List Token} (reads : (Slot.value w).read lenient m = some x) :
    m.place = .quoted '\'' ∧ x.1.place = .quoted '\'' := by
  unfold Slot.read at reads
  split at reads
  · rename_i same
    cases same
  · cases reads
    exact ⟨rfl, rfl⟩
  · cases reads

theorem quoted_of_place {m : Mode} (place : m.place = .quoted '\'') : ∃ read, m = .quoted '\'' read := by
  cases m <;> cases place
  exact ⟨_, rfl⟩

theorem stays_filled {s : Slot} (fills : Fills a s) : Stays lenient a.text s := by
  intro m n x y reads same ran
  rcases filled_cases fills with rfl | ⟨v, w, rfl, value⟩
  · exact run_place same reads ran
  · obtain ⟨before, after⟩ := value_quoted reads
    obtain ⟨read, rfl⟩ := quoted_of_place (same.symm.trans before)
    rw [run_value value] at ran
    split_ifs at ran
    cases ran
    exact after

theorem readable_of_reads {s : Slot} (fills : Fills a s) (reads : Reads lenient a.text s) :
    a.source.all (readable lenient) = true := by
  obtain ⟨m, n, x, y, meant, same, ran⟩ := reads
  rcases filled_cases fills with rfl | ⟨v, w, rfl, value⟩
  · cases a with
    | filter => rfl
    | exact s => obtain ⟨v, none⟩ := fills; cases none
    | pods workloadName => obtain ⟨v, none⟩ := fills; cases none
    | node nodeName => obtain ⟨v, none⟩ := fills; cases none
  · obtain ⟨before, -⟩ := value_quoted meant
    obtain ⟨read, rfl⟩ := quoted_of_place (same.symm.trans before)
    rw [run_value value] at ran
    by_contra unreadable
    rw [if_neg unreadable] at ran
    cases ran

end Reading_

section Shapes

variable (lenient : Bool)

def equalTo (label : String) (v : List Char) : Matcher := ⟨label.toList, .equal, v⟩

def container : Matcher := ⟨"container".toList, .notEqual, []⟩

set_option maxRecDepth 8000 in
theorem pods_shape (regex : Bool) {pod : Arg} {v : List Char} (value : slot pod = .value v) (namespace_ : List Char)
    (category : MetricCategory) (filterContainer : Bool) :
    ∀ q ∈ buildPodsQuery (if regex then "=~" else "=") pod namespace_ category filterContainer,
      (intended lenient q.format.toList (q.args.map slot)).map (matchers []) =
        some (overPods container (equalTo "namespace" namespace_) ⟨"pod".toList, if regex then .regex else .equal, v⟩ category
          filterContainer) := by
  intro q built
  cases category <;> cases built <;> simp only [List.map_cons, List.map_nil, value, String.toList_append] <;>
    repeat rw [String.toList_ofList]
  all_goals first
    | cases regex <;> rfl
    | cases regex <;> cases filterContainer <;> rfl

set_option maxRecDepth 8000 in
theorem node_shape (nodeName : List Char) (category : MetricCategory) :
    ∀ q ∈ buildNodeQuery nodeName category,
      (intended lenient q.format.toList (q.args.map slot)).map (matchers []) =
        some (overNode ⟨"mode".toList, .notEqual, "idle".toList⟩ ⟨"fstype".toList, .regex, "ext4|xfs|btrfs".toList⟩
          ⟨"instance".toList, .regex, pattern nodeName ++ "(:\\d+)?".toList⟩ category) := by
  intro q built
  have ends : pattern nodeName ++ "(:\\d+)?".toList =
      pattern nodeName ++ ['('] ++ [':'] ++ ['\\'] ++ ['d'] ++ ['+'] ++ [')'] ++ ['?'] := by
    simp only [List.append_assoc]
    rfl
  rw [ends]
  cases category <;> cases built <;>
    simp only [nodeFilter, List.map_cons, List.map_nil, slot, String.toList_append] <;>
    repeat rw [String.toList_ofList]
  all_goals rfl

set_option maxRecDepth 8000 in
theorem namespace_shape (namespace_ : List Char) (category : MetricCategory) (filterContainer : Bool) :
    ∀ q ∈ buildNamespaceQueryInner namespace_ category filterContainer,
      (intended lenient q.format.toList (q.args.map slot)).map (matchers []) =
        some (overNamespace container (equalTo "namespace" namespace_) category filterContainer) := by
  intro q built
  cases category <;> cases built <;> simp only [List.map_cons, List.map_nil, slot] <;> repeat rw [String.toList_ofList]
  all_goals cases filterContainer <;> rfl

end Shapes

section Conclusion

variable {lenient : Bool} {lowering : Lowering} {tokens : List Token}

theorem overPods_met {w x y : Wanted} {a b c : Matcher} (first : Meets w a) (second : Meets x b) (third : Meets y c)
    (category : MetricCategory) (filterContainer : Bool) :
    List.Forall₂ Meets (overPods w x y category filterContainer) (overPods a b c category filterContainer) := by
  cases category <;> cases filterContainer <;> simp [overPods, first, second, third]

theorem overNode_met {w x y : Wanted} {a b c : Matcher} (first : Meets w a) (second : Meets x b) (third : Meets y c)
    (category : MetricCategory) : List.Forall₂ Meets (overNode w x y category) (overNode a b c category) := by
  cases category <;> simp [overNode, first, second, third]

theorem overNamespace_met {w x : Wanted} {a b : Matcher} (first : Meets w a) (second : Meets x b) (category : MetricCategory)
    (filterContainer : Bool) :
    List.Forall₂ Meets (overNamespace w x category filterContainer) (overNamespace a b category filterContainer) := by
  cases category <;> cases filterContainer <;> simp [overNamespace, first, second]

theorem pods_arg {op : String} {pod : Arg} {namespace_ : List Char} {category : MetricCategory} {filterContainer : Bool} {q : Query}
    (built : q ∈ buildPodsQuery op pod namespace_ category filterContainer) : pod ∈ q.args := by
  cases category <;> cases built <;> simp

theorem node_arg {nodeName : List Char} {category : MetricCategory} {q : Query} (built : q ∈ buildNodeQuery nodeName category) :
    .node nodeName ∈ q.args := by
  cases category <;> cases built <;> simp

theorem met_of_shape {meant : Option (List Token)} {ms : List Matcher} {ws : List Wanted} (shape : meant.map (matchers []) = some ms)
    (met : List.Forall₂ Meets ws ms) : ∃ tokens, meant = some tokens ∧ List.Forall₂ Meets ws (matchers [] tokens) := by
  obtain ⟨tokens, read, rfl⟩ := Option.map_eq_some_iff.mp shape
  exact ⟨tokens, read, met⟩

/-- The matchers of a query whose names are settled. -/
theorem matchers_met (lenient : Bool) {call : Call} {q : Query} (built : build lowering call = some q) (settled : ∀ a ∈ q.args, a.Settled) :
    ∃ tokens, intended lenient q.format.toList (q.args.map slot) = some tokens ∧
      List.Forall₂ Meets (wanted lowering call) (matchers [] tokens) := by
  have same : ∀ s v, Meets (exactly s v) (equalTo s v) := fun s v => ⟨rfl, rfl, rfl⟩
  have none_ : Meets noContainer container := ⟨rfl, rfl, rfl⟩
  cases call with
  | ofNamespace namespace_ category filterContainer =>
    exact met_of_shape (namespace_shape lenient namespace_ category filterContainer q built)
      (overNamespace_met none_ (same _ _) category filterContainer)
  | resource kind namespace_ name category filterContainer =>
    rw [build, buildQueryInner] at built
    rw [wanted]
    cases aimed : target (lowering.toLower kind) with
    | none =>
      rw [aimed] at built
      cases built
    | some t =>
      rw [aimed] at built
      cases t with
      | pod =>
        exact met_of_shape (pods_shape lenient false rfl namespace_ category filterContainer q built)
          (overPods_met none_ (same _ _) ⟨rfl, rfl, rfl⟩ category filterContainer)
      | workload =>
        have reads := pods_pattern (settled _ (pods_arg built))
        exact met_of_shape (pods_shape lenient true rfl namespace_ category filterContainer q built)
          (overPods_met none_ (same _ _) ⟨rfl, rfl, reads⟩ category filterContainer)
      | node =>
        have reads := node_pattern (settled _ (node_arg built))
        exact met_of_shape (node_shape lenient name category q built)
          (overNode_met ⟨rfl, rfl, rfl⟩ ⟨rfl, rfl, rfl⟩ ⟨rfl, rfl, reads⟩ category)

theorem run_of_intended {format : List Char} {slots : List Slot}
    (meant : intended lenient format slots = some tokens) : expect lenient .code format slots = some (.code, tokens) := by
  unfold intended at meant
  split at meant
  · rename_i found
    rw [found, Option.some.inj meant]
  · cases meant

theorem run_of_lex {text : List Char} (read : lex lenient text = some tokens) :
    run lenient .code text = some (.code, tokens) := by
  unfold lex at read
  split at read
  · rename_i found
    rw [found, Option.some.inj read]
  · cases read

theorem filled_reads {args : List Arg} {slots : List Slot} (filled : List.Forall₂ Fills args slots)
    (reads : List.Forall₂ (fun a s => Reads lenient a.text s) args slots) (member : a ∈ args) :
    ∃ s, Fills a s ∧ Reads lenient a.text s := by
  induction filled with
  | nil => cases member
  | cons fills rest ih =>
    cases reads with
    | cons found later =>
      rcases List.mem_cons.mp member with rfl | behind
      · exact ⟨_, fills, found⟩
      · exact ih later behind

theorem lex_intended {q : Query} (fine : ∀ a ∈ q.args, a.source.all (readable lenient) = true)
    (meant : intended lenient q.format.toList (q.args.map slot) = some tokens) : lex lenient q.text = some tokens := by
  have fits : List.Forall₂ (Fits lenient) (q.args.map Arg.text) (q.args.map slot) := by
    rw [List.forall₂_map_left_iff, List.forall₂_map_right_iff, List.forall₂_same]
    exact fun a member => fits_slot (fine a member)
  rw [lex, Query.text, run_sprintf fits (run_of_intended meant)]

/-- A query whose arguments are readable, with settled names, reads as it is meant; and one that reads as it is meant has readable
    arguments. -/
theorem queries_sound (lenient : Bool) (lowering : Lowering) (call : Call) :
    (Clean lenient lowering call → Sound lenient lowering call) ∧
      (Sound lenient lowering call → Readable lenient lowering call) := by
  unfold Clean Readable Sound args
  cases built : build lowering call with
  | none => exact ⟨fun _ => trivial, fun _ a member => by cases member⟩
  | some q =>
    constructor
    · rintro ⟨fine, settled⟩
      obtain ⟨tokens, meant, met⟩ := matchers_met lenient built settled
      have filled : List.Forall₂ Fills q.args (q.args.map slot) := by
        rw [List.forall₂_map_right_iff, List.forall₂_same]
        exact fun a _ => fills_slot a
      exact ⟨q.args.map slot, tokens, filled, lex_intended fine meant, meant, met⟩
    · rintro ⟨slots, tokens, filled, read, meant, -⟩ a member
      have stays : List.Forall₂ (Stays lenient) (q.args.map Arg.text) slots := by
        rw [List.forall₂_map_left_iff]
        exact filled.imp fun a s fills => stays_filled fills
      have reads := sprintf_reads stays rfl (run_of_intended meant) (run_of_lex read)
      rw [List.forall₂_map_left_iff] at reads
      obtain ⟨s, fills, found⟩ := filled_reads filled reads member
      exact readable_of_reads fills found

-- A brace behind a backslash, which no string may hold: the query is not read at all.
theorem brace_unsound : ¬ Sound true asciiLowering (.ofNamespace ['a', '{'] .networkRX true) := by
  rintro ⟨slots, tokens, -, read, -⟩
  revert read
  rw [Query.text, String.toList_ofList]
  intro read
  cases read

end Conclusion

end Queries
