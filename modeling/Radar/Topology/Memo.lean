import Mathlib
import Radar.Base.GoText
import Radar.Base.Runs
import Radar.Topology.Types

/- pkg/topology/memo.go: the key of a build and the short-lived cache behind it. The graphs are
   of any type: the cache only hands them on. -/
namespace TopologyMemo
open Topology GoText List
variable {a b : BuildOptions} {opts : BuildOptions} {now : Int}

/-- sort.Strings on a copy of the list; a nil slice sorts to an empty one. -/
def sortedNames (opts : BuildOptions) : List String :=
  (opts.namespaces.getD []).mergeSort fun a b => decide (a ≤ b)

def namesText (opts : BuildOptions) : List Char := join ',' ((sortedNames opts).map String.toList)

def formatBool (b : Bool) : String := if b then "true" else "false"

def itoa (n : Int) : String := toString n

/-- The key's fields after the view mode and the names. -/
def keyedFlags (opts : BuildOptions) : List String :=
  [itoa opts.maxIndividualPods, formatBool opts.includeSecrets,
    formatBool opts.includeConfigMaps, formatBool opts.includePVCs,
    formatBool opts.includeReplicaSets, formatBool opts.includeGenericCRDs,
    formatBool opts.forRelationshipCache, formatBool opts.showPolicyEffect]

def memoKey (opts : BuildOptions) : String :=
  String.ofList (join '|' (opts.viewMode.text.toList :: namesText opts ::
    (keyedFlags opts).map String.toList))

structure Entry (τ : Type) where
  topo : τ
  builtAt : Int

structure Memoizer (τ : Type) where
  ttl : Int
  entries : String → Option (Entry τ)

section Memoizer
variable {τ : Type}

def newMemoizer (ttl : Int) : Memoizer τ := ⟨ttl, fun _ => none⟩

def Memoizer.lookup (m : Memoizer τ) (now : Int) (key : String) : Option τ := match m.entries key with
  | none => none
  | some e => if now - e.builtAt < m.ttl then some e.topo else none

def Memoizer.store (m : Memoizer τ) (now : Int) (key : String) (topo : τ) : Memoizer τ :=
  { m with entries := fun k => match if k = key then some ⟨topo, now⟩ else m.entries k with
      | none => none
      | some e => if 2 * m.ttl < now - e.builtAt then none else some e }

/-- A nil memoizer, and one with no TTL, always builds. -/
def get (m : Option (Memoizer τ)) (now : Int) (opts : BuildOptions)
    (build : Except String τ) : Except String τ × Option (Memoizer τ) :=
  match m with
  | none => (build, none)
  | some m =>
    if m.ttl ≤ 0 then (build, some m)
    else match m.lookup now (memoKey opts) with
    | some topo => (.ok topo, some m)
    | none => match build with
      | .error err => (.error err, some m)
      | .ok topo => (.ok topo, some (m.store now (memoKey opts) topo))

end Memoizer

section Key

theorem format_bool_inj {a b : Bool} (same : formatBool a = formatBool b) : a = b := by
  cases a <;> cases b <;> simp_all [formatBool]

theorem format_bool_barless (b : Bool) : '|' ∉ (formatBool b).toList := by
  cases b <;> decide

theorem itoa_inj {a b : Int} (same : itoa a = itoa b) : a = b := Int.repr_inj.mp same

theorem repr_barless (n : Nat) : '|' ∉ n.repr.toList := by
  rw [Nat.toList_repr]
  intro bar
  have digit := Nat.isDigit_of_mem_toDigits (by decide) (by decide) bar
  exact absurd digit (by decide)

theorem itoa_barless (n : Int) : '|' ∉ (itoa n).toList := by
  cases n with
  | ofNat n => exact repr_barless n
  | negSucc n =>
    have split : itoa (.negSucc n) = "-" ++ (n + 1).repr := rfl
    rw [split, String.toList_append]
    intro bar
    rcases mem_append.mp bar with sign | digits
    · exact absurd sign (by decide)
    · exact repr_barless (n + 1) digits

/-- Two options agree on every field that follows the names in the key. -/
structure KeyedAlike (a b : BuildOptions) : Prop where
  maxIndividualPods : a.maxIndividualPods = b.maxIndividualPods
  includeSecrets : a.includeSecrets = b.includeSecrets
  includeConfigMaps : a.includeConfigMaps = b.includeConfigMaps
  includePVCs : a.includePVCs = b.includePVCs
  includeReplicaSets : a.includeReplicaSets = b.includeReplicaSets
  includeGenericCRDs : a.includeGenericCRDs = b.includeGenericCRDs
  forRelationshipCache : a.forRelationshipCache = b.forRelationshipCache
  showPolicyEffect : a.showPolicyEffect = b.showPolicyEffect

theorem keyed_flags_iff : keyedFlags a = keyedFlags b ↔ KeyedAlike a b := by
  constructor
  · intro same
    simp only [keyedFlags, cons.injEq, and_true] at same
    obtain ⟨pods, secrets, maps, pvcs, sets, crds, cache, effect⟩ := same
    exact ⟨itoa_inj pods, format_bool_inj secrets, format_bool_inj maps, format_bool_inj pvcs,
      format_bool_inj sets, format_bool_inj crds, format_bool_inj cache, format_bool_inj effect⟩
  · intro alike
    simp only [keyedFlags, alike.maxIndividualPods, alike.includeSecrets, alike.includeConfigMaps,
      alike.includePVCs, alike.includeReplicaSets, alike.includeGenericCRDs,
      alike.forRelationshipCache, alike.showPolicyEffect]

/-- What the key keeps of the view mode and the names: the parts their texts break into at bars. -/
def reading (opts : BuildOptions) : List (List Char) :=
  opts.viewMode.text.toList.splitOn '|' ++ (namesText opts).splitOn '|'

theorem split_flags (opts : BuildOptions) :
    ((keyedFlags opts).map String.toList).flatMap (splitOn '|') =
      (keyedFlags opts).map String.toList := by
  simp [keyedFlags, splitOn_eq_singleton (itoa_barless _),
    splitOn_eq_singleton (format_bool_barless _)]

theorem memo_key_eq_iff : memoKey a = memoKey b ↔ KeyedAlike a b ∧ reading a = reading b := by
  have chars : memoKey a = memoKey b ↔ reading a ++ (keyedFlags a).map String.toList =
        reading b ++ (keyedFlags b).map String.toList := by
    unfold memoKey
    rw [String.ofList_inj, join_eq_iff (cons_ne_nil _ _) (cons_ne_nil _ _)]
    simp only [flatMap_cons, split_flags, reading, append_assoc]
  rw [chars]
  constructor
  · intro same
    obtain ⟨read, flags⟩ := append_inj' same (by simp [keyedFlags])
    have flags : keyedFlags a = keyedFlags b :=
      (map_injective_iff.mpr fun s t => String.toList_inj.mp) flags
    exact ⟨keyed_flags_iff.mp flags, read⟩
  · rintro ⟨alike, read⟩
    rw [read, keyed_flags_iff.mpr alike]

/-- Options that build the same graph: every field the builder reads agrees, the namespace list
   up to the namespaces it admits. -/
structure SameBuild (a b : BuildOptions) : Prop where
  scope : SameScope a.namespaces b.namespaces
  viewMode : a.viewMode = b.viewMode
  keyed : KeyedAlike a b
  summaryMode : a.summaryMode = b.summaryMode

/-- The options' keys keep them apart unless they build the same graph. -/
def Separated (a b : BuildOptions) : Prop := memoKey a = memoKey b → SameBuild a b

/-- Where the keyed fields agree and the view mode and the sorted, comma-separated names read
    alike, the view modes are the same, both lists are nil or both hold the same names, and the
    summary modes, which the key leaves out, are the same. -/
def Distinguished (a b : BuildOptions) : Prop :=
  KeyedAlike a b → reading a = reading b → a.viewMode = b.viewMode ∧ (match a.namespaces, b.namespaces with
      | none, none => True
      | some listed, some other => ∀ ns, ns ∈ listed ↔ ns ∈ other
      | _, _ => False) ∧ a.summaryMode = b.summaryMode

theorem same_scope_iff (a b : Option (List String)) : SameScope a b ↔ match a, b with
      | none, none => True
      | some listed, some other => ∀ ns, ns ∈ listed ↔ ns ∈ other
      | _, _ => False := by
  cases a with
  | none => cases b with
    | none => exact ⟨fun _ => trivial, fun _ _ => rfl⟩
    | some other => exact ⟨fun same => all_is_no_list other same, fun absurd => absurd.elim⟩
  | some listed => cases b with
    | none =>
      exact ⟨fun same => all_is_no_list listed (same_scope_symm same), fun absurd => absurd.elim⟩
    | some other => exact same_scope_members

theorem separated_iff (a b : BuildOptions) : Separated a b ↔ Distinguished a b := by
  constructor
  · intro separated alike read
    have same := separated (memo_key_eq_iff.mpr ⟨alike, read⟩)
    exact ⟨same.viewMode, (same_scope_iff _ _).mp same.scope, same.summaryMode⟩
  · intro distinguished same
    obtain ⟨alike, read⟩ := memo_key_eq_iff.mp same
    obtain ⟨view, scope, summary⟩ := distinguished alike read
    exact ⟨(same_scope_iff _ _).mpr scope, view, alike, summary⟩

end Key

section PlainNames

/-- Names as Kubernetes allows them, and a declared view mode. -/
structure PlainNames (opts : BuildOptions) : Prop where
  view : '|' ∉ opts.viewMode.text.toList
  names : ∀ name ∈ opts.namespaces.getD [], name ≠ "" ∧ '|' ∉ name.toList ∧ ',' ∉ name.toList

theorem sorted_names_mem {name : String} : name ∈ sortedNames opts ↔ name ∈ opts.namespaces.getD [] := by
  simp [sortedNames]

theorem names_text_barless (plain : PlainNames opts) : '|' ∉ namesText opts := by
  apply join_lacks (by decide)
  intro piece member
  obtain ⟨name, listed, same⟩ := mem_map.mp member
  rw [← same]
  exact (plain.names name (sorted_names_mem.mp listed)).2.1

theorem reading_plain (plain : PlainNames a) (plain' : PlainNames b) :
    reading a = reading b ↔ a.viewMode = b.viewMode ∧ sortedNames a = sortedNames b := by
  have pieces : ∀ {opts}, PlainNames opts →
      ∀ piece ∈ (sortedNames opts).map String.toList, piece ≠ [] ∧ ',' ∉ piece := by
    intro opts plain piece member
    obtain ⟨name, listed, same⟩ := mem_map.mp member
    obtain ⟨some, _, commaless⟩ := plain.names name (sorted_names_mem.mp listed)
    rw [← same]
    exact ⟨by simpa using some, commaless⟩
  simp only [reading, splitOn_eq_singleton plain.view,
    splitOn_eq_singleton plain'.view, splitOn_eq_singleton (names_text_barless plain),
    splitOn_eq_singleton (names_text_barless plain'), cons_append, nil_append,
    cons.injEq, and_true]
  constructor
  · rintro ⟨view, names⟩
    have joined := join_pieces_inj (pieces plain) (pieces plain') names
    exact ⟨view_text_inj (String.toList_inj.mp view),
      (map_injective_iff.mpr fun s t => String.toList_inj.mp) joined⟩
  · rintro ⟨view, names⟩
    exact ⟨by rw [view], by rw [namesText, namesText, names]⟩

/-- For plain names only two things collide: the nil list with the empty one, and options that
   differ in their summary mode alone. -/
theorem plain_separated_iff (plain : PlainNames a) (plain' : PlainNames b) :
    Separated a b ↔ (KeyedAlike a b → a.viewMode = b.viewMode → sortedNames a = sortedNames b →
      (a.namespaces = none ↔ b.namespaces = none) ∧ a.summaryMode = b.summaryMode) := by
  rw [separated_iff]
  constructor
  · intro distinguished alike view names
    obtain ⟨_, scope, summary⟩ := distinguished alike ((reading_plain plain plain').mpr ⟨view, names⟩)
    refine ⟨?_, summary⟩
    cases first : a.namespaces <;> cases second : b.namespaces <;> simp_all
  · intro kept alike read
    obtain ⟨view, names⟩ := (reading_plain plain plain').mp read
    obtain ⟨nils, summary⟩ := kept alike view names
    refine ⟨view, ?_, summary⟩
    have members : ∀ name, name ∈ a.namespaces.getD [] ↔ name ∈ b.namespaces.getD [] := by
      intro name
      rw [← sorted_names_mem, names, sorted_names_mem]
    cases first : a.namespaces <;> cases second : b.namespaces <;> simp_all

theorem summaries_collide : ¬ Separated { defaultBuildOptions with summaryMode := true } defaultBuildOptions := by
  have plain : ∀ summary, PlainNames { defaultBuildOptions with summaryMode := summary } := fun _ =>
    ⟨show '|' ∉ "resources".toList by decide, fun _ member => absurd member not_mem_nil⟩
  intro separated
  have kept := (plain_separated_iff (plain true) (plain false)).mp separated (by constructor <;> rfl) rfl rfl
  exact absurd kept.2 (by decide)

end PlainNames

/- Sequences of `Get` calls. A caller's closure builds a graph for the caller's own options, which
   stay with the graph here so that a served graph can be traced to them. -/
section Runs
variable {known : BuildOptions → Prop}

structure Call where
  elapsed : Nat
  opts : BuildOptions
  built : Except String Graph

structure Served where
  caller : BuildOptions
  builtFor : BuildOptions
  graph : Graph

structure State where
  now : Int
  memo : Option (Memoizer (BuildOptions × Graph))
  log : List Served

def Call.build (c : Call) : Except String (BuildOptions × Graph) := c.built.map fun graph => (c.opts, graph)

def initial (now ttl : Int) : State := ⟨now, some (newMemoizer ttl), []⟩

def callStep (s : State) (c : Call) : State := let now := s.now + c.elapsed
  let answer := get s.memo now c.opts c.build
  ⟨now, answer.2, match answer.1 with
    | .ok (builtFor, graph) => ⟨c.opts, builtFor, graph⟩ :: s.log
    | .error _ => s.log⟩

def step (s : State) (c : Call) : Option State := some (callStep s c)

/-- Entries lie under the key of the options they were built for, one of those called with, and
   what was served was built alike. -/
structure Kept (known : BuildOptions → Prop) (s : State) : Prop where
  entries : ∀ m, s.memo = some m → ∀ k e, m.entries k = some e → known e.topo.1 ∧ k = memoKey e.topo.1
  served : ∀ served ∈ s.log, SameBuild served.builtFor served.caller

end Runs

end TopologyMemo
