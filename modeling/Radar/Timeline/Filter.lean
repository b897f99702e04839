import Radar.Timeline.Types

/- Filter presets: pkg/timeline/types.go and CompileFilter of pkg/timeline/store.go. -/
namespace TimelineFilter
open Timeline

structure FilterPreset where
  name : String
  excludeKinds : List String
  includeKinds : List String
  excludeNamePatterns : List String
  excludeOperations : List EventType
  includeEventTypes : List EventType
  includeManaged : Bool
  deriving DecidableEq, Repr

def defaultFilterPresets (name : String) : Option FilterPreset := match name with
  | "default" => some
      { name := "default"
        excludeKinds := ["Lease", "Endpoints", "EndpointSlice"]
        includeKinds := []
        excludeNamePatterns :=
          ["-lock$", "-lease$", "-leader-election$", "-heartbeat$", "cluster-kubestore",
            "cluster-autoscaler-status", "datadog-token", "datadog-operator-lock",
            "datadog-leader-election", "kube-root-ca.certs"]
        excludeOperations := []
        includeEventTypes := []
        includeManaged := false }
  | "all" => some ⟨"all", [], [], [], [], [], true⟩
  | "warnings-only" => some ⟨"warnings-only", [], [], [], [], [.warning], true⟩
  | "workloads" => some
      ⟨"workloads", [], ["Deployment", "DaemonSet", "StatefulSet", "ReplicaSet", "Job", "CronJob",
        "Pod"], [], [], [], true⟩
  | _ => none

/-- The regular expressions the presets use: literal characters, a dot for any character but a
   newline, and a final dollar for the end of the text. -/
inductive PatternChar where
  | literal (c : Char)
  | any
  deriving DecidableEq, Repr

structure Regexp where
  chars : List PatternChar
  atEnd : Bool
  deriving DecidableEq, Repr

def compilePattern (pattern : String) : Regexp := let text := pattern.toList
  let atEnd := text.getLast? == some '$'
  ⟨(if atEnd then text.dropLast else text).map fun c => if c = '.' then .any else .literal c, atEnd⟩

def PatternChar.accepts : PatternChar → Char → Bool
  | .literal l, c => l == c
  | .any, c => c != '\n'

def matchHere (atEnd : Bool) : List PatternChar → List Char → Bool
  | [], text => !atEnd || text.isEmpty
  | _ :: _, [] => false
  | p :: rest, c :: text => p.accepts c && matchHere atEnd rest text

def Regexp.matchString (re : Regexp) (s : String) : Bool := s.toList.tails.any (matchHere re.atEnd re.chars)

structure CompiledFilter where
  preset : FilterPreset
  excludePatterns : List Regexp
  deriving DecidableEq, Repr

/-- The maps of a compiled filter are the preset's lists, asked for membership. -/
def compileFilter (preset : FilterPreset) : CompiledFilter :=
  ⟨preset, preset.excludeNamePatterns.map compilePattern⟩

def CompiledFilter.matches (cf : CompiledFilter) (e : TimelineEvent) : Bool :=
  (cf.preset.includeKinds.isEmpty || cf.preset.includeKinds.contains e.kind) &&
  !cf.preset.excludeKinds.contains e.kind &&
  !cf.excludePatterns.any (fun re => re.matchString e.name) &&
  (cf.preset.includeEventTypes.isEmpty || cf.preset.includeEventTypes.contains e.eventType) &&
  !cf.preset.excludeOperations.contains e.eventType

def includesManaged (cf : Option CompiledFilter) : Bool := match cf with
  | none => false
  | some cf => cf.preset.includeManaged

/-- The filter a preset name stands for: none when it is empty or unknown. -/
def presetFilter (name : String) : Option CompiledFilter :=
  if name = "" then none else (defaultFilterPresets name).map compileFilter

example : (compilePattern "-lock$").matchString "web-lock" = true := by decide

example : (compilePattern "-lock$").matchString "web-lock-2" = false := by decide

/-- A filter cache, as both stores keep one beside their events. -/
abbrev FilterCache := String → Option CompiledFilter

def getOrCompileFilter (cache : FilterCache) (name : String) : Option CompiledFilter × FilterCache :=
  match cache name with
  | some cf => (some cf, cache)
  | none => match defaultFilterPresets name with
    | none => (none, cache)
    | some preset =>
      (some (compileFilter preset), fun n => if n = name then some (compileFilter preset) else cache n)

/-- The filter of a query, and the cache it leaves behind. -/
def queryFilter (cache : FilterCache) (opts : QueryOptions) : Option CompiledFilter × FilterCache :=
  if opts.filterPreset ≠ "" then getOrCompileFilter cache opts.filterPreset else (none, cache)

/-- A cache holds what compiling its names gives. -/
def CacheCompiled (cache : FilterCache) : Prop :=
  ∀ name cf, cache name = some cf → (defaultFilterPresets name).map compileFilter = some cf

theorem get_or_compile {cache : FilterCache} (compiled : CacheCompiled cache) (name : String) :
    (getOrCompileFilter cache name).1 = (defaultFilterPresets name).map compileFilter ∧
      CacheCompiled (getOrCompileFilter cache name).2 := by
  unfold getOrCompileFilter
  cases cached : cache name with
  | some cf => exact ⟨(compiled name cf cached).symm, compiled⟩
  | none =>
    cases known : defaultFilterPresets name with
    | none => exact ⟨rfl, compiled⟩
    | some preset =>
      refine ⟨rfl, ?_⟩
      intro n cf stored
      dsimp only at stored
      by_cases same : n = name
      · rw [if_pos same, Option.some.injEq] at stored
        rw [same, known, Option.map_some, stored]
      · rw [if_neg same] at stored
        exact compiled n cf stored

/-- The cache never changes a query's filter. -/
theorem query_filter {cache : FilterCache} (compiled : CacheCompiled cache)
    (opts : QueryOptions) : (queryFilter cache opts).1 = presetFilter opts.filterPreset ∧
      CacheCompiled (queryFilter cache opts).2 := by
  unfold queryFilter presetFilter
  by_cases named : opts.filterPreset = ""
  · simpa [named] using compiled
  · simpa [named] using get_or_compile compiled opts.filterPreset

end TimelineFilter
