import Mathlib.Data.List.Dedup
import Mathlib.Data.Rat.Defs
import Mathlib.Data.String.Basic
import Radar.Base.SortedEntries

/- internal/k8s/cache.go and history.go: which updates of an object the timeline drops as noise. A change is given
   by its path, and the rest of a record is what no differ reads of it. -/
namespace NoiseGate
open SortedEntries List

section Model

/-- A map of Go, of quantities as they are printed where it holds such. -/
structure StringMap (α : Type) where
  entries : List (String × α)
  sorted : Sorted entries

structure ConfigMap where
  data : StringMap String
  binaryData : StringMap (List UInt8)
  immutable : Option Bool

structure ServicePort (ρ : Type) where
  protocol : String
  port : Int
  targetPort : Int
  rest : ρ

structure ServiceSpec (ρ : Type) where
  type_ : String
  ports : List (ServicePort ρ)
  selector : StringMap String
  externalIPs : List String
  rest : ρ

/-- The status is what the differ reads of it, here and below. -/
structure Service (ρ : Type) where
  spec : ServiceSpec ρ
  ingress : List (String × String)

structure ClaimSpec (ρ : Type) where
  volumeName : String
  rest : ρ

structure PersistentVolumeClaim (ρ : Type) where
  spec : ClaimSpec ρ
  phase : String
  capacity : ℚ
  conditions : List (String × String)

structure Taint (ρ : Type) where
  key : String
  rest : ρ

structure NodeSpec (ρ : Type) where
  unschedulable : Bool
  taints : List (Taint ρ)
  rest : ρ

structure Node (ρ : Type) where
  spec : NodeSpec ρ
  conditions : List (String × String)
  kubeletVersion : String
  kernelVersion : String
  allocatable : String → ℚ

structure QuotaSpec (ρ : Type) where
  hard : StringMap String
  rest : ρ

structure LimitRangeItem (ρ : Type) where
  type_ : String
  max : StringMap String
  min : StringMap String
  default_ : StringMap String
  defaultRequest : StringMap String
  rest : ρ

/-- The old and the new object of an update. Of a kind with a generation, which a change of the spec raises, what
its differ finds is left open. -/
inductive Update (ρ : Type) where
  | configMap (old new : ConfigMap)
  | service (old new : Service ρ)
  | persistentVolumeClaim (old new : PersistentVolumeClaim ρ)
  | node (old new : Node ρ)
  | resourceQuota (old new : QuotaSpec ρ)
  | limitRange (old new : List (LimitRangeItem ρ))
  | generational (old new : ρ) (oldGen newGen : Nat) (found : List String)
      (raised : old ≠ new → 0 < oldGen ∧ oldGen < newGen)

variable {ρ : Type}

def fieldChange {α : Type} [DecidableEq α] (path : String) (old new : α) : List String :=
  if old = new then [] else [path]

def getMapKeys {α : Type} (m : StringMap α) : List String := m.entries.map Prod.fst

def diffStringSlices (a b : List String) : List String := a.filter fun k => k ∉ b

def addedRemoved (field : String) (oldKeys newKeys : List String) : List String :=
  fieldChange (field ++ " (added keys)") (diffStringSlices newKeys oldKeys) [] ++
  fieldChange (field ++ " (removed keys)") (diffStringSlices oldKeys newKeys) []

def getModifiedKeys (old new : StringMap String) : List String :=
  (old.entries.filter fun e => (find e.1 new.entries).any fun v => e.2 ≠ v).map Prod.fst

/-- What structuredConfigValueDiff finds under a key in the two values, none where it gives up. -/
abbrev Structured := String → String → String → List String

def diffConfigMap (structured : Structured) (old new : ConfigMap) : List String :=
  let modified := getModifiedKeys old.data new.data
  let inside (key : String) :=
    structured key ((find key old.data.entries).getD "") ((find key new.data.entries).getD "")
  addedRemoved "data" (getMapKeys old.data) (getMapKeys new.data) ++ modified.flatMap inside ++
  fieldChange "data (modified keys)" (modified.filter fun key => inside key = []) [] ++
  addedRemoved "binaryData" (getMapKeys old.binaryData) (getMapKeys new.binaryData) ++
  fieldChange "immutable" (old.immutable.getD false) (new.immutable.getD false)

def getServicePorts (ports : List (ServicePort ρ)) : List String :=
  ports.map fun p => p.protocol ++ "/" ++ toString p.port ++ "→" ++ toString p.targetPort

/-- A label that is absent is read as empty. -/
def equalStringMaps (a b : StringMap String) : Bool :=
  a.entries.length = b.entries.length ∧ ∀ e ∈ a.entries, (find e.1 b.entries).getD "" = e.2

def getLBAddresses (ingress : List (String × String)) : List String :=
  (ingress.map fun ing => if ing.1 ≠ "" then ing.1 else ing.2).filter fun addr => addr ≠ ""

def diffService (old new : Service ρ) : List String :=
  fieldChange "spec.type" old.spec.type_ new.spec.type_ ++
  fieldChange "spec.ports" (getServicePorts old.spec.ports) (getServicePorts new.spec.ports) ++
  fieldChange "spec.selector" (equalStringMaps old.spec.selector new.spec.selector) true ++
  fieldChange "status.loadBalancer.ingress" (getLBAddresses old.ingress) (getLBAddresses new.ingress) ++
  fieldChange "spec.externalIPs" old.spec.externalIPs new.spec.externalIPs

def conditionStatus (unset : String) (conditions : List (String × String)) (type_ : String) : String :=
  (conditions.lookup type_).getD unset

def conditionChanges (unset : String) (types : List String) (old new : List (String × String)) : List String :=
  types.flatMap fun type_ => fieldChange ("status.conditions[" ++ type_ ++ "]")
    (conditionStatus unset old type_) (conditionStatus unset new type_)

def resizeConditions : List String := ["Resizing", "FileSystemResizePending"]

def diffPVC (old new : PersistentVolumeClaim ρ) : List String :=
  fieldChange "status.phase" old.phase new.phase ++
  (if old.spec.volumeName = "" ∧ new.spec.volumeName ≠ "" then ["spec.volumeName"] else []) ++
  (if old.capacity ≠ 0 ∧ new.capacity ≠ 0 then
    fieldChange "status.capacity.storage" old.capacity new.capacity
  else []) ++
  conditionChanges "" resizeConditions old.conditions new.conditions

def nodeConditions : List String :=
  ["Ready", "MemoryPressure", "DiskPressure", "PIDPressure", "NetworkUnavailable"]

def allocatables : List String := ["cpu", "memory", "pods"]

def getTaintKeys (taints : List (Taint ρ)) : List String := taints.map Taint.key

def diffNode (old new : Node ρ) : List String :=
  fieldChange "spec.unschedulable" old.spec.unschedulable new.spec.unschedulable ++
  fieldChange "spec.taints" (getTaintKeys old.spec.taints) (getTaintKeys new.spec.taints) ++
  conditionChanges "Unknown" nodeConditions old.conditions new.conditions ++
  fieldChange "status.nodeInfo.kubeletVersion" old.kubeletVersion new.kubeletVersion ++
  fieldChange "status.nodeInfo.kernelVersion" old.kernelVersion new.kernelVersion ++
  allocatables.flatMap fun res =>
    fieldChange ("status.allocatable." ++ res) (old.allocatable res) (new.allocatable res)

def quotaText (hard : StringMap String) (name : String) : String := (find name hard.entries).getD ""

def diffResourceQuota (old new : QuotaSpec ρ) : List String :=
  let names := (getMapKeys old.hard ++ getMapKeys new.hard).dedup.mergeSort fun a b => a ≤ b
  names.flatMap fun name =>
    fieldChange ("spec.hard." ++ name) (quotaText old.hard name) (quotaText new.hard name)

def limitRangeItemRefs (items : List (LimitRangeItem ρ)) : List String :=
  let quantities (label : String) (list : StringMap String) :=
    list.entries.map fun e => label ++ "." ++ e.1 ++ "=" ++ e.2
  (items.map fun item => " ".intercalate (item.type_ :: quantities "max" item.max ++
    quantities "min" item.min ++ quantities "default" item.default_ ++
    quantities "defaultRequest" item.defaultRequest)).mergeSort fun a b => a ≤ b

def computeDiff (structured : Structured) : Update ρ → List String
  | .configMap old new => diffConfigMap structured old new
  | .service old new => diffService old new
  | .persistentVolumeClaim old new => diffPVC old new
  | .node old new => diffNode old new
  | .resourceQuota old new => diffResourceQuota old new
  | .limitRange old new => fieldChange "spec.limits" (limitRangeItemRefs old) (limitRangeItemRefs new)
  | .generational _ _ _ _ found _ => found

def generations : Update ρ → Nat × Nat
  | .generational _ _ oldGen newGen _ _ => (oldGen, newGen)
  | _ => (0, 0)

/-- The changes of the update's event, none where it is dropped. -/
def recordToTimelineStore (structured : Structured) (u : Update ρ) : Option (List String) :=
  let gens := generations u
  if computeDiff structured u ≠ [] then some (computeDiff structured u)
  else if gens.1 ≠ gens.2 ∧ 0 < gens.1 ∧ 0 < gens.2 then some ["metadata.generation"]
  else none

end Model

section Statement
variable {ρ : Type}

/-- The update changes the desired state. -/
def Desired : Update ρ → Prop
  | .configMap old new => old ≠ new
  | .service old new => old.spec ≠ new.spec
  | .persistentVolumeClaim old new => old.spec ≠ new.spec
  | .node old new => old.spec ≠ new.spec
  | .resourceQuota old new => old ≠ new
  | .limitRange old new => old ≠ new
  | .generational old new _ _ _ _ => old ≠ new

/-- What the differ compares of a Service, its selector apart. -/
def Service.seen (s : Service ρ) :=
  (s.spec.type_, getServicePorts s.spec.ports, getLBAddresses s.ingress, s.spec.externalIPs)

def PersistentVolumeClaim.seen (c : PersistentVolumeClaim ρ) :=
  (c.phase, resizeConditions.map (conditionStatus "" c.conditions))

def Node.seen (n : Node ρ) :=
  (n.spec.unschedulable, getTaintKeys n.spec.taints, nodeConditions.map (conditionStatus "Unknown" n.conditions),
    n.kubeletVersion, n.kernelVersion, allocatables.map n.allocatable)

/-- The update changes something that the differ of its kind looks at. -/
def Noticed : Update ρ → Prop
  | .configMap old new => old.data ≠ new.data ∨ old.immutable.getD false ≠ new.immutable.getD false ∨
      ¬ ∀ key, key ∈ getMapKeys old.binaryData ↔ key ∈ getMapKeys new.binaryData
  | .service old new => old.seen ≠ new.seen ∨ equalStringMaps old.spec.selector new.spec.selector = false
  | .persistentVolumeClaim old new => old.seen ≠ new.seen ∨ (old.spec.volumeName = "" ∧ new.spec.volumeName ≠ "") ∨
      (old.capacity ≠ 0 ∧ new.capacity ≠ 0 ∧ old.capacity ≠ new.capacity)
  | .node old new => old.seen ≠ new.seen
  | .resourceQuota old new => ∃ name, quotaText old.hard name ≠ quotaText new.hard name
  | .limitRange old new => limitRangeItemRefs old ≠ limitRangeItemRefs new
  | .generational _ _ _ _ _ _ => True

end Statement

section Conclusion
variable {ρ : Type}

theorem field_change_nil {α : Type} [DecidableEq α] {path : String} {old new : α} :
    fieldChange path old new = [] ↔ old = new := by
  simp [fieldChange]

theorem added_removed_nil {field : String} {old new : List String} :
    addedRemoved field old new = [] ↔ ∀ key, key ∈ old ↔ key ∈ new := by
  simp only [addedRemoved, append_eq_nil_iff, field_change_nil, diffStringSlices,
    filter_eq_nil_iff, decide_eq_true_eq, not_not]
  exact ⟨fun both key => ⟨both.2 key, both.1 key⟩, fun same => ⟨fun key => (same key).mpr, fun key => (same key).mp⟩⟩

theorem find_key {m : StringMap String} {key : String} : key ∈ getMapKeys m ↔ ∃ v, find key m.entries = some v := by
  constructor
  · intro member
    obtain ⟨e, there, rfl⟩ := mem_map.mp member
    exact ⟨e.2, sorted_find m.sorted there⟩
  · rintro ⟨v, found⟩
    exact mem_map.mpr ⟨_, find_mem found, rfl⟩

theorem modified_nil {old new : StringMap String} (keys : ∀ key, key ∈ getMapKeys old ↔ key ∈ getMapKeys new) :
    getModifiedKeys old new = [] ↔ old = new := by
  simp only [getModifiedKeys, map_eq_nil_iff, filter_eq_nil_iff]
  constructor
  · intro none_
    have same : old.entries = new.entries := by
      apply entries_ext old.sorted new.sorted
      intro key
      cases there : find key old.entries with
      | none =>
        cases there' : find key new.entries with
        | none => rfl
        | some v =>
          obtain ⟨w, found⟩ := find_key.mp ((keys key).mpr (find_key.mpr ⟨v, there'⟩))
          rw [there] at found
          cases found
      | some v =>
        obtain ⟨w, found⟩ := find_key.mp ((keys key).mp (find_key.mpr ⟨v, there⟩))
        have settled := none_ _ (find_mem there)
        rw [found] at settled ⊢
        simpa using settled
    cases old
    cases new
    cases same
    rfl
  · rintro rfl e member
    rw [sorted_find old.sorted member]
    simp

theorem config_map_nil (structured : Structured) (old new : ConfigMap) :
    diffConfigMap structured old new = [] ↔ ¬ Noticed (.configMap old new : Update ρ) := by
  simp only [diffConfigMap, Noticed, append_eq_nil_iff, added_removed_nil, field_change_nil, not_or, not_not,
    flatMap_eq_nil_iff, filter_eq_nil_iff, decide_eq_true_eq]
  constructor
  · rintro ⟨⟨⟨⟨keys, inside⟩, bare⟩, binary⟩, flag⟩
    have none_ : getModifiedKeys old.data new.data = [] := by
      apply eq_nil_iff_forall_not_mem.mpr
      intro key member
      exact bare key member (inside key member)
    exact ⟨(modified_nil keys).mp none_, flag, binary⟩
  · rintro ⟨same, flag, binary⟩
    have keys : ∀ key, key ∈ getMapKeys old.data ↔ key ∈ getMapKeys new.data := fun key => by rw [same]
    have none_ := (modified_nil keys).mpr same
    refine ⟨⟨⟨⟨keys, ?_⟩, ?_⟩, binary⟩, flag⟩ <;> simp [none_]

theorem quota_nil (old new : QuotaSpec ρ) :
    diffResourceQuota old new = [] ↔ ¬ Noticed (.resourceQuota old new) := by
  simp only [diffResourceQuota, Noticed, flatMap_eq_nil_iff, field_change_nil, not_exists, not_not,
    mem_mergeSort, mem_dedup, mem_append]
  refine ⟨fun listed name => ?_, fun same name _ => same name⟩
  by_cases member : name ∈ getMapKeys old.hard ∨ name ∈ getMapKeys new.hard
  · exact listed name member
  · rw [not_or] at member
    have unset : ∀ m : StringMap String, name ∉ getMapKeys m → quotaText m name = "" := by
      intro m absent
      rw [quotaText, Option.eq_none_iff_forall_ne_some.mpr fun v found => absent (find_key.mpr ⟨v, found⟩)]
      rfl
    rw [unset _ member.1, unset _ member.2]

theorem condition_changes_nil {unset : String} {types : List String} {old new : List (String × String)} :
    conditionChanges unset types old new = [] ↔
      types.map (conditionStatus unset old) = types.map (conditionStatus unset new) := by
  rw [map_inj_left]
  simp only [conditionChanges, flatMap_eq_nil_iff, field_change_nil]

/-- Without a generation an update is kept exactly if its differ finds something, and it finds what it looks at. -/
theorem kept_noticed (structured : Structured) (u : Update ρ) (changed : Desired u) :
    recordToTimelineStore structured u ≠ none ↔ Noticed u := by
  have ungenerated (quiet : computeDiff structured u = [] ↔ ¬ Noticed u) (untold : generations u = (0, 0)) :
      recordToTimelineStore structured u ≠ none ↔ Noticed u := by
    rw [← not_not (a := Noticed u), ← quiet, recordToTimelineStore, untold]
    split <;> simp_all
  cases u with
  | configMap old new => exact ungenerated (config_map_nil structured old new) rfl
  | service old new =>
    refine ungenerated ?_ rfl
    simp only [computeDiff, diffService, Noticed, Service.seen, append_eq_nil_iff, field_change_nil, not_or,
      not_not, Bool.not_eq_false, Prod.mk.injEq]
    tauto
  | persistentVolumeClaim old new =>
    refine ungenerated ?_ rfl
    simp only [computeDiff, diffPVC, Noticed, PersistentVolumeClaim.seen, append_eq_nil_iff, field_change_nil,
      condition_changes_nil, ite_eq_right_iff, cons_ne_nil, imp_false, not_or, not_not, Prod.mk.injEq]
    tauto
  | node old new =>
    refine ungenerated ?_ rfl
    simp only [computeDiff, diffNode, Noticed, Node.seen, append_eq_nil_iff, field_change_nil,
      condition_changes_nil, flatMap_eq_nil_iff, not_not, Prod.mk.injEq, map_inj_left, and_assoc]
  | resourceQuota old new => exact ungenerated (quota_nil old new) rfl
  | limitRange old new => exact ungenerated (field_change_nil.trans not_not.symm) rfl
  | generational old new oldGen newGen found raised =>
    obtain ⟨first, more⟩ := raised changed
    have moved : oldGen ≠ newGen ∧ 0 < oldGen ∧ 0 < newGen := ⟨more.ne, first, first.trans more⟩
    refine iff_of_true ?_ trivial
    unfold recordToTimelineStore
    by_cases quiet : found = [] <;> simp [computeDiff, generations, quiet, moved]

/-- A change of the desired state is kept exactly if the differ of its kind looks at what changed, or its kind has a
generation. -/
theorem desired_kept_iff (structured : Structured) (u : Update ρ) :
    (Desired u → recordToTimelineStore structured u ≠ none) ↔ (Desired u → Noticed u) :=
  forall_congr' (kept_noticed structured u)

/-- A claim of 10 gibibytes, the rest being what it requests, asks for 20. -/
def resized (requested : Nat) : PersistentVolumeClaim Nat := ⟨⟨"pv", requested⟩, "Bound", 10, []⟩

theorem resize_dropped : Desired (.persistentVolumeClaim (resized 10) (resized 20)) ∧
    recordToTimelineStore (fun _ _ _ => []) (.persistentVolumeClaim (resized 10) (resized 20)) = none := by
  refine ⟨fun same => ?_, rfl⟩
  have requests : (10 : Nat) = 20 := congrArg ClaimSpec.rest same
  omega

end Conclusion

end NoiseGate
