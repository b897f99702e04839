import Mathlib.Data.Finset.Basic
import Radar.Base.JsonRecord

/- What a pod template references, read three times: extractWorkloadReferences and
   extractWorkloadReferencesFromMap of pkg/topology/builder.go, and podSpecReferences of
   pkg/k8score/apply_warnings.go. -/
namespace PodReferences
open JsonTree JsonRecord List

/-- The name of what is referenced. -/
abbrev RefName := { name : String // name ≠ "" }

structure EnvVarSource where
  configMapKeyRef : Option RefName
  secretKeyRef : Option RefName

structure EnvVar where
  name : String
  valueFrom : Option EnvVarSource

structure EnvFromSource where
  configMapRef : Option RefName
  secretRef : Option RefName

structure Container where
  name : String
  env : List EnvVar
  envFrom : List EnvFromSource

/-- One source of a projected volume. -/
structure VolumeProjection where
  configMap : Option RefName
  secret : Option RefName

structure Volume where
  name : String
  configMap : Option RefName
  secret : Option RefName
  persistentVolumeClaim : Option RefName
  projected : Option (List VolumeProjection)

structure PodSpec where
  containers : List Container
  initContainers : List Container
  volumes : List Volume

inductive RefKind where
  | configMap | secret
  deriving DecidableEq

structure WorkloadRefs where
  configMaps : Finset String
  secrets : Finset String
  pvcs : Finset String
  deriving DecidableEq

section Typed

def nameOf (ref : Option RefName) : List String := (ref.map Subtype.val).toList

def EnvVarSource.keyRef (source : EnvVarSource) : RefKind → Option RefName
  | .configMap => source.configMapKeyRef
  | .secret => source.secretKeyRef

def EnvFromSource.ref (source : EnvFromSource) : RefKind → Option RefName
  | .configMap => source.configMapRef
  | .secret => source.secretRef

def Volume.source (volume : Volume) : RefKind → Option RefName
  | .configMap => volume.configMap
  | .secret => volume.secret

def VolumeProjection.source (projection : VolumeProjection) : RefKind → Option RefName
  | .configMap => projection.configMap
  | .secret => projection.secret

/-- What the container's environment references. -/
def Container.names (kind : RefKind) (container : Container) : List String :=
  container.env.flatMap (fun env => env.valueFrom.toList.flatMap fun source =>
    nameOf (source.keyRef kind)) ++
  container.envFrom.flatMap fun envFrom => nameOf (envFrom.ref kind)

def typedNames (spec : PodSpec) (kind : RefKind) : List String :=
  (spec.containers ++ spec.initContainers).flatMap (Container.names kind) ++
    spec.volumes.flatMap fun volume => nameOf (volume.source kind)

def extractWorkloadReferences (spec : PodSpec) : WorkloadRefs where
  configMaps := (typedNames spec .configMap).toFinset
  secrets := (typedNames spec .secret).toFinset
  pvcs := (spec.volumes.flatMap fun volume => nameOf volume.persistentVolumeClaim).toFinset

end Typed

section Map

/-- The name under a key of the reference that stands at a field. -/
def namesAt (m : Entries) (ref key : String) : List String := match objectAt m ref with
  | some inner => if stringAt inner key ≠ "" then [stringAt inner key] else []
  | none => []

def keyRefField : RefKind → String
  | .configMap => "configMapKeyRef"
  | .secret => "secretKeyRef"

def refField : RefKind → String
  | .configMap => "configMapRef"
  | .secret => "secretRef"

def processContainers (spec : Entries) (kind : RefKind) (containersField : String) : List String :=
  (objectsAt spec containersField).flatMap fun container =>
    (objectsAt container "env").flatMap (fun envVar =>
      (objectAt envVar "valueFrom").toList.flatMap fun valueFrom =>
        namesAt valueFrom (keyRefField kind) "name") ++
    (objectsAt container "envFrom").flatMap fun item => namesAt item (refField kind) "name"

def volumeNames (spec : Entries) (source key : String) : List String :=
  (objectsAt spec "volumes").flatMap fun volume => namesAt volume source key

def extractWorkloadReferencesFromMap (spec : Entries) : WorkloadRefs where
  configMaps := (processContainers spec .configMap "containers" ++
    processContainers spec .configMap "initContainers" ++
    volumeNames spec "configMap" "name").toFinset
  secrets := (processContainers spec .secret "containers" ++
    processContainers spec .secret "initContainers" ++
    volumeNames spec "secret" "secretName").toFinset
  pvcs := (volumeNames spec "persistentVolumeClaim" "claimName").toFinset

end Map

section Consumers

def podSpecPath (kind : String) : List String :=
  if kind ∈ ["Deployment", "ReplicaSet", "StatefulSet", "DaemonSet", "Job"] then
    ["spec", "template", "spec"]
  else if kind = "CronJob" then ["spec", "jobTemplate", "spec", "template", "spec"]
  else if kind = "Pod" then ["spec"]
  else []

/-- The reference at a field has the name under a key. -/
def namedAt (m : Entries) (ref key refName : String) : Bool := match objectAt m ref with
  | some inner => stringAt inner key == refName
  | none => false

def containerReferences (c : Entries) (refKind : RefKind) (refName : String) : Bool :=
  (objectsAt c "envFrom").any (fun ef => namedAt ef (refField refKind) "name" refName) ||
  (objectsAt c "env").any fun ev =>
    (objectAt ev "valueFrom").any fun vf => namedAt vf (keyRefField refKind) "name" refName

/-- A volume has the Secret's name under secretName. -/
def sourceNamed (v : Entries) (refKind : RefKind) (refName : String) : Bool := match refKind with
  | .configMap => namedAt v "configMap" "name" refName
  | .secret => namedAt v "secret" "secretName" refName

def projectionNamed (sm : Entries) (refKind : RefKind) (refName : String) : Bool := match refKind with
  | .configMap => namedAt sm "configMap" "name" refName
  | .secret => namedAt sm "secret" "name" refName

def volumeReferences (v : Entries) (refKind : RefKind) (refName : String) : Bool :=
  sourceNamed v refKind refName ||
  (objectAt v "projected").any fun proj =>
    (objectsAt proj "sources").any fun sm => projectionNamed sm refKind refName

/-- unstructured.NestedSlice and the loop over its objects. -/
def nestedObjects (obj : Value) (path : List String) : List Entries := match nested obj path with
  | some (.array elements) => objects elements
  | _ => []

def podSpecReferences (kind : String) (obj : Value) (refKind : RefKind) (refName : String) : Bool :=
  let specPath := podSpecPath kind
  if specPath.length = 0 then false
  else
    ["containers", "initContainers"].any (fun group =>
      (nestedObjects obj (specPath ++ [group])).any fun c => containerReferences c refKind refName) ||
    (nestedObjects obj (specPath ++ ["volumes"])).any fun v => volumeReferences v refKind refName

end Consumers

section Written

def reference (key : String) (name : RefName) : Entries := [(key, .string name.val)]

/-- A reference where it is set, with its name under a key. -/
def referred (key : String) (ref : Option RefName) : Option Value :=
  ref.map fun name => .object (reference key name)

def EnvVarSource.toMap (source : EnvVarSource) : Entries :=
  record [("configMapKeyRef", referred "name" source.configMapKeyRef),
    ("secretKeyRef", referred "name" source.secretKeyRef)]

def EnvVar.toMap (env : EnvVar) : Entries := record [("name", some (.string env.name)),
    ("valueFrom", env.valueFrom.map fun source => .object source.toMap)]

def EnvFromSource.toMap (source : EnvFromSource) : Entries :=
  record [("configMapRef", referred "name" source.configMapRef),
    ("secretRef", referred "name" source.secretRef)]

def Container.toMap (container : Container) : Entries := record [("env", listed EnvVar.toMap container.env),
    ("envFrom", listed EnvFromSource.toMap container.envFrom),
    ("name", some (.string container.name))]

def VolumeProjection.toMap (projection : VolumeProjection) : Entries :=
  record [("configMap", referred "name" projection.configMap),
    ("secret", referred "name" projection.secret)]

def projectedMap (sources : List VolumeProjection) : Entries :=
  record [("sources", some (written VolumeProjection.toMap sources))]

def Volume.toMap (volume : Volume) : Entries := record [("configMap", referred "name" volume.configMap),
    ("name", some (.string volume.name)),
    ("persistentVolumeClaim", referred "claimName" volume.persistentVolumeClaim),
    ("projected", volume.projected.map fun sources => .object (projectedMap sources)),
    ("secret", referred "secretName" volume.secret)]

/-- The spec's JSON map: empty lists are left out, the containers apart. -/
def PodSpec.toMap (spec : PodSpec) : Entries :=
  record [("containers", some (written Container.toMap spec.containers)),
    ("initContainers", listed Container.toMap spec.initContainers),
    ("volumes", listed Volume.toMap spec.volumes)]

/-- A workload that carries a spec: an object of a kind that has pods, with the spec's map where that
   kind has it. -/
structure Workload where
  kind : String
  object : Value
  spec : PodSpec
  known : podSpecPath kind ≠ []
  carries : nested object (podSpecPath kind) = some (.object spec.toMap)

end Written

section Fields
variable (spec : PodSpec) (container : Container) (volume : Volume)

theorem spec_containers : objectsAt spec.toMap "containers" = spec.containers.map Container.toMap :=
  objects_at_written (by simp) mem_cons_self

theorem spec_init_containers :
    objectsAt spec.toMap "initContainers" = spec.initContainers.map Container.toMap :=
  objects_at_listed (by simp) (mem_cons_of_mem _ mem_cons_self)

theorem spec_volumes : objectsAt spec.toMap "volumes" = spec.volumes.map Volume.toMap :=
  objects_at_listed (by simp)
    (mem_cons_of_mem _ (mem_cons_of_mem _ mem_cons_self))

theorem container_env : objectsAt container.toMap "env" = container.env.map EnvVar.toMap :=
  objects_at_listed (by simp) mem_cons_self

theorem container_env_from :
    objectsAt container.toMap "envFrom" = container.envFrom.map EnvFromSource.toMap :=
  objects_at_listed (by simp) (mem_cons_of_mem _ mem_cons_self)

theorem env_value_from (env : EnvVar) :
    objectAt env.toMap "valueFrom" = env.valueFrom.map EnvVarSource.toMap :=
  object_at_map (by simp) (mem_cons_of_mem _ mem_cons_self)

theorem volume_projected : objectAt volume.toMap "projected" = volume.projected.map projectedMap := by
  apply object_at_map (by simp)
  simp

theorem projected_sources (sources : List VolumeProjection) :
    objectsAt (projectedMap sources) "sources" = sources.map VolumeProjection.toMap :=
  objects_at_written (by simp) mem_cons_self

/-- A reference as it is found again: its fields and the name under the key. -/
theorem reference_name (key : String) (name : RefName) : stringAt (reference key name) key = name.val := by
  rw [stringAt, reference, field_cons, if_pos rfl]

variable {fields : List (String × Option Value)} {at_ key : String} {ref : Option RefName}

theorem names_at_referred (distinct : (fields.map Prod.fst).Nodup)
    (member : (at_, referred key ref) ∈ fields) : namesAt (record fields) at_ key = nameOf ref := by
  rw [namesAt, object_at_map distinct member]
  cases ref with
  | none => rfl
  | some name => simp [reference_name, name.property, nameOf]

theorem named_at_referred (distinct : (fields.map Prod.fst).Nodup)
    (member : (at_, referred key ref) ∈ fields) {refName : String} :
    namedAt (record fields) at_ key refName = true ↔ refName ∈ nameOf ref := by
  rw [namedAt, object_at_map distinct member]
  cases ref with
  | none => simp [nameOf]
  | some name =>
    rw [Option.map_some]
    simp only [reference_name, nameOf, beq_iff_eq, Option.map_some, Option.toList_some, mem_singleton]
    exact eq_comm

end Fields

section MapReading
variable (spec : PodSpec) (kind : RefKind)

theorem env_names (source : EnvVarSource) :
    namesAt source.toMap (keyRefField kind) "name" = nameOf (source.keyRef kind) := by
  cases kind with
  | configMap => exact names_at_referred (by simp) mem_cons_self
  | secret => exact names_at_referred (by simp) (mem_cons_of_mem _ mem_cons_self)

theorem env_from_names (item : EnvFromSource) :
    namesAt item.toMap (refField kind) "name" = nameOf (item.ref kind) := by
  cases kind with
  | configMap => exact names_at_referred (by simp) mem_cons_self
  | secret => exact names_at_referred (by simp) (mem_cons_of_mem _ mem_cons_self)

theorem container_names (container : Container) : ((objectsAt container.toMap "env").flatMap fun envVar =>
      (objectAt envVar "valueFrom").toList.flatMap fun valueFrom =>
        namesAt valueFrom (keyRefField kind) "name") ++
    ((objectsAt container.toMap "envFrom").flatMap fun item =>
      namesAt item (refField kind) "name") = container.names kind := by
  rw [container_env, container_env_from, flatMap_map, flatMap_map, Container.names]
  congr 1
  · congr 1
    funext env
    rw [env_value_from]
    cases env.valueFrom with
    | none => rfl
    | some source =>
      simp only [Option.map_some, Option.toList_some, flatMap_cons, flatMap_nil,
        append_nil, env_names]
  · congr 1
    funext item
    exact env_from_names kind item

theorem process_containers {containersField : String} {containers : List Container}
    (read : objectsAt spec.toMap containersField = containers.map Container.toMap) :
    processContainers spec.toMap kind containersField = containers.flatMap (Container.names kind) := by
  rw [processContainers, read, flatMap_map]
  congr 1
  funext container
  exact container_names kind container

/-- The names that the volumes of a spec's map have at a field. -/
theorem volume_names {field_ key : String} {source : Volume → Option RefName}
    (own : ∀ volume : Volume, namesAt volume.toMap field_ key = nameOf (source volume)) :
    volumeNames spec.toMap field_ key = spec.volumes.flatMap fun volume => nameOf (source volume) := by
  rw [volumeNames, spec_volumes, flatMap_map]
  congr 1
  funext volume
  exact own volume

theorem volume_config_map (volume : Volume) :
    namesAt volume.toMap "configMap" "name" = nameOf volume.configMap :=
  names_at_referred (by simp) mem_cons_self

theorem volume_secret (volume : Volume) :
    namesAt volume.toMap "secret" "secretName" = nameOf volume.secret := by
  apply names_at_referred (by simp)
  simp

theorem volume_claim (volume : Volume) :
    namesAt volume.toMap "persistentVolumeClaim" "claimName" = nameOf volume.persistentVolumeClaim := by
  apply names_at_referred (by simp)
  simp

/-- The reading of the map finds what the reading of the typed spec finds. -/
theorem map_agrees : extractWorkloadReferencesFromMap spec.toMap = extractWorkloadReferences spec := by
  have containers := fun kind => process_containers spec kind (spec_containers spec)
  have initContainers := fun kind => process_containers spec kind (spec_init_containers spec)
  rw [extractWorkloadReferencesFromMap, extractWorkloadReferences, WorkloadRefs.mk.injEq,
    containers, containers, initContainers, initContainers, volume_names spec volume_config_map,
    volume_names spec volume_secret, volume_names spec volume_claim, typedNames, typedNames,
    flatMap_append, flatMap_append]
  exact ⟨rfl, rfl, rfl⟩

end MapReading

section ConsumerScan
variable (spec : PodSpec) (kind : RefKind) (n : String)

/-- The names that a volume's projected sources reference. -/
def projectedNames (kind : RefKind) (volume : Volume) : List String :=
  (volume.projected.getD []).flatMap fun projection => nameOf (projection.source kind)

theorem env_named (source : EnvVarSource) :
    namedAt source.toMap (keyRefField kind) "name" n = true ↔ n ∈ nameOf (source.keyRef kind) := by
  cases kind with
  | configMap => exact named_at_referred (by simp) mem_cons_self
  | secret => exact named_at_referred (by simp) (mem_cons_of_mem _ mem_cons_self)

theorem env_from_named (item : EnvFromSource) :
    namedAt item.toMap (refField kind) "name" n = true ↔ n ∈ nameOf (item.ref kind) := by
  cases kind with
  | configMap => exact named_at_referred (by simp) mem_cons_self
  | secret => exact named_at_referred (by simp) (mem_cons_of_mem _ mem_cons_self)

theorem container_references (container : Container) :
    containerReferences container.toMap kind n = true ↔ n ∈ container.names kind := by
  rw [containerReferences, container_env, container_env_from, Bool.or_eq_true, any_map,
    any_map, any_eq_true, any_eq_true, Container.names, mem_append,
    mem_flatMap, mem_flatMap, or_comm]
  apply or_congr
  · apply exists_congr
    intro env
    apply and_congr_right
    intro _
    rw [Function.comp_apply, env_value_from]
    cases env.valueFrom with
    | none => simp
    | some source => simpa using env_named kind n source
  · apply exists_congr
    intro item
    apply and_congr_right
    intro _
    exact env_from_named kind n item

theorem source_named (volume : Volume) :
    sourceNamed volume.toMap kind n = true ↔ n ∈ nameOf (volume.source kind) := by
  cases kind with
  | configMap => exact named_at_referred (by simp) mem_cons_self
  | secret =>
    apply named_at_referred (by simp)
    simp [Volume.source]

theorem projection_named (projection : VolumeProjection) :
    projectionNamed projection.toMap kind n = true ↔ n ∈ nameOf (projection.source kind) := by
  cases kind with
  | configMap => exact named_at_referred (by simp) mem_cons_self
  | secret => exact named_at_referred (by simp) (mem_cons_of_mem _ mem_cons_self)

theorem volume_references (volume : Volume) : volumeReferences volume.toMap kind n = true ↔
    n ∈ nameOf (volume.source kind) ∨ n ∈ projectedNames kind volume := by
  rw [volumeReferences, Bool.or_eq_true, source_named, volume_projected]
  apply or_congr_right
  rw [projectedNames]
  cases volume.projected with
  | none => simp
  | some sources =>
    rw [Option.map_some, Option.any_some, projected_sources, any_map, any_eq_true,
      Option.getD_some, mem_flatMap]
    apply exists_congr
    intro projection
    apply and_congr_right
    intro _
    exact projection_named kind n projection

theorem nested_objects {object : Value} {path : List String} {m : Entries}
    (there : nested object path = some (.object m)) (key : String) :
    nestedObjects object (path ++ [key]) = objectsAt m key := by
  rw [nestedObjects, nested_concat, there, Option.bind_some, nested, objectsAt]
  cases field m key with
  | none => rfl
  | some value => rfl

/-- The scan finds what the typed spec references and what its projected volumes do. -/
theorem scan_iff (w : Workload) : podSpecReferences w.kind w.object kind n = true ↔
    n ∈ typedNames w.spec kind ∨ n ∈ w.spec.volumes.flatMap (projectedNames kind) := by
  have long : (podSpecPath w.kind).length ≠ 0 := by
    intro empty
    exact w.known (length_eq_zero_iff.mp empty)
  have containers : ∀ list : List Container,
      ((list.map Container.toMap).any fun c => containerReferences c kind n) = true ↔
        n ∈ list.flatMap (Container.names kind) := by
    intro list
    rw [any_map, any_eq_true, mem_flatMap]
    exact exists_congr fun container => and_congr_right fun _ => container_references kind n container
  have volumes : ((w.spec.volumes.map Volume.toMap).any fun v => volumeReferences v kind n) = true ↔
      (n ∈ w.spec.volumes.flatMap fun volume => nameOf (volume.source kind)) ∨
        n ∈ w.spec.volumes.flatMap (projectedNames kind) := by
    rw [any_map, any_eq_true, mem_flatMap, mem_flatMap, ← exists_or]
    apply exists_congr
    intro volume
    rw [← and_or_left]
    exact and_congr_right fun _ => volume_references kind n volume
  simp only [podSpecReferences]
  rw [if_neg long, Bool.or_eq_true, nested_objects w.carries, spec_volumes, volumes, any_cons,
    any_cons, any_nil, Bool.or_false, Bool.or_eq_true, nested_objects w.carries,
    nested_objects w.carries, spec_containers, spec_init_containers, containers, containers,
    typedNames, mem_append, flatMap_append, mem_append, or_assoc, or_assoc, or_assoc]

end ConsumerScan

section Agreement
variable {n : String} {spec : PodSpec} {kind : RefKind}

/-- A name that a spec references in a container's environment or as a volume. -/
inductive Uses (spec : PodSpec) (kind : RefKind) (name : RefName) : Prop where
  | env (container : Container) (listed : container ∈ spec.containers ++ spec.initContainers)
      (env : EnvVar) (member : env ∈ container.env) (source : EnvVarSource)
      (set : env.valueFrom = some source) (names : source.keyRef kind = some name)
  | envFrom (container : Container) (listed : container ∈ spec.containers ++ spec.initContainers)
      (item : EnvFromSource) (member : item ∈ container.envFrom) (names : item.ref kind = some name)
  | volume (volume : Volume) (listed : volume ∈ spec.volumes) (names : volume.source kind = some name)

/-- A name among the sources of a projected volume. -/
def Projects (spec : PodSpec) (kind : RefKind) (name : RefName) : Prop :=
  ∃ volume ∈ spec.volumes, ∃ sources, volume.projected = some sources ∧
    ∃ projection ∈ sources, projection.source kind = some name

theorem mem_name_of {ref : Option RefName} : n ∈ nameOf ref ↔ ∃ name, ref = some name ∧ name.val = n := by
  rw [nameOf, Option.mem_toList, Option.map_eq_some_iff]

theorem typed_iff : n ∈ typedNames spec kind ↔ ∃ name, Uses spec kind name ∧ name.val = n := by
  rw [typedNames, mem_append, mem_flatMap, mem_flatMap]
  constructor
  · rintro (⟨container, listed, inside⟩ | ⟨volume, listed, inside⟩)
    · rw [Container.names, mem_append, mem_flatMap, mem_flatMap] at inside
      cases inside with
      | inl found =>
        obtain ⟨env, member, below⟩ := found
        obtain ⟨source, set, named⟩ := mem_flatMap.mp below
        obtain ⟨name, names, same⟩ := mem_name_of.mp named
        exact ⟨name, .env container listed env member source (Option.mem_toList.mp set) names, same⟩
      | inr found =>
        obtain ⟨item, member, named⟩ := found
        obtain ⟨name, names, same⟩ := mem_name_of.mp named
        exact ⟨name, .envFrom container listed item member names, same⟩
    · obtain ⟨name, names, same⟩ := mem_name_of.mp inside
      exact ⟨name, .volume volume listed names, same⟩
  · rintro ⟨name, uses, same⟩
    cases uses with
    | env container listed env member source set names =>
      refine Or.inl ⟨container, listed, mem_append_left _ ?_⟩
      refine mem_flatMap.mpr ⟨env, member, mem_flatMap.mpr ⟨source, ?_, ?_⟩⟩
      · exact Option.mem_toList.mpr set
      · exact mem_name_of.mpr ⟨name, names, same⟩
    | envFrom container listed item member names =>
      refine Or.inl ⟨container, listed, mem_append_right _ ?_⟩
      exact mem_flatMap.mpr ⟨item, member, mem_name_of.mpr ⟨name, names, same⟩⟩
    | volume volume listed names =>
      exact Or.inr ⟨volume, listed, mem_name_of.mpr ⟨name, names, same⟩⟩

theorem projected_iff : n ∈ spec.volumes.flatMap (projectedNames kind) ↔
      ∃ name, Projects spec kind name ∧ name.val = n := by
  rw [mem_flatMap]
  constructor
  · rintro ⟨volume, listed, inside⟩
    rw [projectedNames] at inside
    cases set : volume.projected with
    | none =>
      rw [set] at inside
      exact absurd inside not_mem_nil
    | some sources =>
      rw [set] at inside
      obtain ⟨projection, member, named⟩ := mem_flatMap.mp inside
      obtain ⟨name, names, same⟩ := mem_name_of.mp named
      exact ⟨name, ⟨volume, listed, sources, set, projection, member, names⟩, same⟩
  · rintro ⟨name, ⟨volume, listed, sources, set, projection, member, names⟩, same⟩
    refine ⟨volume, listed, ?_⟩
    rw [projectedNames, set]
    exact mem_flatMap.mpr ⟨projection, member, mem_name_of.mpr ⟨name, names, same⟩⟩

/-- The names that a reading of the spec collected for a kind. -/
def WorkloadRefs.of (refs : WorkloadRefs) : RefKind → Finset String
  | .configMap => refs.configMaps
  | .secret => refs.secrets

/-- The three readings agree on a workload. -/
structure Agree (w : Workload) : Prop where
  map : extractWorkloadReferencesFromMap w.spec.toMap = extractWorkloadReferences w.spec
  scan : ∀ kind n, podSpecReferences w.kind w.object kind n = true ↔
    n ∈ (extractWorkloadReferences w.spec).of kind

theorem typed_of : n ∈ (extractWorkloadReferences spec).of kind ↔ n ∈ typedNames spec kind := by
  cases kind with
  | configMap => exact mem_toFinset
  | secret => exact mem_toFinset

/-- The readings agree exactly when every ConfigMap and Secret in a projected volume is referenced in
   some other way too: the two readings for the topology do not look into projected volumes. -/
theorem agree_iff (w : Workload) : Agree w ↔
    ∀ kind name, Projects w.spec kind name → Uses w.spec kind name := by
  constructor
  · intro agree kind name projects
    have scanned : podSpecReferences w.kind w.object kind name.val = true :=
      (scan_iff kind name.val w).mpr (Or.inr (projected_iff.mpr ⟨name, projects, rfl⟩))
    obtain ⟨other, uses, same⟩ := typed_iff.mp (typed_of.mp ((agree.scan kind name.val).mp scanned))
    rw [← Subtype.ext same]
    exact uses
  · intro covered
    constructor
    · exact map_agrees w.spec
    · intro kind n
      rw [scan_iff, typed_of]
      constructor
      · rintro (used | projected)
        · exact used
        · obtain ⟨name, projects, same⟩ := projected_iff.mp projected
          exact typed_iff.mpr ⟨name, covered kind name projects, same⟩
      · exact Or.inl

end Agreement

section Projected

/-- A pod with a projected volume of one ConfigMap. -/
def projectedSpec : PodSpec where
  containers := [⟨"app", [], []⟩]
  initContainers := []
  volumes := [⟨"config", none, none, none, some [⟨some ⟨"settings", by decide⟩, none⟩]⟩]

def projectedPod : Workload where
  kind := "Pod"
  object := .object [("kind", .string "Pod"), ("spec", .object projectedSpec.toMap)]
  spec := projectedSpec
  known := by decide
  carries := rfl

/-- The warning on an apply counts the pod as a consumer; its dependencies in the topology are none. -/
theorem projected_missed : podSpecReferences "Pod" projectedPod.object .configMap "settings" = true ∧
    extractWorkloadReferences projectedSpec = ⟨∅, ∅, ∅⟩ ∧ ¬ Agree projectedPod := by
  have scanned : podSpecReferences "Pod" projectedPod.object .configMap "settings" = true := by decide
  have empty : extractWorkloadReferences projectedSpec = ⟨∅, ∅, ∅⟩ := by decide
  refine ⟨scanned, empty, fun agree => ?_⟩
  have collected := (agree.scan .configMap "settings").mp scanned
  rw [show (extractWorkloadReferences projectedPod.spec) = ⟨∅, ∅, ∅⟩ from empty] at collected
  exact absurd collected (Finset.notMem_empty _)

end Projected

end PodReferences
