import Radar.Base.SlashPath
import Radar.GitOps.TreeBuilder

/- pkg/gitops/tree/inventory.go and the Kustomization pass of pkg/topology/builder.go: the two
   parsers of the ids in a Flux inventory. -/
namespace FluxInventory
open GoText GitOpsTree List

/-- An object as it goes into an inventory. Kubernetes lets no underscore into namespaces, groups and
   kinds; names may hold any character. -/
structure InventoryObject where
  namespace_ : String
  name : String
  group : String
  kind : String
  named : name ≠ ""
  kinded : kind ≠ ""
  namespace_plain : '_' ∉ namespace_.toList
  group_plain : '_' ∉ group.toList
  kind_plain : '_' ∉ kind.toList

/-- A name with its colons written as two underscores. -/
def transcoded (name : String) : String := replaceChar ':' "__" name

/-- The id cli-utils writes: namespace_name_group_kind. -/
def InventoryObject.id (o : InventoryObject) : String :=
  o.namespace_ ++ "_" ++ transcoded o.name ++ "_" ++ o.group ++ "_" ++ o.kind

def InventoryObject.ref (o : InventoryObject) : ResourceRef := ⟨o.group, o.kind, o.namespace_, o.name, ""⟩

def joined (parts : List String) : String := String.ofList (join '_' (parts.map String.toList))

def parseFluxInventoryID (id : String) : Option ResourceRef := let parts := split '_' id
  if parts.length < 4 then none
  else
    let kind := parts.getD (parts.length - 1) ""
    let group := parts.getD (parts.length - 2) ""
    let namespace_ := parts.getD 0 ""
    let name := joined ((parts.take (parts.length - 2)).drop 1)
    if kind = "" ∨ name = "" then none
    else some ⟨if group = "core" then "" else group, kind, namespace_, name, ""⟩

/-- An entry of an inventory: its id and its version. -/
structure InventoryEntry where
  id : String
  v : String

/-- The entries whose ids can be read, each with its version. -/
def parseFluxManagedResources (entries : List InventoryEntry) : List (ResourceRef × String) :=
  entries.filterMap fun entry => (parseFluxInventoryID entry.id).map fun ref => (ref, entry.v)

/-- What the topology builder takes from an id: namespace, name and kind. -/
def kustomizationEntry (id : String) : Option (String × String × String) := let parts := split '_' id
  if id = "" ∨ parts.length < 3 then none
  else some (parts.getD 0 "", parts.getD 1 "", parts.getD (parts.length - 1) "")

section Parts

theorem transcoded_chars (name : String) : (transcoded name).toList =
    name.toList.flatMap fun d => if d = ':' then ['_', '_'] else [d] := by
  rw [transcoded, replaceChar, String.toList_ofList]
  rfl

theorem colonless (name : String) : ':' ∉ (transcoded name).toList := by
  rw [transcoded_chars, mem_flatMap]
  rintro ⟨d, _, inside⟩
  by_cases colon : d = ':'
  · simp [colon] at inside
  · rw [if_neg colon, mem_singleton] at inside
    exact colon inside.symm

theorem transcoded_iff {name : String} : transcoded name = name ↔ ':' ∉ name.toList := by
  constructor
  · intro same
    rw [← same]
    exact colonless name
  · intro absent
    rw [← String.toList_inj, transcoded_chars]
    generalize name.toList = text at absent
    induction text with
    | nil => rfl
    | cons d rest ih =>
      obtain ⟨first, later⟩ := not_or.mp (mem_cons.not.mp absent)
      rw [flatMap_cons, if_neg (Ne.symm first), ih later]
      rfl

theorem transcoded_named {name : String} (named : name ≠ "") : transcoded name ≠ "" := by
  intro empty
  have chars := transcoded_chars name
  rw [empty] at chars
  cases text : name.toList with
  | nil => exact named (String.toList_inj.mp text)
  | cons d rest =>
    rw [text, flatMap_cons] at chars
    by_cases colon : d = ':'
    · rw [if_pos colon] at chars
      cases chars
    · rw [if_neg colon] at chars
      cases chars

theorem id_chars (o : InventoryObject) : o.id.toList =
    join '_' [o.namespace_.toList, (transcoded o.name).toList, o.group.toList, o.kind.toList] := by
  simp [InventoryObject.id, join, intercalate]

/-- The parts of an id: those of the written name between namespace, group and kind. -/
theorem id_parts (o : InventoryObject) : split '_' o.id =
    o.namespace_ :: (split '_' (transcoded o.name) ++ [o.group, o.kind]) := by
  rw [split, id_chars, split_join (cons_ne_nil _ _)]
  simp [splitOn_eq_singleton o.namespace_plain, splitOn_eq_singleton o.group_plain,
    splitOn_eq_singleton o.kind_plain, split]

theorem joined_split (s : String) : joined (split '_' s) = s := by
  rw [joined, split, map_map]
  have restored : (split '_' s).map String.toList = s.toList.splitOn '_' := by
    rw [split, map_map]
    simp [Function.comp_def]
  rw [split, map_map] at restored
  rw [restored, join, intercalate_splitOn, String.ofList_toList]

theorem split_some (s : String) : ∃ first rest, split '_' s = first :: rest := by
  apply exists_cons_of_ne_nil
  intro empty
  rw [split, map_eq_nil_iff] at empty
  exact splitOn_ne_nil _ _ empty

end Parts

section Reading
variable (o : InventoryObject)

/-- Whatever the name, the parser finds namespace and kind; of the name it gives the written form,
   and a group called core it takes for the legacy one. -/
theorem parse_id : parseFluxInventoryID o.id =
    some ⟨if o.group = "core" then "" else o.group, o.kind, o.namespace_, transcoded o.name, ""⟩ := by
  obtain ⟨first, rest, parts⟩ := split_some (transcoded o.name)
  have whole := joined_split (transcoded o.name)
  have some_ : ¬ (o.kind = "" ∨ transcoded o.name = "") := by
    rintro (kind | name)
    · exact o.kinded kind
    · exact transcoded_named o.named name
  have middle : ((o.namespace_ :: (split '_' (transcoded o.name) ++ [o.group, o.kind])).take
      ((split '_' (transcoded o.name)).length + 1)).drop 1 = split '_' (transcoded o.name) := by
    simp
  have long : ¬ (split '_' (transcoded o.name)).length + 3 < 4 := by
    rw [parts, length_cons]
    omega
  rw [parseFluxInventoryID, id_parts]
  simp only [length_cons, length_append, length_nil]
  rw [if_neg long]
  have last : (o.namespace_ :: (split '_' (transcoded o.name) ++ [o.group, o.kind])).getD
      ((split '_' (transcoded o.name)).length + 2) "" = o.kind := by simp [getD]
  have second : (o.namespace_ :: (split '_' (transcoded o.name) ++ [o.group, o.kind])).getD
      ((split '_' (transcoded o.name)).length + 1) "" = o.group := by simp [getD]
  simp only [Nat.zero_add, Nat.reduceAdd, Nat.reduceSubDiff, Nat.add_one_sub_one,
    last, second, middle, whole, if_neg some_, getD_cons_zero]

/-- No entry of an inventory is lost, whatever its name. -/
theorem managed_one_each (objects : List (InventoryObject × String)) :
    parseFluxManagedResources (objects.map fun (o, v) => ⟨o.id, v⟩) = objects.map fun (o, v) =>
      (⟨if o.group = "core" then "" else o.group, o.kind, o.namespace_, transcoded o.name, ""⟩, v) := by
  induction objects with
  | nil => rfl
  | cons object rest ih =>
    rw [map_cons, parseFluxManagedResources, filterMap_cons, parse_id]
    exact congrArg _ ih

theorem kustomization_entry : ∃ first rest, split '_' (transcoded o.name) = first :: rest ∧
    kustomizationEntry o.id = some (o.namespace_, first, o.kind) := by
  obtain ⟨first, rest, parts⟩ := split_some (transcoded o.name)
  refine ⟨first, rest, parts, ?_⟩
  have some_ : o.id ≠ "" := by
    intro empty
    have chars := id_chars o
    rw [empty] at chars
    have held : '_' ∈ ([] : List Char) := by
      rw [show ([] : List Char) = "".toList from rfl, chars]
      simp [join, intercalate]
    cases held
  rw [kustomizationEntry, id_parts, parts]
  simp [some_, getD]

/-- The first part of a written name is the name itself only where nothing was there to cut. -/
theorem first_part_iff {first : String} {rest : List String}
    (parts : split '_' (transcoded o.name) = first :: rest) :
    first = o.name ↔ ':' ∉ o.name.toList ∧ '_' ∉ o.name.toList := by
  have pieces : (transcoded o.name).toList.splitOn '_' = (first :: rest).map String.toList := by
    rw [← parts, split, map_map]
    simp [Function.comp_def]
  constructor
  · intro same
    have member : first.toList ∈ (transcoded o.name).toList.splitOn '_' := by
      rw [pieces, map_cons]
      exact mem_cons_self
    obtain ⟨plain, within⟩ := SlashPath.pieces_within member
    have absent : ':' ∉ first.toList := fun inside => colonless o.name (within inside)
    exact ⟨same ▸ absent, same ▸ plain⟩
  · rintro ⟨colon, underscore⟩
    have kept := transcoded_iff.mpr colon
    rw [kept, splitOn_eq_singleton underscore] at pieces
    have one := congrArg head? pieces
    simp only [head?_cons, map_cons, Option.some.injEq] at one
    exact (String.toList_inj.mp one).symm

/-- The inventory parser returns the object exactly when its name holds no colon and its group is not
   called core: the two underscores that stand for a colon are never read back. -/
theorem parser_exact : parseFluxInventoryID o.id = some o.ref ↔ ':' ∉ o.name.toList ∧ o.group ≠ "core" := by
  have group_iff : (if o.group = "core" then "" else o.group) = o.group ↔ o.group ≠ "core" := by
    by_cases core : o.group = "core"
    · simp [core]
    · simp [core]
  rw [parse_id, InventoryObject.ref, Option.some.injEq, ResourceRef.mk.injEq, group_iff, transcoded_iff]
  tauto

/-- The builder's pass takes the second part only, so an underscore in the name cuts it too. -/
theorem builder_exact : kustomizationEntry o.id = some (o.namespace_, o.name, o.kind) ↔
    ':' ∉ o.name.toList ∧ '_' ∉ o.name.toList := by
  obtain ⟨first, rest, parts, entry⟩ := kustomization_entry o
  rw [entry, ← first_part_iff o parts]
  simp

/-- Both parsers return the object that the id was written for exactly when its name holds neither a
   colon nor an underscore and its group is not called core. -/
theorem decoded_iff : parseFluxInventoryID o.id = some o.ref ∧
    kustomizationEntry o.id = some (o.namespace_, o.name, o.kind) ↔
      ':' ∉ o.name.toList ∧ '_' ∉ o.name.toList ∧ o.group ≠ "core" := by
  rw [parser_exact, builder_exact]
  tauto

end Reading

/-- A role of RBAC, as the cluster's own controllers have them. -/
def controllerRole : InventoryObject where
  namespace_ := ""
  name := "system:controller:foo"
  group := "rbac.authorization.k8s.io"
  kind := "ClusterRole"
  named := by decide
  kinded := by decide
  namespace_plain := by decide
  group_plain := by decide
  kind_plain := by decide

/-- The role's name comes back with underscores from the one parser and cut short from the other. -/
theorem controller_role_misread :
    controllerRole.id = "_system__controller__foo_rbac.authorization.k8s.io_ClusterRole" ∧
    parseFluxInventoryID controllerRole.id = some ⟨"rbac.authorization.k8s.io", "ClusterRole", "",
      "system__controller__foo", ""⟩ ∧
    kustomizationEntry controllerRole.id = some ("", "system", "ClusterRole") ∧
    parseFluxInventoryID controllerRole.id ≠ some controllerRole.ref := by
  decide +kernel

end FluxInventory
