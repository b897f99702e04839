import Radar.Base.WriteMap

/- packages/k8s-ui/src/utils/navigation.ts and pluralize.ts: the plural names and the kinds of resources, from a built-in table and
   the discovered API resources. The maps are plain objects, which answer for the names of their prototype too; of these two are
   in lower case. -/
namespace KindPlurals
open WriteMap List

section Model

/-- toLowerCase and toUpperCase. -/
structure Casing where
  lower : String → String
  upper : String → String
  settled : ∀ s, lower (lower s) = lower s
  empty : ∀ s, lower s = "" ↔ s = ""

structure APIResource where
  name : String
  kind : String

def builtinPluralToKind : List (String × String) :=
  [("pods", "Pod"), ("services", "Service"), ("endpoints", "Endpoints"), ("endpointslices", "EndpointSlice"),
    ("deployments", "Deployment"), ("daemonsets", "DaemonSet"), ("statefulsets", "StatefulSet"), ("replicasets", "ReplicaSet"),
    ("ingresses", "Ingress"), ("configmaps", "ConfigMap"), ("secrets", "Secret"), ("namespaces", "Namespace"), ("events", "Event"),
    ("nodes", "Node"), ("jobs", "Job"), ("cronjobs", "CronJob"), ("horizontalpodautoscalers", "HorizontalPodAutoscaler"),
    ("persistentvolumeclaims", "PersistentVolumeClaim"), ("persistentvolumes", "PersistentVolume"),
    ("storageclasses", "StorageClass"), ("poddisruptionbudgets", "PodDisruptionBudget"), ("roles", "Role"),
    ("clusterroles", "ClusterRole"), ("rolebindings", "RoleBinding"), ("clusterrolebindings", "ClusterRoleBinding"),
    ("serviceaccounts", "ServiceAccount"), ("networkpolicies", "NetworkPolicy")]

def inherited (key : String) : Bool := key == "constructor" || key == "__proto__"

/-- The `in` of the language. -/
def has (m : List (String × String)) (key : String) : Bool := (m.lookup key).isSome || inherited key

-- A text assigned as the prototype is dropped.
def assign (m : List (String × String)) (key value : String) : List (String × String) :=
  if key = "__proto__" then m else set m (key, value)

structure Maps where
  pluralToKind : List (String × String)
  kindToPlural : List (String × String)

variable (c : Casing)

def add (m : Maps) (r : APIResource) : Maps where
  pluralToKind :=
    if has m.pluralToKind (c.lower r.name) then m.pluralToKind else assign m.pluralToKind (c.lower r.name) r.kind
  kindToPlural := assign m.kindToPlural (c.lower r.kind) (c.lower r.name)

def endsIn (s : List Char) (ends : List String) : Bool := ends.any fun e => e.toList.isSuffixOf s

/-- The noun is in lower case. -/
def englishPlural (noun : String) : String := let s := noun.toList
  if endsIn s ["s", "x", "ch", "sh"] then noun ++ "es"
  else match s.reverse with
    | 'y' :: before :: _ =>
      if ['a', 'e', 'i', 'o', 'u'].contains before then noun ++ "s" else String.ofList s.dropLast ++ "ies"
    | _ => noun ++ "s"

def aliases : List (String × String) :=
  [("horizontalpodautoscaler", "horizontalpodautoscalers"), ("pvc", "persistentvolumeclaims"), ("podgroup", "pods")]

-- The names of the prototype have been answered before the second map is asked.
def kindToPlural (m : Maps) (kind : String) : String := let kindLower := c.lower kind
  if has m.pluralToKind kindLower then kindLower
  else match m.kindToPlural.lookup kindLower with
    | some plural => plural
    | none => (aliases.lookup kindLower).getD (englishPlural kindLower)

def singular (lower : List Char) : List Char :=
  if endsIn lower ["ies"] then lower.take (lower.length - 3) ++ ['y']
  else if endsIn lower ["ses", "xes", "ches", "shes"] then lower.take (lower.length - 2)
  else if endsIn lower ["s"] then lower.dropLast
  else lower

/-- The kind guessed from a plural; `none` where the empty text has no first character. -/
def guess (plural : String) : Option String := match plural.toList with
  | [] => none
  | first :: _ =>
    let head := String.singleton first
    if c.upper head = head ∧ c.lower head ≠ head then some plural
    else match singular (c.lower plural).toList with
      | [] => some ""
      | letter :: rest => some (c.upper (String.singleton letter) ++ String.ofList rest)

/-- `none` also where what is found is no text but a property of the prototype. -/
def pluralToKind (m : Maps) (plural : String) : Option String :=
  match m.pluralToKind.lookup (c.lower plural) with
  | some kind => if kind = "" then guess c plural else some kind
  | none => if inherited (c.lower plural) then none else guess c plural

end Model

section Statement

variable (c : Casing)

/-- The plurals in lower case and the kinds, of the table and of the resources. -/
def entries (resources : List APIResource) : List (String × String) :=
  builtinPluralToKind ++ resources.map fun r => (c.lower r.name, r.kind)

/-- Ignoring case, equal plurals mean equal kinds and equal kinds mean equal plurals. -/
def Consistent (resources : List APIResource) : Prop :=
  ∀ a ∈ entries c resources, ∀ b ∈ entries c resources, a.1 = b.1 ↔ c.lower a.2 = c.lower b.2

structure Discovery where
  resources : List APIResource
  consistent : Consistent c resources

variable {c}

/-- A discovered resource whose kind is not spelled like the plural of another one, and whose names are ordinary. -/
structure Discovery.Resource (d : Discovery c) extends APIResource where
  member : toAPIResource ∈ d.resources
  apart : ∀ a ∈ entries c d.resources, a.1 = c.lower kind → a.1 = c.lower name
  named : kind ≠ ""
  ordinary : inherited (c.lower name) = false ∧ inherited (c.lower kind) = false

variable (c)

end Statement

section Maps

variable {c : Casing}

end Maps

section Conclusion

variable {c : Casing} {d : Discovery c}

theorem toLower_settled (letter : Char) : letter.toLower.toLower = letter.toLower := by
  by_cases capital : letter.val ≥ 'A'.val ∧ letter.val ≤ 'Z'.val
  · have lowered : letter.toLower.val = letter.val + ('a'.val - 'A'.val) := by
      have taken : letter.toLower = ⟨_, _⟩ := dif_pos capital
      rw [taken]
    apply dif_neg
    rw [lowered]
    simp only [UInt32.le_iff_toNat_le, ge_iff_le, UInt32.toNat_add] at capital ⊢
    obtain ⟨low, high⟩ := capital
    simp at low high ⊢
    omega
  · have same : letter.toLower = letter := dif_neg capital
    rw [same, same]

/-- Lower and upper case within ASCII. -/
def asciiCasing : Casing where
  lower s := String.ofList (s.toList.map Char.toLower)
  upper s := String.ofList (s.toList.map Char.toUpper)
  settled s := by simp only [String.toList_ofList, List.map_map, Function.comp_def, toLower_settled]
  empty s := by simp

end Conclusion

end KindPlurals
