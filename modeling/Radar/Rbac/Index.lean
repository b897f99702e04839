import Radar.Base.Firsts
import Radar.Base.GoText
import Radar.Base.MultiMap

/- pkg/rbac/index.go: the reverse index over roles and bindings. -/
namespace Rbac
open Firsts GoText MultiMap

/-- A kind or a namespace: Kubernetes lets no slash into either. -/
structure Segment where
  text : String
  slashless : '/' ∉ text.toList
  deriving DecidableEq

def serviceAccountKind : Segment := ⟨"ServiceAccount", by decide⟩

def groupKind : Segment := ⟨"Group", by decide⟩

def roleKind : Segment := ⟨"Role", by decide⟩

def clusterRoleKind : Segment := ⟨"ClusterRole", by decide⟩

def roleBindingKind : Segment := ⟨"RoleBinding", by decide⟩

def clusterRoleBindingKind : Segment := ⟨"ClusterRoleBinding", by decide⟩

def noNamespace : Segment := ⟨"", by decide⟩

structure Subject where
  kind : Segment
  namespace_ : Segment
  name : String
  deriving DecidableEq

structure RoleRef where
  kind : Segment
  namespace_ : Segment
  name : String
  deriving DecidableEq

structure BindingRef where
  kind : Segment
  namespace_ : Segment
  name : String
  roleRef : RoleRef
  deriving DecidableEq

def keyOf (kind namespace_ : Segment) (name : String) : String :=
  kind.text ++ "/" ++ namespace_.text ++ "/" ++ name

def Subject.key (s : Subject) : String := keyOf s.kind s.namespace_ s.name

def RoleRef.key (r : RoleRef) : String := keyOf r.kind r.namespace_ r.name

structure PolicyRule where
  verbs : List String
  apiGroups : List String
  resources : List String
  resourceNames : List String
  nonResourceURLs : List String
  deriving DecidableEq

structure Role where
  namespace_ : Segment
  name : String
  rules : List PolicyRule

structure ClusterRole where
  name : String
  rules : List PolicyRule

/-- A binding's own reference to a role: its kind and name. -/
structure ApiRoleRef where
  kind : Segment
  name : String

structure RoleBinding where
  namespace_ : Segment
  name : String
  roleRef : ApiRoleRef
  subjects : List Subject

structure ClusterRoleBinding where
  name : String
  roleRef : ApiRoleRef
  subjects : List Subject

structure Index where
  bindingsBySubject : Map String BindingRef
  bindingsByRole : Map String BindingRef
  rolesByKey : AList fun _ : String => Role
  clusterRolesByKey : AList fun _ : String => ClusterRole
  roleBindingsByNamespace : Map String BindingRef

def roleRefFromAPI (r : ApiRoleRef) (bindingNS : Segment) : RoleRef :=
  ⟨r.kind, if r.kind = roleKind then bindingNS else noNamespace, r.name⟩

def RoleBinding.ref (rb : RoleBinding) : BindingRef :=
  ⟨roleBindingKind, rb.namespace_, rb.name, roleRefFromAPI rb.roleRef rb.namespace_⟩

def ClusterRoleBinding.ref (crb : ClusterRoleBinding) : BindingRef :=
  ⟨clusterRoleBindingKind, noNamespace, crb.name, roleRefFromAPI crb.roleRef noNamespace⟩

def Index.indexBinding (idx : Index) (ref : BindingRef) (subjects : List Subject) : Index := { idx with
    bindingsByRole := push idx.bindingsByRole ref.roleRef.key ref
    bindingsBySubject := pushAll idx.bindingsBySubject (subjects.map fun s => (s.key, ref)) }

def Index.addRole (idx : Index) (r : Role) : Index :=
  { idx with rolesByKey := idx.rolesByKey.insert (keyOf roleKind r.namespace_ r.name) r }

def Index.addClusterRole (idx : Index) (cr : ClusterRole) : Index := { idx with
    clusterRolesByKey := idx.clusterRolesByKey.insert (keyOf clusterRoleKind noNamespace cr.name) cr }

def Index.addRoleBinding (idx : Index) (rb : RoleBinding) : Index :=
  let indexed := idx.indexBinding rb.ref rb.subjects
  if rb.namespace_.text = "" then indexed
  else
    { indexed with
      roleBindingsByNamespace := push indexed.roleBindingsByNamespace rb.namespace_.text rb.ref }

def Index.addClusterRoleBinding (idx : Index) (crb : ClusterRoleBinding) : Index :=
  idx.indexBinding crb.ref crb.subjects

/-- The four listers' answers; a nil entry is skipped. -/
def buildIndex (roles : List (Option Role)) (clusterRoles : List (Option ClusterRole))
    (roleBindings : List (Option RoleBinding))
    (clusterRoleBindings : List (Option ClusterRoleBinding)) : Index :=
  let withRoles := roles.reduceOption.foldl Index.addRole ⟨∅, ∅, ∅, ∅, ∅⟩
  let withClusterRoles := clusterRoles.reduceOption.foldl Index.addClusterRole withRoles
  let withBindings := roleBindings.reduceOption.foldl Index.addRoleBinding withClusterRoles
  clusterRoleBindings.reduceOption.foldl Index.addClusterRoleBinding withBindings

structure BindingRules where
  binding : BindingRef
  role : RoleRef
  rules : List PolicyRule
  scopeNamespace : String
  inheritedFromGroup : String
  deriving DecidableEq

structure EffectiveRules where
  subject : Subject
  viaBindings : List BindingRules
  flat : List PolicyRule
  truncated : Bool

def maxFlatRules : Nat := 500

def Index.rulesOf (idx : Index) (r : RoleRef) : List PolicyRule :=
  if r.kind = roleKind then ((idx.rolesByKey.lookup r.key).map Role.rules).getD []
  else if r.kind = clusterRoleKind then
    ((idx.clusterRolesByKey.lookup r.key).map ClusterRole.rules).getD []
  else []

def Index.expand (idx : Index) (ref : BindingRef) (inheritedFromGroup : String) : BindingRules :=
  { binding := ref
    role := ref.roleRef
    rules := idx.rulesOf ref.roleRef
    scopeNamespace :=
      if ref.kind = roleBindingKind ∧ ref.roleRef.kind = clusterRoleKind then ref.namespace_.text
      else ""
    inheritedFromGroup := inheritedFromGroup }

def implicitGroupsForSA (namespace_ : String) : List String :=
  ["system:authenticated", "system:serviceaccounts", "system:serviceaccounts:" ++ namespace_]

def groupSubject (group : String) : Subject := ⟨groupKind, noNamespace, group⟩

def Index.viaBindings (idx : Index) (s : Subject) : List BindingRules :=
  let direct := (values idx.bindingsBySubject s.key).map fun ref => idx.expand ref ""
  if s.kind = serviceAccountKind then
    direct ++ (implicitGroupsForSA s.namespace_.text).flatMap fun group =>
      (values idx.bindingsBySubject (groupSubject group).key).map fun ref => idx.expand ref group
  else direct

def sorted (texts : List String) : List String := texts.mergeSort fun a b => decide (a ≤ b)

def writeSorted (texts : List String) : List Char := join ',' ((sorted texts).map String.toList)

def ruleSignature (r : PolicyRule) : List Char :=
  join '|' [writeSorted r.verbs, writeSorted r.apiGroups, writeSorted r.resources,
    writeSorted r.resourceNames, writeSorted r.nonResourceURLs]

def flattenLoop (max : Nat) (seen : List (List Char)) (out : List PolicyRule) :
    List PolicyRule → List PolicyRule × Bool
  | [] => (out, false)
  | r :: rest =>
    let sig := ruleSignature r
    if sig ∈ seen then flattenLoop max seen out rest
    else if max ≤ (out ++ [r]).length then (out ++ [r], true)
    else flattenLoop max (sig :: seen) (out ++ [r]) rest

def flatten (via : List BindingRules) (max : Nat) : List PolicyRule × Bool :=
  flattenLoop max [] [] (via.flatMap BindingRules.rules)

def Index.effectiveRules (idx : Index) (s : Subject) : EffectiveRules := let via := idx.viaBindings s
  let flattened := flatten via maxFlatRules
  ⟨s, via, flattened.1, flattened.2⟩

structure NamespaceBindings where
  roleBindings : List BindingRef
  clusterRoleBindingsWithLocalSubject : List BindingRef

/-- The map of subjects is visited in the order of the given keys. -/
def Index.bindingsInNamespace (idx : Index) (order : List String) (namespace_ : Segment) :
    NamespaceBindings :=
  if namespace_.text = "" then ⟨[], []⟩
  else
    { roleBindings := values idx.roleBindingsByNamespace namespace_.text
      clusterRoleBindingsWithLocalSubject := firsts (fun ref => ref.kind.text ++ "/" ++ ref.name) []
          (order.flatMap fun key => if hasPrefix key ("ServiceAccount/" ++ namespace_.text ++ "/") then
              (values idx.bindingsBySubject key).filter fun ref =>
                decide (ref.kind = clusterRoleBindingKind)
            else []) }

end Rbac
