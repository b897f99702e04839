import Mathlib.Data.Nat.Find
import Radar.Base.Sweep
import Radar.Topology.PodGrouping

/- addGenericCRDNodes of pkg/topology/builder.go: the custom resources that are connected to a graph
   through their owner references. -/
namespace GenericCrds
open Topology GoText Runs List

def maxPerKind : Nat := 50

/-- The kinds that other parts of the builder handle or that the topology leaves out. -/
def processedKinds : List String :=
  ["rollout", "application", "kustomization", "helmrelease", "gitrepository", "certificate",
    "gateway", "httproute", "grpcroute", "tcproute", "tlsroute", "nodepool", "nodeclaim",
    "ec2nodeclass", "aksnodeclass", "gcenodeclass", "scaledobject", "scaledjob", "gatewayclass",
    "virtualservice", "destinationrule", "serviceentry", "peerauthentication",
    "authorizationpolicy", "knativeservice", "configuration", "revision", "route",
    "domainmapping", "serverlessservice", "broker", "trigger", "eventtype", "channel",
    "inmemorychannel", "subscription", "apiserversource", "containersource", "pingsource",
    "sinkbinding", "sequence", "parallel", "ingressroute", "ingressroutetcp", "ingressrouteudp",
    "middleware", "middlewaretcp", "traefikservice", "serverstransport", "serverstransporttcp",
    "tlsoption", "tlsstore", "httpproxy", "clusterclass", "machine", "machineset",
    "machinedeployment", "machinepool", "kubeadmcontrolplane", "machinehealthcheck",
    "machinedrainrule", "vulnerabilityreport", "configauditreport", "exposedsecretreport",
    "sbomreport", "rbacassessmentreport", "clusterrbacassessmentreport",
    "clustercompliancereport", "clustersbomreport", "infraassessmentreport",
    "clusterinfraassessmentreport", "deployment", "daemonset", "statefulset", "replicaset",
    "pod", "service", "ingress", "job", "cronjob", "configmap", "secret",
    "persistentvolumeclaim", "horizontalpodautoscaler", "namespace"]

/-- A resource of a custom kind; `status` is what extractGenericStatus reads off it. -/
structure CustomResource where
  namespace_ : String
  name : String
  ownerReferences : List PodGrouping.OwnerReference
  labels : String
  apiVersion : String
  status : HealthStatus

/-- A resource type under watch: the kind discovery gives it, whether it is a custom one, and what
   the listing of its resources returns, `none` for an error. -/
structure WatchedResource where
  kind : String
  isCRD : Bool
  resources : Option (List CustomResource)

structure Candidate where
  node : Node
  ownerRefs : List String
  deriving DecidableEq

variable {c : Candidate}

def Candidate.nodeID (c : Candidate) : String := c.node.id

def resourceID (kindLower ns name : String) : String := kindLower ++ "/" ++ ns ++ "/" ++ name

section Collect
variable (lowering : Lowering) (opts : BuildOptions) (existing : List String)

def candidateOf (kind : String) (resource : CustomResource) : Option Candidate :=
  let ns := resource.namespace_
  let nodeID := resourceID (lowering.toLower kind) ns resource.name
  if !opts.matchesNamespaceFilter ns then none
  else if resource.ownerReferences.length = 0 then none
  else if existing.contains nodeID then none
  else some
    { node := ⟨nodeID, kind, resource.name, resource.status,
        some [("namespace", .text ns), ("labels", .other resource.labels),
          ("apiVersion", .text resource.apiVersion)]⟩
      ownerRefs := resource.ownerReferences.map fun ref =>
        resourceID (lowering.toLower ref.kind) ns ref.name }

/-- The candidates of every resource type, each kind once; `processed` are the kinds passed over. -/
def collect (processed : List String) : List WatchedResource → List Candidate
  | [] => []
  | watched :: rest =>
    let kindLower := lowering.toLower watched.kind
    if watched.kind = "" ∨ kindLower ∈ processed ∨ watched.isCRD = false then collect processed rest
    else (watched.resources.getD []).filterMap (candidateOf lowering opts existing watched.kind) ++
      collect (kindLower :: processed) rest

end Collect

section Resolve

def ownerEdge (ownerID : String) (c : Candidate) : Edge :=
  ⟨ownerID ++ "-to-" ++ c.nodeID, ownerID, c.nodeID, .manages, "", "", ""⟩

def ownerEdges (existing : List String) (c : Candidate) : List Edge :=
  (c.ownerRefs.filter fun ownerID => existing.contains ownerID).map fun ownerID => ownerEdge ownerID c

structure Resolution where
  nodes : List Node
  edges : List Edge
  existingIDs : List String
  crdCounts : String → Nat

variable (lowering : Lowering)

def kindLower (c : Candidate) : String := lowering.toLower c.node.kind

def add (st : Resolution) (c : Candidate) : Resolution where
  nodes := st.nodes ++ [c.node]
  edges := st.edges ++ ownerEdges st.existingIDs c
  existingIDs := st.existingIDs ++ [c.nodeID]
  crdCounts := fun kind => if kind = kindLower lowering c then st.crdCounts kind + 1 else st.crdCounts kind

structure Round where
  st : Resolution
  remaining : List Candidate
  added : Nat

/-- One candidate of a round: dropped, taken up or left for the next round. -/
def resolveOne (r : Round) (c : Candidate) : Round :=
  if maxPerKind ≤ r.st.crdCounts (kindLower lowering c) then r
  else if 0 < (ownerEdges r.st.existingIDs c).length then
    { r with st := add lowering r.st c, added := r.added + 1 }
  else { r with remaining := r.remaining ++ [c] }

def resolveRound (st : Resolution) (candidates : List Candidate) : Round :=
  candidates.foldl (resolveOne lowering) ⟨st, [], 0⟩

/-- The rounds until one adds nothing, `none` where more would have been needed. -/
def resolve : Nat → Resolution → List Candidate → Option Resolution
  | 0, _, _ => none
  | n + 1, st, candidates =>
    let r := resolveRound lowering st candidates
    if r.added = 0 then some r.st else resolve n r.st r.remaining

def start (g : Graph) : Resolution := ⟨g.nodes, g.edges, g.nodes.map Node.id, fun _ => 0⟩

def addCandidates (g : Graph) (candidates : List Candidate) : Option Graph :=
  (resolve lowering (candidates.length + 1) (start g) candidates).map fun st => ⟨st.nodes, st.edges⟩

def addGenericCRDNodes (g : Graph) (opts : BuildOptions) (watched : List WatchedResource) : Option Graph :=
  addCandidates lowering g (collect lowering opts (g.nodes.map Node.id) processedKinds watched)

/-- A round hands on no more candidates than it was given, less those it added. -/
theorem round_length (r : Round) (candidates : List Candidate) :
    (candidates.foldl (resolveOne lowering) r).remaining.length +
      (candidates.foldl (resolveOne lowering) r).added ≤
        r.remaining.length + r.added + candidates.length := by
  induction candidates generalizing r with
  | nil => rw [foldl_nil, length_nil, Nat.add_zero]
  | cons c rest ih =>
    have one : (resolveOne lowering r c).remaining.length + (resolveOne lowering r c).added ≤
        r.remaining.length + r.added + 1 := by
      rw [resolveOne]
      split
      · omega
      · split
        · simp only
          omega
        · simp only [length_append, length_singleton]
          omega
    have later := ih (resolveOne lowering r c)
    rw [foldl_cons, length_cons]
    omega

theorem resolve_stops {n : Nat} {st : Resolution} {candidates : List Candidate}
    (enough : candidates.length < n) : ∃ t, resolve lowering n st candidates = some t := by
  induction n generalizing st candidates with
  | zero => exact absurd enough (Nat.not_lt_zero _)
  | succ n ih =>
    rw [resolve]
    by_cases idle : (resolveRound lowering st candidates).added = 0
    · rw [if_pos idle]
      exact ⟨_, rfl⟩
    · rw [if_neg idle]
      have lengths : (resolveRound lowering st candidates).remaining.length +
          (resolveRound lowering st candidates).added ≤ 0 + 0 + candidates.length :=
        round_length lowering ⟨st, [], 0⟩ candidates
      exact ih (by omega)

/-- The discovery stops, whatever the candidates and above the caps too. -/
theorem discovery_stops (g : Graph) (opts : BuildOptions) (watched : List WatchedResource) :
    ∃ result, addGenericCRDNodes lowering g opts watched = some result := by
  obtain ⟨t, stopped⟩ := resolve_stops lowering (Nat.lt_succ_self
    (collect lowering opts (g.nodes.map Node.id) processedKinds watched).length)
  rw [addGenericCRDNodes, addCandidates, stopped]
  exact ⟨_, rfl⟩

end Resolve

variable {t : Resolution} {e : Edge}

section Rounds
variable (lowering : Lowering)

/-- A candidate taken up where one of its owners is there. -/
def take (st : Resolution) (c : Candidate) : Option Resolution :=
  if 0 < (ownerEdges st.existingIDs c).length then some (add lowering st c) else none

/-- The candidates still to come leave every kind below its cap. -/
def Roomy (st : Resolution) (candidates : List Candidate) : Prop :=
  ∀ kind, st.crdCounts kind + candidates.countP (fun c => kindLower lowering c == kind) ≤ maxPerKind

variable {lowering} {st : Resolution} {rest : List Candidate}

theorem ready_iff : 0 < (ownerEdges st.existingIDs c).length ↔ ∃ o ∈ c.ownerRefs, o ∈ st.existingIDs := by
  rw [ownerEdges, length_map, length_pos_iff_exists_mem]
  simp

theorem take_some (taken : take lowering st c = some t) :
    t = add lowering st c ∧ ∃ o ∈ c.ownerRefs, o ∈ st.existingIDs := by
  rw [take] at taken
  by_cases ready : 0 < (ownerEdges st.existingIDs c).length
  · rw [if_pos ready, Option.some.injEq] at taken
    exact ⟨taken.symm, ready_iff.mp ready⟩
  · rw [if_neg ready] at taken
    cases taken

theorem take_none : take lowering st c = none ↔ ∀ o ∈ c.ownerRefs, o ∉ st.existingIDs := by
  rw [take]
  by_cases ready : 0 < (ownerEdges st.existingIDs c).length
  · rw [if_pos ready]
    obtain ⟨o, owner, there⟩ := ready_iff.mp ready
    constructor
    · intro none_
      cases none_
    · intro absent
      exact absurd there (absent o owner)
  · rw [if_neg ready]
    constructor
    · intro _ o owner there
      exact ready (ready_iff.mpr ⟨o, owner, there⟩)
    · intro _
      rfl

theorem roomy_take (roomy : Roomy lowering st (c :: rest))
    (taken : take lowering st c = some t) : Roomy lowering t rest := by
  intro kind
  have bound := roomy kind
  obtain ⟨rfl, _⟩ := take_some taken
  simp only [add]
  rw [countP_cons] at bound
  by_cases own : kind = kindLower lowering c
  · rw [if_pos own]
    simp only [own, beq_self_eq_true, if_true] at bound ⊢
    omega
  · rw [if_neg own]
    omega

theorem roomy_rest (roomy : Roomy lowering st (c :: rest)) : Roomy lowering st rest := by
  intro kind
  have bound := roomy kind
  rw [countP_cons] at bound
  omega

theorem roomy_below (roomy : Roomy lowering st (c :: rest)) :
    ¬ maxPerKind ≤ st.crdCounts (kindLower lowering c) := by
  have bound := roomy (kindLower lowering c)
  rw [countP_cons, if_pos (beq_self_eq_true _)] at bound
  omega

theorem roomy_run {taken rest : List Candidate}
    (roomy : Roomy lowering st (taken ++ rest)) (run : exec (take lowering) st taken = some t) :
    Roomy lowering t rest := by
  induction taken generalizing st with
  | nil =>
    cases run
    exact roomy
  | cons first more ih =>
    obtain ⟨u, step, later⟩ := exec_cons run
    exact ih (roomy_take roomy step) later

theorem roomy_perm {cs ds : List Candidate} (perm : cs.Perm ds) (roomy : Roomy lowering st ds) :
    Roomy lowering st cs := by
  intro kind
  rw [perm.countP_eq]
  exact roomy kind

/-- Below the caps a round is a pass that takes up what is ready. -/
theorem round_pass {cs : List Candidate} (roomy : Roomy lowering st cs) (left : List Candidate)
    (n : Nat) : cs.foldl (resolveOne lowering) ⟨st, left, n⟩ =
      ⟨(Sweep.pass (take lowering) st cs).state, left ++ (Sweep.pass (take lowering) st cs).left,
        n + (Sweep.pass (take lowering) st cs).added⟩ := by
  induction cs generalizing st left n with
  | nil =>
    rw [foldl_nil, Sweep.pass, append_nil, Nat.add_zero]
  | cons c rest ih =>
    rw [foldl_cons, resolveOne, if_neg (roomy_below roomy)]
    cases step : take lowering st c with
    | some t =>
      obtain ⟨same, owned⟩ := take_some step
      rw [if_pos (ready_iff.mpr owned), ← same, ih (roomy_take roomy step), Sweep.pass_taken step]
      simp only [Round.mk.injEq, true_and]
      omega
    | none =>
      have unready : ¬ 0 < (ownerEdges st.existingIDs c).length := by
        intro ready
        obtain ⟨o, owner, there⟩ := ready_iff.mp ready
        exact take_none.mp step o owner there
      rw [if_neg unready, ih (roomy_rest roomy), Sweep.pass_left step]
      simp

theorem resolve_passes {n : Nat} {cs : List Candidate} (roomy : Roomy lowering st cs) :
    resolve lowering n st cs = (Sweep.passes (take lowering) n st cs).map Sweep.Pass.state := by
  induction n generalizing st cs with
  | zero => rfl
  | succ n ih =>
    obtain ⟨taken, run, whole, _⟩ := @Sweep.pass_run _ _ (take lowering) st cs
    rw [resolve, resolveRound, round_pass roomy, Sweep.passes, Nat.zero_add, nil_append]
    by_cases idle : (Sweep.pass (take lowering) st cs).added = 0
    · rw [if_pos idle, if_pos idle]
      rfl
    · rw [if_neg idle, if_neg idle]
      exact ih (roomy_run (roomy_perm whole roomy) run)

end Rounds

section Runs
variable {lowering : Lowering} {st : Resolution} {taken : List Candidate}

/-- The edges of candidates taken up in order: each has those from the owners there before it. -/
def edgesAlong (existing : List String) : List Candidate → List Edge
  | [] => []
  | c :: rest => ownerEdges existing c ++ edgesAlong (existing ++ [c.nodeID]) rest

theorem run_adds (run : exec (take lowering) st taken = some t) :
    t.nodes = st.nodes ++ taken.map Candidate.node ∧
    t.edges = st.edges ++ edgesAlong st.existingIDs taken ∧
    t.existingIDs = st.existingIDs ++ taken.map Candidate.nodeID := by
  induction taken generalizing st with
  | nil =>
    cases run
    simp [edgesAlong]
  | cons c rest ih =>
    obtain ⟨u, step, later⟩ := exec_cons run
    obtain ⟨rfl, _⟩ := take_some step
    obtain ⟨nodes, edges, ids⟩ := ih later
    rw [nodes, edges, ids]
    simp [add, edgesAlong]

theorem mem_owner_edges {existing : List String} :
    e ∈ ownerEdges existing c ↔ ∃ o ∈ c.ownerRefs, o ∈ existing ∧ e = ownerEdge o c := by
  rw [ownerEdges, mem_map]
  constructor
  · rintro ⟨o, member, rfl⟩
    obtain ⟨owner, there⟩ := mem_filter.mp member
    exact ⟨o, owner, contains_iff_mem.mp there, rfl⟩
  · rintro ⟨o, owner, there, rfl⟩
    exact ⟨o, mem_filter.mpr ⟨owner, contains_iff_mem.mpr there⟩, rfl⟩

theorem mem_edges_along {existing : List String} : e ∈ edgesAlong existing taken ↔
    ∃ before c after, taken = before ++ c :: after ∧
      e ∈ ownerEdges (existing ++ before.map Candidate.nodeID) c := by
  induction taken generalizing existing with
  | nil => simp [edgesAlong]
  | cons first rest ih =>
    rw [edgesAlong, mem_append, ih]
    constructor
    · rintro (own | ⟨before, c, after, rfl, inside⟩)
      · exact ⟨[], first, rest, rfl, by simpa using own⟩
      · exact ⟨first :: before, c, after, rfl, by simpa using inside⟩
    · rintro ⟨before, c, after, whole, inside⟩
      cases before with
      | nil =>
        obtain ⟨rfl, rfl⟩ := cons.inj whole
        exact Or.inl (by simpa using inside)
      | cons head more =>
        obtain ⟨rfl, rfl⟩ := cons.inj whole
        exact Or.inr ⟨more, c, after, rfl, by simpa using inside⟩

/-- A candidate taken up has an owner in the graph or among those taken up before it. -/
theorem run_ready {before after : List Candidate}
    (run : exec (take lowering) st (before ++ c :: after) = some t) :
    ∃ o ∈ c.ownerRefs, o ∈ st.existingIDs ++ before.map Candidate.nodeID := by
  obtain ⟨u, first, later⟩ := exec_split run
  obtain ⟨v, step, _⟩ := exec_cons later
  rw [← (run_adds first).2.2]
  exact (take_some step).2

end Runs

section Connected
variable (g : Graph) (cs : List Candidate)

def existingIDs : List String := g.nodes.map Node.id

/-- The candidates connected to the graph through owner references. -/
inductive Connected : Candidate → Prop where
  | existing (c : Candidate) (member : c ∈ cs) (o : String) (owner : o ∈ c.ownerRefs)
      (there : o ∈ existingIDs g) : Connected c
  | candidate (c : Candidate) (member : c ∈ cs) (d : Candidate) (connected : Connected d)
      (owner : d.nodeID ∈ c.ownerRefs) : Connected c

/-- A node of the final graph. -/
def Final (o : String) : Prop := o ∈ existingIDs g ∨ ∃ d, Connected g cs d ∧ d.nodeID = o

variable {g cs}

theorem connected_mem (connected : Connected g cs c) : c ∈ cs := by
  cases connected with
  | existing _ member => exact member
  | candidate _ member => exact member

/-- A candidate with an owner in the final graph is connected. -/
theorem owned_connected (member : c ∈ cs) {o : String} (owner : o ∈ c.ownerRefs)
    (final : Final g cs o) : Connected g cs c := by
  cases final with
  | inl there => exact .existing c member o owner there
  | inr other =>
    obtain ⟨d, connected, rfl⟩ := other
    exact .candidate c member d connected owner

/-- Only connected candidates are ever taken up. -/
theorem run_connected {lowering : Lowering} {st t : Resolution} {taken : List Candidate}
    (run : exec (take lowering) st taken = some t) (inside : taken ⊆ cs)
    (finals : ∀ o ∈ st.existingIDs, Final g cs o) : ∀ c ∈ taken, Connected g cs c := by
  induction taken generalizing st with
  | nil =>
    intro c member
    cases member
  | cons first rest ih =>
    obtain ⟨u, step, later⟩ := exec_cons run
    obtain ⟨rfl, o, owner, there⟩ := take_some step
    have connected : Connected g cs first :=
      owned_connected (inside mem_cons_self) owner (finals o there)
    have behind : ∀ o ∈ (add lowering st first).existingIDs, Final g cs o := by
      intro o there
      cases mem_append.mp there with
      | inl before => exact finals o before
      | inr own => exact Or.inr ⟨first, connected, (mem_singleton.mp own).symm⟩
    exact forall_mem_cons.mpr
      ⟨connected, ih later (fun c member => inside (mem_cons_of_mem first member)) behind⟩

/-- A run over candidates after which nothing that is left is ready takes up the connected ones. -/
theorem run_exact {lowering : Lowering} {taken left : List Candidate}
    (run : exec (take lowering) (start g) taken = some t) (whole : (taken ++ left).Perm cs)
    (unready : ∀ c ∈ left, take lowering t c = none) :
    c ∈ taken ↔ Connected g cs c := by
  have ids := (run_adds run).2.2
  have absent : ∀ c ∈ left, ∀ o ∈ c.ownerRefs, o ∉ existingIDs g ++ taken.map Candidate.nodeID := by
    intro c member
    have none_ := take_none.mp (unready c member)
    rw [ids] at none_
    exact none_
  constructor
  · intro member
    apply run_connected run _ _ c member
    · exact fun d inside => whole.subset (mem_append_left left inside)
    · exact fun o there => Or.inl there
  · intro connected
    induction connected with
    | existing c member o owner there =>
      cases mem_append.mp (whole.symm.subset member) with
      | inl done => exact done
      | inr late => exact absurd (mem_append_left _ there) (absent c late o owner)
    | candidate c member d _ owner ih =>
      cases mem_append.mp (whole.symm.subset member) with
      | inl done => exact done
      | inr late =>
        have there : d.nodeID ∈ existingIDs g ++ taken.map Candidate.nodeID :=
          mem_append_right _ (mem_map_of_mem ih)
        exact absurd there (absent c late d.nodeID owner)

end Connected

section Places
variable {α κ : Type} {key : α → κ}

/-- Where keys are distinct, an element has one place. -/
theorem place_unique {before before' after after' : List α} {x y : α}
    (distinct : ((before ++ x :: after).map key).Nodup) (same : key x = key y)
    (whole : before ++ x :: after = before' ++ y :: after') : before = before' := by
  induction before generalizing before' with
  | nil =>
    cases before' with
    | nil => rfl
    | cons first more =>
      obtain ⟨rfl, rfl⟩ := cons.inj whole
      rw [nil_append, map_cons, nodup_cons] at distinct
      exact absurd (mem_map.mpr ⟨y, by simp, same.symm⟩) distinct.1
  | cons first more ih =>
    rw [cons_append, map_cons, nodup_cons] at distinct
    cases before' with
    | nil =>
      obtain ⟨rfl, rfl⟩ := cons.inj whole
      exact absurd (mem_map.mpr ⟨x, by simp, same⟩) distinct.1
    | cons first' more' =>
      obtain ⟨rfl, rest⟩ := cons.inj whole
      rw [ih distinct.2 rest]

/-- Distinct elements of a list can be brought to its front in any order. -/
theorem front_perm {front whole : List α} (distinct : front.Nodup) (inside : front ⊆ whole) :
    ∃ rest, (front ++ rest).Perm whole := by
  obtain ⟨part, perm, sub⟩ := subperm_of_subset distinct inside
  obtain ⟨rest, all⟩ := sub.exists_perm_append
  exact ⟨rest, (perm.symm.append_right rest).trans all.symm⟩

end Places

section Discovery
variable {lowering : Lowering} {g : Graph}

/-- Candidates as they are collected: of distinct identifiers, none of them in the graph, and no more
   of a kind than its cap. -/
structure Candidates (lowering : Lowering) (g : Graph) where
  list : List Candidate
  distinct : (list.map Candidate.nodeID).Nodup
  fresh : ∀ c ∈ list, c.nodeID ∉ existingIDs g
  capped : ∀ kind, list.countP (fun c => kindLower lowering c == kind) ≤ maxPerKind

/-- The edge comes from an owner in the final graph and leads to a connected candidate. -/
def Owed (g : Graph) (cs : List Candidate) (e : Edge) : Prop :=
  ∃ c, Connected g cs c ∧ ∃ o ∈ c.ownerRefs, Final g cs o ∧ e = ownerEdge o c

/-- What the discovery promises of the nodes and edges that it adds for a list of candidates. -/
structure RightFixpoint (lowering : Lowering) (g : Graph) (cs : List Candidate) (nodes : List Node)
    (edges : List Edge) : Prop where
  added : addCandidates lowering g cs = some ⟨g.nodes ++ nodes, g.edges ++ edges⟩
  once : (nodes.map Node.id).Nodup
  connected : ∀ n, n ∈ nodes ↔ ∃ c, Connected g cs c ∧ c.node = n
  truthful : ∀ e ∈ edges, Owed g cs e
  complete : ∀ e, Owed g cs e → e ∈ edges
  orderless : ∀ other : List Candidate, other.Perm cs → ∃ nodes' edges',
    addCandidates lowering g other = some ⟨g.nodes ++ nodes', g.edges ++ edges'⟩ ∧
    (∀ n, n ∈ nodes' ↔ n ∈ nodes) ∧ ∀ e, e ∈ edges' ↔ e ∈ edges

variable (candidates : Candidates lowering g)

/-- In every order the discovery stops, and what it took up is connected and complete; where the order
   begins with what can be taken up, this is taken up first. -/
theorem resolved {front rest : List Candidate} {u : Resolution}
    (perm : (front ++ rest).Perm candidates.list)
    (run : exec (take lowering) (start g) front = some u) : ∃ taken,
      (∃ t, exec (take lowering) (start g) (front ++ taken) = some t) ∧
      ((front ++ taken).map Candidate.nodeID).Nodup ∧
      (∀ c, c ∈ front ++ taken ↔ Connected g candidates.list c) ∧
      addCandidates lowering g (front ++ rest) = some ⟨g.nodes ++ (front ++ taken).map Candidate.node,
        g.edges ++ edgesAlong (existingIDs g) (front ++ taken)⟩ := by
  have roomy : Roomy lowering (start g) (front ++ rest) := by
    intro kind
    rw [perm.countP_eq]
    have bound := candidates.capped kind
    simp only [start]
    omega
  obtain ⟨p, stopped⟩ := Sweep.passes_stop (Nat.lt_succ_self (front ++ rest).length)
  obtain ⟨taken, later, whole, unready⟩ := Sweep.passes_front run stopped
  have all : exec (take lowering) (start g) (front ++ taken) = some p.state := by
    rw [exec_append run, later]
  have cover : ((front ++ taken) ++ p.left).Perm candidates.list := by
    rw [append_assoc]
    exact (whole.append_left front).trans perm
  obtain ⟨nodes, edges, _⟩ := run_adds all
  refine ⟨taken, ⟨p.state, all⟩, ?_, fun c => run_exact all cover unready, ?_⟩
  · have distinct := (cover.map Candidate.nodeID).nodup_iff.mpr candidates.distinct
    rw [map_append] at distinct
    exact distinct.of_append_left
  · rw [addCandidates, resolve_passes roomy, stopped, Option.map_some, Option.map_some, nodes, edges]
    rfl

theorem resolved_order {order : List Candidate} (perm : order.Perm candidates.list) : ∃ taken,
    (∃ t, exec (take lowering) (start g) taken = some t) ∧
    (taken.map Candidate.nodeID).Nodup ∧
    (∀ c, c ∈ taken ↔ Connected g candidates.list c) ∧
    addCandidates lowering g order = some ⟨g.nodes ++ taken.map Candidate.node,
      g.edges ++ edgesAlong (existingIDs g) taken⟩ := by
  have nothing : exec (take lowering) (start g) [] = some (start g) := rfl
  have whole := resolved candidates (perm : ([] ++ order).Perm candidates.list) nothing
  simpa only [nil_append] using whole

theorem along_owed {cs taken : List Candidate} (exact_ : ∀ c, c ∈ taken ↔ Connected g cs c)
    (inside : e ∈ edgesAlong (existingIDs g) taken) : Owed g cs e := by
  obtain ⟨before, c, after, rfl, own⟩ := mem_edges_along.mp inside
  obtain ⟨o, owner, there, rfl⟩ := mem_owner_edges.mp own
  refine ⟨c, (exact_ c).mp (by simp), o, owner, ?_, rfl⟩
  cases mem_append.mp there with
  | inl existing => exact Or.inl existing
  | inr earlier =>
    obtain ⟨d, member, same⟩ := mem_map.mp earlier
    exact Or.inr ⟨d, (exact_ d).mp (mem_append_left _ member), same⟩

/-- All owners that a candidate has in the final graph were there before, or they are one candidate. -/
def OneSource (g : Graph) (cs : List Candidate) (c : Candidate) : Prop :=
  ∀ o ∈ c.ownerRefs, Final g cs o → o ∉ existingIDs g → ∀ p ∈ c.ownerRefs, Final g cs p → p = o

theorem owed_along {cs taken : List Candidate} (run : exec (take lowering) (start g) taken = some t)
    (exact_ : ∀ c, c ∈ taken ↔ Connected g cs c)
    (single : ∀ c, Connected g cs c → OneSource g cs c) (owed : Owed g cs e) :
    e ∈ edgesAlong (existingIDs g) taken := by
  obtain ⟨c, connected, o, owner, final, rfl⟩ := owed
  obtain ⟨before, after, rfl⟩ := append_of_mem ((exact_ c).mpr connected)
  apply mem_edges_along.mpr
  refine ⟨before, c, after, rfl, mem_owner_edges.mpr ⟨o, owner, ?_, rfl⟩⟩
  by_cases existing : o ∈ existingIDs g
  · exact mem_append_left _ existing
  · obtain ⟨p, owner', there⟩ := run_ready run
    have present : Final g cs p := by
      cases mem_append.mp there with
      | inl first => exact Or.inl first
      | inr earlier =>
        obtain ⟨d, member, same⟩ := mem_map.mp earlier
        exact Or.inr ⟨d, (exact_ d).mp (mem_append_left _ member), same⟩
    rw [← single c connected o owner final existing p owner' present]
    exact there

end Discovery

section Shortest
variable {lowering : Lowering} {g : Graph} {candidates : Candidates lowering g}

/-- Candidates that can be taken up in order and after which another one is ready. -/
structure Leads (candidates : Candidates lowering g) (c : Candidate) (chain : List Candidate) : Prop
    where
  run : ∃ t, exec (take lowering) (start g) chain = some t
  distinct : (chain ++ [c]).Nodup
  inside : chain ++ [c] ⊆ candidates.list
  ready : ∃ q ∈ c.ownerRefs, q ∈ existingIDs g ++ chain.map Candidate.nodeID

theorem leads_some (connected : Connected g candidates.list c) : ∃ chain, Leads candidates c chain := by
  obtain ⟨taken, ⟨t, run⟩, distinct, exact_, _⟩ :=
    resolved_order candidates (List.Perm.refl candidates.list)
  obtain ⟨before, after, rfl⟩ := append_of_mem ((exact_ c).mpr connected)
  obtain ⟨u, first, _⟩ := exec_split run
  have apart := List.Nodup.of_map _ distinct
  have front : before ++ c :: after = (before ++ [c]) ++ after := by simp
  rw [front] at apart
  refine ⟨before, ⟨u, first⟩, apart.of_append_left, ?_, run_ready run⟩
  intro d member
  apply connected_mem ((exact_ d).mp _)
  rw [front]
  exact mem_append_left after member

theorem leads_shortest (connected : Connected g candidates.list c) :
    ∃ chain, Leads candidates c chain ∧ ∀ other, Leads candidates c other → chain.length ≤ other.length := by
  classical
  have lengths : ∃ n, ∃ chain, Leads candidates c chain ∧ chain.length = n := by
    obtain ⟨chain, leads⟩ := leads_some connected
    exact ⟨chain.length, chain, leads, rfl⟩
  obtain ⟨chain, leads, same⟩ := Nat.find_spec lengths
  refine ⟨chain, leads, fun other leads' => ?_⟩
  rw [same]
  exact Nat.find_min' lengths ⟨other, leads', rfl⟩

/-- After a shortest chain all owners there are existing ones, or all are its last candidate. -/
theorem shortest_owners {chain : List Candidate} (leads : Leads candidates c chain)
    (short : ∀ other, Leads candidates c other → chain.length ≤ other.length) {o p : String}
    (owner : o ∈ c.ownerRefs) (fresh : o ∉ existingIDs g) (owner' : p ∈ c.ownerRefs)
    (there : o ∈ existingIDs g ++ chain.map Candidate.nodeID)
    (there' : p ∈ existingIDs g ++ chain.map Candidate.nodeID) : p = o := by
  cases chain using reverseRecOn with
  | nil =>
    rw [map_nil, append_nil] at there
    exact absurd there fresh
  | append_singleton before d =>
    have early : ∀ q ∈ c.ownerRefs, q ∉ existingIDs g ++ before.map Candidate.nodeID := by
      intro q member present
      obtain ⟨t, run⟩ := leads.run
      obtain ⟨u, first, _⟩ := exec_split run
      have sub : (before ++ [c]).Sublist (before ++ [d] ++ [c]) :=
        (sublist_append_left before [d]).append_right [c]
      have shorter : Leads candidates c before :=
        ⟨⟨u, first⟩, leads.distinct.sublist sub, fun x inside => leads.inside (sub.subset inside),
          q, member, present⟩
      have bound := short before shorter
      rw [length_append, length_singleton] at bound
      omega
    have last : ∀ q ∈ c.ownerRefs,
        q ∈ existingIDs g ++ (before ++ [d]).map Candidate.nodeID → q = d.nodeID := by
      intro q member present
      rw [map_append, ← append_assoc] at present
      cases mem_append.mp present with
      | inl earlier => exact absurd earlier (early q member)
      | inr here => exact mem_singleton.mp here
    rw [last p owner' there', last o owner there]

end Shortest

section Exact
variable {lowering : Lowering} {g : Graph} (candidates : Candidates lowering g)

theorem single_right (single : ∀ c, Connected g candidates.list c → OneSource g candidates.list c) :
    ∃ nodes edges, RightFixpoint lowering g candidates.list nodes edges := by
  obtain ⟨taken, ⟨t, run⟩, distinct, exact_, result⟩ :=
    resolved_order candidates (List.Perm.refl candidates.list)
  have nodes_iff : ∀ (taken : List Candidate), (∀ c, c ∈ taken ↔ Connected g candidates.list c) →
      ∀ n, n ∈ taken.map Candidate.node ↔ ∃ c, Connected g candidates.list c ∧ c.node = n := by
    intro taken exact_ n
    rw [mem_map]
    exact exists_congr fun c => and_congr_left fun _ => exact_ c
  refine ⟨taken.map Candidate.node, edgesAlong (existingIDs g) taken, result, ?_,
    nodes_iff taken exact_, fun e => along_owed exact_, fun e => owed_along run exact_ single, ?_⟩
  · rw [map_map]
    exact distinct
  · intro other perm
    obtain ⟨taken', ⟨t', run'⟩, _, exact', result'⟩ := resolved_order candidates perm
    refine ⟨_, _, result', ?_, ?_⟩
    · intro n
      rw [nodes_iff taken' exact' n, nodes_iff taken exact_ n]
    · intro e
      constructor
      · exact fun inside => owed_along run exact_ single (along_owed exact' inside)
      · exact fun inside => owed_along run' exact' single (along_owed exact_ inside)

/-- An order in which a candidate is taken up after a chain: its edges are from the owners there. -/
theorem ordered_edges {chain : List Candidate} (leads : Leads candidates c chain) :
    ∃ other : List Candidate, other.Perm candidates.list ∧ ∃ nodes edges,
      addCandidates lowering g other = some ⟨g.nodes ++ nodes, g.edges ++ edges⟩ ∧
      ∀ o, ownerEdge o c ∈ edges → o ∈ existingIDs g ++ chain.map Candidate.nodeID := by
  obtain ⟨t, run⟩ := leads.run
  obtain ⟨rest, perm⟩ := front_perm leads.distinct leads.inside
  have step : take lowering t c = some (add lowering t c) := by
    obtain ⟨q, owner, there⟩ := leads.ready
    rw [take, if_pos (ready_iff.mpr ⟨q, owner, by rw [(run_adds run).2.2]; exact there⟩)]
  have front : exec (take lowering) (start g) (chain ++ [c]) = some (add lowering t c) := by
    rw [exec_append run, exec, step]
    rfl
  obtain ⟨taken, _, distinct, _, result⟩ := resolved candidates perm front
  refine ⟨chain ++ [c] ++ rest, perm, _, _, result, fun o inside => ?_⟩
  obtain ⟨before, d, after, whole, own⟩ := mem_edges_along.mp inside
  obtain ⟨q, _, there, same⟩ := mem_owner_edges.mp own
  simp only [ownerEdge, Edge.mk.injEq] at same
  obtain ⟨_, sources, targets, _⟩ := same
  have place : chain ++ [c] ++ taken = chain ++ c :: taken := by simp
  rw [place] at whole distinct
  rw [place_unique distinct targets whole, sources]
  exact there

theorem right_single {nodes : List Node} {edges : List Edge}
    (right : RightFixpoint lowering g candidates.list nodes edges)
    (connected : Connected g candidates.list c) : OneSource g candidates.list c := by
  intro o owner final fresh p owner' final'
  obtain ⟨chain, leads, short⟩ := leads_shortest connected
  obtain ⟨other, perm, nodes', edges', result, present⟩ := ordered_edges candidates leads
  obtain ⟨nodes'', edges'', result', _, same⟩ := right.orderless other perm
  rw [result, Option.some.injEq, Topology.Graph.mk.injEq] at result'
  have edges_same : edges' = edges'' := append_cancel_left result'.2
  have there : ∀ q ∈ c.ownerRefs, Final g candidates.list q →
      q ∈ existingIDs g ++ chain.map Candidate.nodeID := by
    intro q member final
    apply present
    rw [edges_same, same]
    exact right.complete _ ⟨c, connected, q, member, final, rfl⟩
  exact shortest_owners leads short owner fresh owner' (there o owner final) (there p owner' final')

/-- The discovery reaches the right fixpoint, whatever the order, exactly when every connected
   candidate has its owners in the final graph all from before or all in one candidate: a candidate
   taken up by one owner never sees the owners that come after it. -/
theorem fixpoint_iff : (∃ nodes edges, RightFixpoint lowering g candidates.list nodes edges) ↔
    ∀ c, Connected g candidates.list c → OneSource g candidates.list c := by
  constructor
  · rintro ⟨nodes, edges, right⟩ c connected
    exact right_single candidates right connected
  · exact single_right candidates

end Exact

section Snapshot

/-- A backup of a volume and the snapshot it took, which names both as its owners. -/
def volumeGraph : Graph where
  nodes := [⟨"service/shop/db", "Service", "db", .healthy, some [("namespace", .text "shop")]⟩]
  edges := []

def backup : Candidate where
  node := ⟨"backup/shop/nightly", "Backup", "nightly", .healthy, some [("namespace", .text "shop")]⟩
  ownerRefs := ["service/shop/db"]

def snapshot : Candidate where
  node := ⟨"snapshot/shop/s1", "Snapshot", "s1", .healthy, some [("namespace", .text "shop")]⟩
  ownerRefs := ["service/shop/db", "backup/shop/nightly"]

def snapshotFirst : Candidates asciiLowering volumeGraph where
  list := [snapshot, backup]
  distinct := by decide
  fresh := by decide
  capped := fun _ => (List.countP_le_length).trans (by decide)

/-- With the snapshot first its edge from the backup is missing; with the backup first it is there. -/
theorem snapshot_loses_owner : addCandidates asciiLowering volumeGraph [snapshot, backup] =
      some ⟨volumeGraph.nodes ++ [snapshot.node, backup.node],
        [ownerEdge "service/shop/db" snapshot, ownerEdge "service/shop/db" backup]⟩ ∧
    addCandidates asciiLowering volumeGraph [backup, snapshot] =
      some ⟨volumeGraph.nodes ++ [backup.node, snapshot.node],
        [ownerEdge "service/shop/db" backup, ownerEdge "service/shop/db" snapshot,
          ownerEdge "backup/shop/nightly" snapshot]⟩ ∧
    ¬ ∃ nodes edges, RightFixpoint asciiLowering volumeGraph snapshotFirst.list nodes edges := by
  have first : addCandidates asciiLowering volumeGraph [snapshot, backup] =
      some ⟨volumeGraph.nodes ++ [snapshot.node, backup.node],
        [ownerEdge "service/shop/db" snapshot, ownerEdge "service/shop/db" backup]⟩ := by
    decide +kernel
  have second : addCandidates asciiLowering volumeGraph [backup, snapshot] =
      some ⟨volumeGraph.nodes ++ [backup.node, snapshot.node],
        [ownerEdge "service/shop/db" backup, ownerEdge "service/shop/db" snapshot,
          ownerEdge "backup/shop/nightly" snapshot]⟩ := by
    decide +kernel
  refine ⟨first, second, ?_⟩
  rintro ⟨nodes, edges, right⟩
  obtain ⟨nodes', edges', result, _, same⟩ :=
    right.orderless [backup, snapshot] (List.Perm.swap snapshot backup [])
  have added : addCandidates asciiLowering volumeGraph [snapshot, backup] = _ := right.added
  rw [first, Option.some.injEq, Topology.Graph.mk.injEq] at added
  rw [second, Option.some.injEq, Topology.Graph.mk.injEq] at result
  have there : ownerEdge "backup/shop/nightly" snapshot ∈ edges' := by
    rw [show edges' = _ from result.2.symm]
    decide
  have missing : ownerEdge "backup/shop/nightly" snapshot ∈ edges := (same _).mp there
  rw [show edges = _ from added.2.symm] at missing
  exact absurd missing (by decide)

end Snapshot

end GenericCrds
