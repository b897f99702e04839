import Radar.Base.LabelSelector

/- internal/server/network_policy.go: whether network policies let a flow through. -/
namespace NetworkPolicies
open LabelSelector

inductive Direction where
  | ingress | egress
  deriving DecidableEq

inductive Protocol where
  | tcp | udp | sctp
  deriving DecidableEq

inductive PortRef where
  | number (port : Nat)
  | name (name : String)
  deriving DecidableEq

structure NetworkPolicyPort where
  protocol : Option Protocol
  port : Option PortRef
  endPort : Option Nat

structure NetworkPolicyPeer where
  podSelector : Option Selector
  namespaceSelector : Option Selector
  ipBlock : Option String

/-- An ingress rule's From, or an egress rule's To, and its Ports. -/
structure PolicyRule where
  peers : List NetworkPolicyPeer
  ports : List NetworkPolicyPort

/-- Selectors are as the API server admits them: none fails to parse. -/
structure NetworkPolicy where
  namespace_ : String
  name : String
  podSelector : Selector
  policyTypes : List Direction
  ingress : List PolicyRule
  egress : List PolicyRule

/-- The matchLabels of a CiliumNetworkPolicy; a value may be something other than a text. -/
structure CiliumNetworkPolicy where
  namespace_ : String
  name : String
  matchLabels : List (String × Option String)

structure Endpoint where
  namespace_ : String
  namespaceLabels : Labels
  labels : Labels

/-- The port is the destination's, with the names its containers give it. -/
structure Flow where
  source : Endpoint
  destination : Endpoint
  protocol : Protocol
  port : Nat
  portNames : List String

inductive PolicyKind where
  | networkPolicy | ciliumNetworkPolicy
  deriving DecidableEq

inductive Effect where
  | allow | deny | unknown
  deriving DecidableEq

structure PolicyMatch where
  name : String
  namespace_ : String
  kind : PolicyKind
  effect : Effect
  deriving DecidableEq

inductive Verdict where
  | allowed | denied | noPolicy | unknown
  deriving DecidableEq

structure PolicyEvaluation where
  selectingPolicies : List PolicyMatch
  verdict : Verdict
  deriving DecidableEq

def NetworkPolicy.rules (np : NetworkPolicy) : Direction → List PolicyRule
  | .ingress => np.ingress
  | .egress => np.egress

/-- The end of the flow whose policies are asked, and the other one. -/
def Flow.evaluated (flow : Flow) : Direction → Endpoint
  | .ingress => flow.destination
  | .egress => flow.source

def Flow.peer (flow : Flow) : Direction → Endpoint
  | .ingress => flow.source
  | .egress => flow.destination

def matchesPeer (peer : NetworkPolicyPeer) (srcNs : String) (srcLabels : Labels)
    (policyNs : String) : Bool :=
  if peer.ipBlock.isSome then false
  else
    let nsMatch := match peer.namespaceSelector with
      | some nsSel => nsSel.empty || srcNs == policyNs
      | none => srcNs == policyNs
    if nsMatch = false then false
    else
      match peer.podSelector with
      | some podSel => podSel.matches_ srcLabels
      | none => true

/-- The peers of a rule let the other end through. -/
def passesPeers (rule : PolicyRule) (peerNs : String) (peerLabels : Labels) (policyNs : String) : Bool :=
  rule.peers.isEmpty || rule.peers.any fun peer => matchesPeer peer peerNs peerLabels policyNs

/-- evaluateIngressPolicy and evaluateEgressPolicy; `none` is skip. -/
def evaluateStandardPolicy (np : NetworkPolicy) (direction : Direction) (peerNs : String)
    (peerLabels : Labels) : Option Effect :=
  if direction ∉ np.policyTypes then none
  else if (np.rules direction).any fun rule => passesPeers rule peerNs peerLabels np.namespace_ then
    some .allow
  else some .deny

def matchesCRDSelector (podLabels : Labels) (selectorMap : List (String × Option String)) : Bool :=
  selectorMap.all fun pair => pair.2 == some ((podLabels pair.1).getD "")

def standardMatches (policies : List NetworkPolicy) (direction : Direction) (evalNs : String)
    (evalLabels : Labels) (peerNs : String) (peerLabels : Labels) : List PolicyMatch :=
  (policies.filter fun np => np.namespace_ = evalNs ∧ np.podSelector.matches_ evalLabels).filterMap
    fun np => (evaluateStandardPolicy np direction peerNs peerLabels).map fun effect =>
      ⟨np.name, np.namespace_, .networkPolicy, effect⟩

def ciliumMatches (cnps : List CiliumNetworkPolicy) (evalNs : String) (evalLabels : Labels) :
    List PolicyMatch :=
  (cnps.filter fun cnp => cnp.namespace_ = evalNs ∧ matchesCRDSelector evalLabels cnp.matchLabels).map
    fun cnp => ⟨cnp.name, cnp.namespace_, .ciliumNetworkPolicy, .unknown⟩

def verdictOf (found : List PolicyMatch) : Verdict := if found = [] then .noPolicy
  else if found.any fun m => m.effect = .allow then .allowed
  else if found.all fun m => m.effect = .unknown then .unknown
  else .denied

def selectingPolicies (policies : List NetworkPolicy) (cnps : List CiliumNetworkPolicy)
    (direction : Direction) (flow : Flow) : List PolicyMatch :=
  let end_ := flow.evaluated direction
  let peer := flow.peer direction
  standardMatches policies direction end_.namespace_ end_.labels peer.namespace_ peer.labels ++
    ciliumMatches cnps end_.namespace_ end_.labels

/-- `none` where there is no namespace to evaluate in. The port and the protocol are not read. -/
def evaluateNetworkPolicies (policies : List NetworkPolicy) (cnps : List CiliumNetworkPolicy)
    (direction : Direction) (flow : Flow) : Option PolicyEvaluation :=
  if (flow.evaluated direction).namespace_ = "" then none
  else
    let found := selectingPolicies policies cnps direction flow
    some ⟨found, verdictOf found⟩

end NetworkPolicies
