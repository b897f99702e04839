import Radar.Network.PolicyEvaluation

/- The verdicts of network_policy.go against what Kubernetes lets through. -/
namespace NetworkPolicies
open LabelSelector

section Semantics

/-- A peer stands for pods; an address block stands for none. -/
def NetworkPolicyPeer.admits (peer : NetworkPolicyPeer) (policyNs : String) (other : Endpoint) : Bool :=
  peer.ipBlock.isNone && (match peer.namespaceSelector with
      | some nsSel => nsSel.matches_ other.namespaceLabels
      | none => other.namespace_ == policyNs) &&
    match peer.podSelector with
    | some podSel => podSel.matches_ other.labels
    | none => true

def NetworkPolicyPort.admits (port : NetworkPolicyPort) (flow : Flow) : Bool :=
  port.protocol.getD .tcp == flow.protocol && match port.port, port.endPort with
    | none, _ => true
    | some (.number first), some last => first ≤ flow.port && flow.port ≤ last
    | some (.number only), none => flow.port == only
    | some (.name name), _ => flow.portNames.contains name

/-- An empty list lets everyone, or every port, through. -/
def PolicyRule.admitsPeer (rule : PolicyRule) (policyNs : String) (other : Endpoint) : Bool :=
  rule.peers.isEmpty || rule.peers.any fun peer => peer.admits policyNs other

def PolicyRule.admitsPort (rule : PolicyRule) (flow : Flow) : Bool :=
  rule.ports.isEmpty || rule.ports.any fun port => port.admits flow

/-- The policy decides about the end of the flow that is asked for. -/
def NetworkPolicy.selects (np : NetworkPolicy) (direction : Direction) (flow : Flow) : Bool :=
  np.namespace_ == (flow.evaluated direction).namespace_ &&
    np.podSelector.matches_ (flow.evaluated direction).labels &&
    np.policyTypes.contains direction

/-- The rules that decide, each with the namespace of its policy. -/
def rulesInForce (policies : List NetworkPolicy) (direction : Direction) (flow : Flow) :
    List (String × PolicyRule) :=
  (policies.filter fun np => np.selects direction flow).flatMap fun np =>
    (np.rules direction).map fun rule => (np.namespace_, rule)

def Selected (policies : List NetworkPolicy) (direction : Direction) (flow : Flow) : Prop :=
  ∃ np ∈ policies, np.selects direction flow = true

/-- Some rule's peers and ports both admit the flow. -/
def Admitted (policies : List NetworkPolicy) (direction : Direction) (flow : Flow) : Prop :=
  ∃ entry ∈ rulesInForce policies direction flow,
    entry.2.admitsPeer entry.1 (flow.peer direction) = true ∧ entry.2.admitsPort flow = true

end Semantics

/-- The answer never allows what no rule admits and never denies what one does. -/
def VerdictSound (policies : List NetworkPolicy) (cnps : List CiliumNetworkPolicy)
    (direction : Direction) (flow : Flow) : Prop :=
  ∀ answer, evaluateNetworkPolicies policies cnps direction flow = some answer →
    (answer.verdict = .allowed → Admitted policies direction flow) ∧
    (answer.verdict = .denied → Selected policies direction flow ∧ ¬ Admitted policies direction flow)

section Answer
variable {policies : List NetworkPolicy} {cnps : List CiliumNetworkPolicy}
variable {direction : Direction} {flow : Flow}

/-- Some rule in force passes the code's check of its peers. -/
def Passed (policies : List NetworkPolicy) (direction : Direction) (flow : Flow) : Prop :=
  ∃ entry ∈ rulesInForce policies direction flow,
    passesPeers entry.2 (flow.peer direction).namespace_ (flow.peer direction).labels entry.1 = true

theorem mem_rules_in_force {entry : String × PolicyRule} :
    entry ∈ rulesInForce policies direction flow ↔ ∃ np ∈ policies,
      np.selects direction flow = true ∧ entry.1 = np.namespace_ ∧ entry.2 ∈ np.rules direction := by
  simp only [rulesInForce, List.mem_flatMap, List.mem_filter, List.mem_map]
  constructor
  · rintro ⟨np, ⟨listed, selects⟩, rule, own, rfl⟩
    exact ⟨np, listed, selects, rfl, own⟩
  · rintro ⟨np, listed, selects, home, own⟩
    exact ⟨np, ⟨listed, selects⟩, entry.2, own, Prod.ext home.symm rfl⟩

theorem selects_iff {np : NetworkPolicy} : np.selects direction flow = true ↔
    np.namespace_ = (flow.evaluated direction).namespace_ ∧
      np.podSelector.matches_ (flow.evaluated direction).labels = true ∧
      direction ∈ np.policyTypes := by
  simp [NetworkPolicy.selects, and_assoc]

/-- The matches of the standard policies are one for each policy that selects the end. -/
theorem mem_standard_matches {m : PolicyMatch} :
    m ∈ standardMatches policies direction (flow.evaluated direction).namespace_
      (flow.evaluated direction).labels (flow.peer direction).namespace_
      (flow.peer direction).labels ↔
    ∃ np ∈ policies, np.selects direction flow = true ∧ m = ⟨np.name, np.namespace_, .networkPolicy,
        if (np.rules direction).any fun rule => passesPeers rule (flow.peer direction).namespace_
          (flow.peer direction).labels np.namespace_ then .allow else .deny⟩ := by
  simp only [standardMatches, List.mem_filterMap, List.mem_filter, decide_eq_true_eq, selects_iff,
    evaluateStandardPolicy]
  constructor
  · rintro ⟨np, ⟨listed, home, matched⟩, found⟩
    by_cases typed : direction ∈ np.policyTypes
    · refine ⟨np, listed, ⟨home, matched, typed⟩, ?_⟩
      rw [if_neg (not_not.mpr typed)] at found
      split at found
      next pass =>
        rw [if_pos pass]
        exact (Option.some.inj found).symm
      next fail =>
        rw [if_neg fail]
        exact (Option.some.inj found).symm
    · rw [if_pos typed] at found
      exact absurd found (by simp)
  · rintro ⟨np, listed, ⟨home, matched, typed⟩, rfl⟩
    refine ⟨np, ⟨listed, home, matched⟩, ?_⟩
    rw [if_neg (not_not.mpr typed)]
    split
    next pass => rfl
    next fail => rfl

theorem verdict_allowed_iff {found : List PolicyMatch} :
    verdictOf found = .allowed ↔ ∃ m ∈ found, m.effect = .allow := by
  unfold verdictOf
  split
  next empty => simp [empty]
  next =>
    split
    next some => simpa using some
    next none =>
      have absent : ¬ ∃ m ∈ found, m.effect = .allow := by simpa using none
      split
      next => simp [absent]
      next => simp [absent]

theorem verdict_denied_iff {found : List PolicyMatch} : verdictOf found = .denied ↔
    (∃ m ∈ found, m.effect = .deny) ∧ ¬ ∃ m ∈ found, m.effect = .allow := by
  unfold verdictOf
  split
  next empty => simp [empty]
  next =>
    split
    next some =>
      have present : ∃ m ∈ found, m.effect = .allow := by simpa using some
      simp [present]
    next none =>
      have absent : ¬ ∃ m ∈ found, m.effect = .allow := by simpa using none
      split
      next unknown =>
        have none_denies : ¬ ∃ m ∈ found, m.effect = .deny := by
          rintro ⟨m, member, denies⟩
          have blank := List.all_eq_true.mp unknown m member
          simp [denies] at blank
        simp [none_denies]
      next known =>
        obtain ⟨m, member, seen⟩ : ∃ m ∈ found, m.effect ≠ .unknown := by simpa using known
        have denies : m.effect = .deny := by
          cases effect : m.effect with
          | allow => exact absurd ⟨m, member, effect⟩ absent
          | deny => rfl
          | unknown => exact absurd effect seen
        exact ⟨fun _ => ⟨⟨m, member, denies⟩, absent⟩, fun _ => rfl⟩

theorem cilium_undecided {m : PolicyMatch} {evalNs : String} {evalLabels : Labels}
    (member : m ∈ ciliumMatches cnps evalNs evalLabels) : m.effect = .unknown := by
  simp only [ciliumMatches, List.mem_map] at member
  obtain ⟨cnp, _, rfl⟩ := member
  rfl

theorem passed_iff : Passed policies direction flow ↔ ∃ np ∈ policies,
    np.selects direction flow = true ∧ ((np.rules direction).any fun rule =>
      passesPeers rule (flow.peer direction).namespace_ (flow.peer direction).labels
        np.namespace_) = true := by
  constructor
  · rintro ⟨⟨home, rule⟩, force, passes⟩
    obtain ⟨np, listed, selects, rfl, own⟩ := mem_rules_in_force.mp force
    exact ⟨np, listed, selects, List.any_eq_true.mpr ⟨rule, own, passes⟩⟩
  · rintro ⟨np, listed, selects, some⟩
    obtain ⟨rule, own, passes⟩ := List.any_eq_true.mp some
    exact ⟨(np.namespace_, rule), mem_rules_in_force.mpr ⟨np, listed, selects, rfl, own⟩, passes⟩

/-- A Cilium policy is found without an effect, so the standard ones decide. -/
theorem allow_found_iff : (∃ m ∈ selectingPolicies policies cnps direction flow,
    m.effect = .allow) ↔ Passed policies direction flow := by
  rw [passed_iff]
  simp only [selectingPolicies, List.mem_append]
  constructor
  · rintro ⟨m, standard | cilium, allows⟩
    · obtain ⟨np, listed, selects, rfl⟩ := mem_standard_matches.mp standard
      refine ⟨np, listed, selects, ?_⟩
      by_contra fails
      rw [if_neg fails] at allows
      exact absurd allows (by simp)
    · rw [cilium_undecided cilium] at allows
      exact absurd allows (by simp)
  · rintro ⟨np, listed, selects, passes⟩
    exact ⟨_, .inl (mem_standard_matches.mpr ⟨np, listed, selects, rfl⟩), if_pos passes⟩

theorem deny_found_iff : (∃ m ∈ selectingPolicies policies cnps direction flow,
    m.effect = .deny) ↔ ∃ np ∈ policies, np.selects direction flow = true ∧
      ((np.rules direction).any fun rule => passesPeers rule (flow.peer direction).namespace_
        (flow.peer direction).labels np.namespace_) ≠ true := by
  simp only [selectingPolicies, List.mem_append]
  constructor
  · rintro ⟨m, standard | cilium, denies⟩
    · obtain ⟨np, listed, selects, rfl⟩ := mem_standard_matches.mp standard
      refine ⟨np, listed, selects, fun passes => ?_⟩
      rw [if_pos passes] at denies
      exact absurd denies (by simp)
    · rw [cilium_undecided cilium] at denies
      exact absurd denies (by simp)
  · rintro ⟨np, listed, selects, fails⟩
    exact ⟨_, .inl (mem_standard_matches.mpr ⟨np, listed, selects, rfl⟩), if_neg fails⟩

theorem denied_iff : verdictOf (selectingPolicies policies cnps direction flow) = .denied ↔
    Selected policies direction flow ∧ ¬ Passed policies direction flow := by
  rw [verdict_denied_iff, allow_found_iff, deny_found_iff]
  constructor
  · rintro ⟨⟨np, listed, selects, _⟩, none⟩
    exact ⟨⟨np, listed, selects⟩, none⟩
  · rintro ⟨⟨np, listed, selects⟩, none⟩
    exact ⟨⟨np, listed, selects, fun passes => none (passed_iff.mpr ⟨np, listed, selects, passes⟩)⟩, none⟩

theorem selected_of_admitted (admitted : Admitted policies direction flow) :
    Selected policies direction flow := by
  obtain ⟨entry, force, _⟩ := admitted
  obtain ⟨np, listed, selects, _⟩ := mem_rules_in_force.mp force
  exact ⟨np, listed, selects⟩

theorem verdict_sound_of_passed : VerdictSound policies cnps direction flow ↔
    ((flow.evaluated direction).namespace_ ≠ "" →
      (Passed policies direction flow → Admitted policies direction flow) ∧
      (Admitted policies direction flow → Passed policies direction flow)) := by
  unfold VerdictSound evaluateNetworkPolicies
  split
  next nowhere => simp [nowhere]
  next somewhere =>
    have one_answer (p : PolicyEvaluation → Prop) (a : PolicyEvaluation) :
        (∀ answer, some a = some answer → p answer) ↔ p a :=
      ⟨fun all => all a rfl, fun holds answer same => Option.some.inj same ▸ holds⟩
    rw [one_answer, verdict_allowed_iff, allow_found_iff, denied_iff]
    constructor
    · rintro ⟨allows, denies⟩ _
      refine ⟨allows, fun admitted => ?_⟩
      by_contra fails
      exact (denies ⟨selected_of_admitted admitted, fails⟩).2 admitted
    · intro agree
      obtain ⟨wide, narrow⟩ := agree somewhere
      exact ⟨wide, fun ⟨selected, fails⟩ => ⟨selected, fun admitted => fails (narrow admitted)⟩⟩

end Answer

section Misread

def NetworkPolicyPeer.Picks (peer : NetworkPolicyPeer) (labels : Labels) : Prop :=
  ∀ podSel, peer.podSelector = some podSel → podSel.matches_ labels = true

/-- Its pods are in the policy's namespace, whose labels its namespace selector rejects. -/
def NetworkPolicyPeer.ReadTooWide (peer : NetworkPolicyPeer) (policyNs : String)
    (other : Endpoint) : Prop :=
  peer.ipBlock = none ∧ peer.Picks other.labels ∧ other.namespace_ = policyNs ∧
    ∃ nsSel, peer.namespaceSelector = some nsSel ∧ nsSel.matches_ other.namespaceLabels = false

/-- Its pods are in another namespace, which its namespace selector picks by its labels. -/
def NetworkPolicyPeer.ReadTooNarrow (peer : NetworkPolicyPeer) (policyNs : String)
    (other : Endpoint) : Prop :=
  peer.ipBlock = none ∧ peer.Picks other.labels ∧ other.namespace_ ≠ policyNs ∧
    ∃ nsSel, peer.namespaceSelector = some nsSel ∧ nsSel.empty = false ∧
      nsSel.matches_ other.namespaceLabels = true

variable {peer : NetworkPolicyPeer} {policyNs : String} {other : Endpoint}

theorem matches_peer_iff : matchesPeer peer other.namespace_ other.labels policyNs = true ↔
    peer.ipBlock = none ∧ peer.Picks other.labels ∧ (other.namespace_ = policyNs ∨
      ∃ nsSel, peer.namespaceSelector = some nsSel ∧ nsSel.empty = true) := by
  unfold matchesPeer NetworkPolicyPeer.Picks
  cases peer.ipBlock with
  | some block => simp
  | none =>
    by_cases home : other.namespace_ = policyNs
    · cases peer.namespaceSelector with
      | none => cases peer.podSelector <;> simp [home]
      | some nsSel => cases peer.podSelector <;> simp [home]
    · cases peer.namespaceSelector with
      | none => cases peer.podSelector <;> simp [home]
      | some nsSel => cases peer.podSelector <;> simp [home, and_comm]

theorem peer_admits_iff : peer.admits policyNs other = true ↔
    peer.ipBlock = none ∧ peer.Picks other.labels ∧
      ((peer.namespaceSelector = none ∧ other.namespace_ = policyNs) ∨
        ∃ nsSel, peer.namespaceSelector = some nsSel ∧ nsSel.matches_ other.namespaceLabels = true) := by
  unfold NetworkPolicyPeer.admits NetworkPolicyPeer.Picks
  cases peer.namespaceSelector with
  | none => cases peer.podSelector <;> simp [and_assoc, and_left_comm, and_comm]
  | some nsSel => cases peer.podSelector <;> simp [and_assoc, and_comm]

theorem read_too_wide_iff : peer.ReadTooWide policyNs other ↔
    matchesPeer peer other.namespace_ other.labels policyNs = true ∧
      peer.admits policyNs other = false := by
  rw [← Bool.not_eq_true, matches_peer_iff, peer_admits_iff]
  constructor
  · rintro ⟨block, picks, home, nsSel, asked, rejects⟩
    refine ⟨⟨block, picks, .inl home⟩, ?_⟩
    rintro ⟨_, _, ⟨none, _⟩ | ⟨other_, same, accepts⟩⟩
    · rw [asked] at none
      exact absurd none (by simp)
    · rw [asked] at same
      cases same
      exact absurd accepts (by simp [rejects])
  · rintro ⟨⟨block, picks, reach⟩, refused⟩
    cases asked : peer.namespaceSelector with
    | none =>
      have home : other.namespace_ = policyNs := by simpa [asked] using reach
      exact absurd ⟨block, picks, .inl ⟨asked, home⟩⟩ refused
    | some nsSel =>
      have rejects : nsSel.matches_ other.namespaceLabels = false := by
        by_contra accepts
        exact refused ⟨block, picks, .inr ⟨nsSel, asked, by simpa using accepts⟩⟩
      refine ⟨block, picks, ?_, nsSel, asked, rejects⟩
      rcases reach with home | ⟨_, same, empty⟩
      · exact home
      · rw [asked] at same
        cases same
        exact absurd (empty_matches empty other.namespaceLabels) (by simp [rejects])

theorem read_too_narrow_iff : peer.ReadTooNarrow policyNs other ↔
    matchesPeer peer other.namespace_ other.labels policyNs = false ∧
      peer.admits policyNs other = true := by
  rw [← Bool.not_eq_true, matches_peer_iff, peer_admits_iff]
  constructor
  · rintro ⟨block, picks, abroad, nsSel, asked, asks, accepts⟩
    refine ⟨?_, block, picks, .inr ⟨nsSel, asked, accepts⟩⟩
    rintro ⟨_, _, home | ⟨_, same, empty⟩⟩
    · exact abroad home
    · rw [asked] at same
      cases same
      exact absurd empty (by simp [asks])
  · rintro ⟨missed, block, picks, reach⟩
    have abroad : other.namespace_ ≠ policyNs := fun home => missed ⟨block, picks, .inl home⟩
    rcases reach with ⟨_, home⟩ | ⟨nsSel, asked, accepts⟩
    · exact absurd home abroad
    · refine ⟨block, picks, abroad, nsSel, asked, ?_, accepts⟩
      by_contra empty
      exact missed ⟨block, picks, .inr ⟨nsSel, asked, by simpa using empty⟩⟩

/-- The rule passes, though its ports leave the flow out or its peers are all read too wide. -/
def PolicyRule.ReadTooWide (rule : PolicyRule) (policyNs : String) (direction : Direction)
    (flow : Flow) : Prop :=
  let other := flow.peer direction
  passesPeers rule other.namespace_ other.labels policyNs = true ∧
    (rule.admitsPort flow = false ∨ rule.peers ≠ [] ∧ ∀ peer ∈ rule.peers,
      matchesPeer peer other.namespace_ other.labels policyNs = true → peer.ReadTooWide policyNs other)

/-- The rule fails, though its ports list the flow and one of its peers is read too narrow. -/
def PolicyRule.ReadTooNarrow (rule : PolicyRule) (policyNs : String) (direction : Direction)
    (flow : Flow) : Prop :=
  let other := flow.peer direction
  passesPeers rule other.namespace_ other.labels policyNs = false ∧
    rule.admitsPort flow = true ∧ ∃ peer ∈ rule.peers, peer.ReadTooNarrow policyNs other

variable {rule : PolicyRule} {direction : Direction} {flow : Flow}

theorem passes_iff : passesPeers rule (flow.peer direction).namespace_
    (flow.peer direction).labels policyNs = true ↔ rule.peers = [] ∨ ∃ peer ∈ rule.peers,
      matchesPeer peer (flow.peer direction).namespace_ (flow.peer direction).labels policyNs = true := by
  simp [passesPeers]

theorem admits_peer_iff : rule.admitsPeer policyNs (flow.peer direction) = true ↔
    rule.peers = [] ∨ ∃ peer ∈ rule.peers, peer.admits policyNs (flow.peer direction) = true := by
  simp [PolicyRule.admitsPeer]

theorem rule_too_wide_iff : rule.ReadTooWide policyNs direction flow ↔
    passesPeers rule (flow.peer direction).namespace_ (flow.peer direction).labels policyNs = true ∧
      ¬ (rule.admitsPeer policyNs (flow.peer direction) = true ∧ rule.admitsPort flow = true) := by
  constructor
  · rintro ⟨passes, closed | ⟨listed, wide⟩⟩
    · exact ⟨passes, fun admits => by simp [closed] at admits⟩
    · refine ⟨passes, fun ⟨admits, _⟩ => ?_⟩
      obtain ⟨first, own, matched⟩ := (passes_iff.mp passes).resolve_left listed
      obtain ⟨peer, member, accepts⟩ := (admits_peer_iff.mp admits).resolve_left listed
      cases reach : matchesPeer peer (flow.peer direction).namespace_ (flow.peer direction).labels
          policyNs with
      | true =>
        have refused := (read_too_wide_iff.mp (wide peer member reach)).2
        exact absurd accepts (by simp [refused])
      | false =>
        -- a peer read too narrow is in another namespace, one read too wide is not
        have abroad := (read_too_narrow_iff.mpr ⟨reach, accepts⟩).2.2.1
        exact abroad (wide first own matched).2.2.1
  · rintro ⟨passes, refused⟩
    refine ⟨passes, ?_⟩
    by_cases open_ : rule.admitsPort flow = true
    · right
      rw [and_iff_left open_, admits_peer_iff, not_or] at refused
      refine ⟨refused.1, fun peer own matched => read_too_wide_iff.mpr ⟨matched, ?_⟩⟩
      by_contra accepts
      exact refused.2 ⟨peer, own, by simpa using accepts⟩
    · exact .inl (by simpa using open_)

theorem rule_too_narrow_iff : rule.ReadTooNarrow policyNs direction flow ↔
    passesPeers rule (flow.peer direction).namespace_ (flow.peer direction).labels policyNs = false ∧
      rule.admitsPeer policyNs (flow.peer direction) = true ∧ rule.admitsPort flow = true := by
  constructor
  · rintro ⟨fails, open_, peer, own, narrow⟩
    exact ⟨fails, admits_peer_iff.mpr (.inr ⟨peer, own, (read_too_narrow_iff.mp narrow).2⟩), open_⟩
  · rintro ⟨fails, admits, open_⟩
    rw [← Bool.not_eq_true, passes_iff, not_or] at fails
    obtain ⟨peer, own, accepts⟩ := (admits_peer_iff.mp admits).resolve_left fails.1
    have missed : matchesPeer peer (flow.peer direction).namespace_ (flow.peer direction).labels
        policyNs = false := by
      by_contra matched
      exact fails.2 ⟨peer, own, by simpa using matched⟩
    refine ⟨?_, open_, peer, own, read_too_narrow_iff.mpr ⟨missed, accepts⟩⟩
    rw [← Bool.not_eq_true, passes_iff, not_or]
    exact fails

end Misread

/-- The verdict is sound exactly when each rule in force that is read too wide stands beside one
that admits the flow, and each one read too narrow beside one that passes. -/
theorem verdict_sound_iff (policies : List NetworkPolicy) (cnps : List CiliumNetworkPolicy)
    (direction : Direction) (flow : Flow) : VerdictSound policies cnps direction flow ↔
    ((flow.evaluated direction).namespace_ ≠ "" → ((∃ entry ∈ rulesInForce policies direction flow,
        entry.2.ReadTooWide entry.1 direction flow) → Admitted policies direction flow) ∧
      ((∃ entry ∈ rulesInForce policies direction flow,
        entry.2.ReadTooNarrow entry.1 direction flow) → Passed policies direction flow)) := by
  rw [verdict_sound_of_passed]
  refine imp_congr_right fun _ => and_congr ?_ ?_
  · constructor
    · rintro agree ⟨entry, force, wide⟩
      exact agree ⟨entry, force, (rule_too_wide_iff.mp wide).1⟩
    · rintro covered ⟨entry, force, passes⟩
      by_cases admits : entry.2.admitsPeer entry.1 (flow.peer direction) = true ∧
          entry.2.admitsPort flow = true
      · exact ⟨entry, force, admits⟩
      · exact covered ⟨entry, force, rule_too_wide_iff.mpr ⟨passes, admits⟩⟩
  · constructor
    · rintro agree ⟨entry, force, narrow⟩
      exact agree ⟨entry, force, (rule_too_narrow_iff.mp narrow).2⟩
    · rintro covered ⟨entry, force, admits⟩
      by_cases passes : passesPeers entry.2 (flow.peer direction).namespace_
          (flow.peer direction).labels entry.1 = true
      · exact ⟨entry, force, passes⟩
      · exact covered ⟨entry, force, rule_too_narrow_iff.mpr ⟨by simpa using passes, admits⟩⟩

section WebOnly

/-- Every pod of the shop takes HTTPS from anyone, and nothing else. -/
def httpsOnly : NetworkPolicy :=
  { namespace_ := "shop", name := "https-only", podSelector := ⟨[], []⟩, policyTypes := [.ingress]
    ingress := [⟨[], [⟨some .tcp, some (.number 443), none⟩]⟩]
    egress := [] }

def plainRequest : Flow :=
  { source := ⟨"shop", fun _ => none, fun _ => none⟩
    destination := ⟨"shop", fun _ => none, fun _ => none⟩
    protocol := .tcp, port := 80, portNames := [] }

/-- A request to a port that no rule lists is answered with allowed. -/
theorem unlisted_port_allowed :
    (evaluateNetworkPolicies [httpsOnly] [] .ingress plainRequest).map PolicyEvaluation.verdict =
      some .allowed ∧
    ¬ VerdictSound [httpsOnly] [] .ingress plainRequest := by
  have answered : evaluateNetworkPolicies [httpsOnly] [] .ingress plainRequest =
      some ⟨[⟨"https-only", "shop", .networkPolicy, .allow⟩], .allowed⟩ := by decide
  refine ⟨by rw [answered]; rfl, fun sound => ?_⟩
  obtain ⟨entry, force, _, open_⟩ := (sound _ answered).1 rfl
  have only : entry = ("shop", ⟨[], [⟨some .tcp, some (.number 443), none⟩]⟩) := by
    simpa [rulesInForce, NetworkPolicy.selects, httpsOnly, plainRequest, Flow.evaluated,
      NetworkPolicy.rules, Selector.matches_] using force
  rw [only] at open_
  exact absurd open_ (by decide)

end WebOnly

end NetworkPolicies
