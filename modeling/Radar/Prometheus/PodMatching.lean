import Radar.Prometheus.Queries

/- pkg/prom/queries.go and internal/prometheus/rightsizing.go: the pods that the queries for a workload read. A pod is named by its
   controller: the name of the workload, a hyphen and a suffix. -/
namespace PodMatching
open QuotedText Regexp Queries

section Model

inductive ResKind where
  | cpu
  | memory
  | other (name : String)

/-- The query of queryContainerP95, over the window of twenty-four hours. -/
def p95Query (namespace_ workload container : List Char) (resKind : ResKind) : Option Query :=
  let args := [Arg.exact namespace_, Arg.pods workload, Arg.exact container]
  match resKind with
  | .cpu => some ⟨"quantile_over_time(0.95, max by (container) " ++
      "(rate(container_cpu_usage_seconds_total\x7bnamespace='%s',pod=~'%s',container='%s'\x7d[5m]))[86400s:5m])", args⟩
  | .memory => some ⟨"quantile_over_time(0.95, max by (container) " ++
      "(container_memory_working_set_bytes\x7bnamespace='%s',pod=~'%s',container='%s'\x7d)[86400s:])", args⟩
  | .other _ => none

end Model

section Statement

def dnsChar (c : Char) : Bool := c.isLower || c.isDigit || c == '-' || c == '.'

/-- A name as the Kubernetes API accepts it. -/
structure Name where
  chars : List Char
  dns : ∀ c ∈ chars, dnsChar c = true

/-- The workloads of a namespace; two of different kinds may have one name. -/
structure Workloads (ω : Type) where
  namespace_ : Name
  name : ω → Name

structure Pod (ω : Type) where
  owner : ω
  suffix : List Char

variable {ω : Type}

def Pod.name (all : Workloads ω) (pod : Pod ω) : List Char := (all.name pod.owner).chars ++ '-' :: pod.suffix

inductive Request where
  | metric (category : MetricCategory) (filterContainer : Bool)
  | p95 (container : Name) (resKind : ResKind)

def query (all : Workloads ω) (w : ω) : Request → Option Query
  | .metric category filterContainer => buildWorkloadQuery all.namespace_.chars (all.name w).chars category filterContainer
  | .p95 container resKind => p95Query all.namespace_.chars (all.name w).chars container.chars resKind

def Accepts (m : Matcher) (value : List Char) : Prop := match m.op with
  | .equal => value = m.value
  | .notEqual => value ≠ m.value
  | .regex => ∃ r, parse m.value = some r ∧ r.Matches value

/-- The query is read, has matchers on pods, and all of them take the pod. -/
def Selects (lenient : Bool) (q : Query) (pod : List Char) : Prop :=
  ∃ tokens, lex lenient q.text = some tokens ∧ (∃ m ∈ matchers [] tokens, m.label = "pod".toList) ∧
    ∀ m ∈ matchers [] tokens, m.label = "pod".toList → Accepts m pod

/-- A pod of another workload: one of the same name, one whose name goes on behind a hyphen, or one whose name this one extends
    by what the suffix of the pod begins with. -/
def Collides (all : Workloads ω) (w : ω) (pod : Pod ω) : Prop := let own := (all.name w).chars
  let other := (all.name pod.owner).chars
  pod.owner ≠ w ∧ (other = own ∨ (∃ t, other = own ++ '-' :: t) ∨ ∃ t u, own = other ++ '-' :: t ∧ pod.suffix = t ++ '-' :: u)

end Statement

section Names

variable {ω : Type} {lenient : Bool}

theorem dns_readable (n : Name) : n.chars.all (readable lenient) = true := by
  rw [List.all_eq_true]
  intro c member
  have dns := n.dns c member
  have other : ∀ d, dnsChar d = false → (c != d) = true := by
    intro d outside
    rw [bne_iff_ne]
    rintro rfl
    rw [outside] at dns
    cases dns
  rw [readable, other '\n' rfl, other '\x60' rfl, other '{' rfl, other '}' rfl, other '"' rfl]
  rfl

theorem dns_settled (n : Name) : Settled (n.chars ++ ['-']) := by
  intro u v split
  have member : '\\' ∈ n.chars ++ ['-'] := by
    rw [split]
    exact List.mem_append_right u List.mem_cons_self
  rcases List.mem_append.mp member with inside | last
  · exact absurd (n.dns _ inside) (by decide)
  · exact absurd (List.mem_singleton.mp last) (by decide)

/-- One name and hyphen in front of another. -/
theorem hyphen_iff (own other suffix : List Char) : (∃ u, other ++ '-' :: suffix = own ++ '-' :: u) ↔
      other = own ∨ (∃ t, other = own ++ '-' :: t) ∨ ∃ t u, own = other ++ '-' :: t ∧ suffix = t ++ '-' :: u := by
  constructor
  · rintro ⟨u, same⟩
    rcases List.append_eq_append_iff.mp same with ⟨a, rfl, rest⟩ | ⟨a, rfl, rest⟩
    · cases a with
      | nil => exact Or.inl (List.append_nil other).symm
      | cons c t =>
        obtain ⟨rfl, follows⟩ := List.cons.inj rest
        exact Or.inr (Or.inr ⟨t, u, rfl, follows⟩)
    · cases a with
      | nil => exact Or.inl (List.append_nil own)
      | cons c t =>
        obtain ⟨rfl, -⟩ := List.cons.inj rest
        exact Or.inr (Or.inl ⟨t, rfl⟩)
  · rintro (rfl | ⟨t, rfl⟩ | ⟨t, u, rfl, rfl⟩)
    · exact ⟨suffix, rfl⟩
    · exact ⟨t ++ '-' :: suffix, by simp⟩
    · exact ⟨u, by simp⟩

end Names

section Matchers

variable {ω : Type} {lenient : Bool}

def podMatcher (workload : List Char) : Matcher := ⟨"pod".toList, .regex, pattern workload ++ "-.*".toList⟩

set_option maxRecDepth 8000 in
theorem p95_shape (lenient : Bool) (namespace_ workload container : List Char) (resKind : ResKind) :
    ∀ q ∈ p95Query namespace_ workload container resKind,
      (intended lenient q.format.toList (q.args.map slot)).map (matchers []) =
        some [equalTo "namespace" namespace_, podMatcher workload, equalTo "container" container] := by
  intro q built
  have meant : slot (.pods workload) = .value (pattern workload ++ "-.*".toList) := rfl
  have pod : podMatcher workload = ⟨"pod".toList, .regex, pattern workload ++ "-.*".toList⟩ := rfl
  rw [pod]
  generalize pattern workload ++ "-.*".toList = v at meant
  cases resKind <;> cases built <;> simp only [List.map_cons, List.map_nil, meant, String.toList_append] <;>
    repeat rw [String.toList_ofList]
  all_goals rfl

theorem overPods_members {α : Type} (c n p : α) (category : MetricCategory) (filterContainer : Bool) :
    p ∈ overPods c n p category filterContainer ∧ ∀ m ∈ overPods c n p category filterContainer, m = c ∨ m = n ∨ m = p := by
  cases category <;> cases filterContainer <;> simp [overPods]

/-- The matchers of either query: one on pods among them, and no other one on pods. -/
theorem query_matchers (lenient : Bool) (all : Workloads ω) (w : ω) (request : Request) :
    ∀ q ∈ query all w request, ∃ tokens, lex lenient q.text = some tokens ∧
      podMatcher (all.name w).chars ∈ matchers [] tokens ∧
      ∀ m ∈ matchers [] tokens, m.label = "pod".toList → m = podMatcher (all.name w).chars := by
  intro q built
  cases request with
  | p95 container resKind =>
    obtain ⟨tokens, meant, found⟩ := Option.map_eq_some_iff.mp
      (p95_shape lenient all.namespace_.chars (all.name w).chars container.chars resKind q built)
    have fine : ∀ a ∈ q.args, a.source.all (readable lenient) = true := by
      cases resKind <;> cases built <;> simp [Arg.source, dns_readable, -List.all_eq_true]
    refine ⟨tokens, lex_intended fine meant, ?_⟩
    rw [found]
    simp [podMatcher, equalTo]
  | metric category filterContainer =>
    have fine : ∀ a ∈ q.args, a.source.all (readable lenient) = true := by
      cases category <;> cases built <;> simp [Arg.source, dns_readable, -List.all_eq_true]
    obtain ⟨tokens, meant, found⟩ := Option.map_eq_some_iff.mp
      (pods_shape lenient true rfl all.namespace_.chars category filterContainer q built)
    refine ⟨tokens, lex_intended fine meant, ?_⟩
    rw [found]
    obtain ⟨member, listed⟩ := overPods_members container (equalTo "namespace" all.namespace_.chars)
      (podMatcher (all.name w).chars) category filterContainer
    refine ⟨member, fun m inside label => ?_⟩
    rcases listed m inside with rfl | rfl | rfl
    · exact absurd label (by decide)
    · have namespace_ : ("namespace".toList : List Char) ≠ "pod".toList := by decide
      exact absurd label namespace_
    · rfl

end Matchers

section Conclusion

variable {ω : Type} {lenient : Bool}

theorem selects_iff {all : Workloads ω} {w : ω} {request : Request} {q : Query} (built : q ∈ query all w request) (pod : List Char) :
    Selects lenient q pod ↔ ∃ u, pod = (all.name w).chars ++ '-' :: u := by
  obtain ⟨tokens, read, member, only⟩ := query_matchers lenient all w request q built
  obtain ⟨r, parsed, exact_⟩ := pods_pattern (dns_settled (all.name w))
  constructor
  · rintro ⟨other, again, -, accepts⟩
    obtain rfl := Option.some.inj (read.symm.trans again)
    obtain ⟨s, found, held⟩ := accepts _ member rfl
    obtain rfl := Option.some.inj (parsed.symm.trans found)
    exact (exact_ pod).mp held
  · intro begins
    refine ⟨tokens, read, ⟨_, member, rfl⟩, ?_⟩
    intro m listed label
    rw [only m listed label]
    exact ⟨r, parsed, (exact_ pod).mpr begins⟩

/-- The queries for a workload read its own pods, and of the pods of other workloads those that collide with it. -/
theorem workload_reads (lenient : Bool) (all : Workloads ω) (w : ω) (request : Request) (pod : Pod ω) :
    match query all w request with
    | none => True
    | some q => Selects lenient q (pod.name all) ↔ pod.owner = w ∨ Collides all w pod := by
  cases built : query all w request with
  | none => trivial
  | some q =>
    dsimp only
    rw [selects_iff built, Pod.name, hyphen_iff]
    by_cases own : pod.owner = w
    · rw [own]
      exact ⟨fun _ => Or.inl rfl, fun _ => Or.inl rfl⟩
    · constructor
      · exact fun begins => Or.inr ⟨own, begins⟩
      · rintro (same | ⟨-, begins⟩)
        · exact absurd same own
        · exact begins

/-- A name, by running through its characters. -/
def checkedName (chars : List Char) (dns : chars.all dnsChar = true) : Name := ⟨chars, List.all_eq_true.mp dns⟩

-- The workloads web and web-api.
def twoWorkloads : Workloads Bool where
  namespace_ := checkedName ['d'] rfl
  name api := if api then checkedName ['w', 'e', 'b', '-', 'a', 'p', 'i'] rfl else checkedName ['w', 'e', 'b'] rfl

theorem other_read : ∃ q ∈ query twoWorkloads false (.p95 (checkedName ['c'] rfl) .cpu),
    Selects false q (Pod.name twoWorkloads ⟨true, ['0']⟩) ∧ (⟨true, ['0']⟩ : Pod Bool).owner ≠ false := by
  refine ⟨_, rfl, ?_, Bool.noConfusion⟩
  rw [@selects_iff Bool false twoWorkloads false (.p95 (checkedName ['c'] rfl) .cpu) _ rfl]
  exact ⟨['a', 'p', 'i', '-', '0'], rfl⟩

end Conclusion

end PodMatching
