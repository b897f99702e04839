import Mathlib.Data.String.Basic
import Radar.Base.Firsts

/- pkg/gitops/insights: the issues of an Argo Application, and whether every broken managed resource
   is among them. -/
namespace InsightIssues
open Firsts List

section Model

inductive Severity where
  | critical | alert | warning | info
  deriving DecidableEq

inductive Scope where
  | operation | resource | condition | tree | lifecycle
  deriving DecidableEq

structure Ref where
  group : String
  kind : String
  namespace_ : String
  name : String
  deriving DecidableEq

structure Issue where
  severity : Severity
  scope : Scope
  reason : String
  message : String
  refs : List Ref
  action : String
  cause : String
  deriving DecidableEq

/-- An object of status.resources. -/
structure Entry where
  ref : Ref
  sync : String
  health : String

/-- What the message of a failed operation is parsed to: the resource it names, if any, and the
namespace that it misses. -/
structure Failure where
  affectedKind : String
  affectedName : String
  missingNamespace : Option String

/-- The Application, with the issues that are not of single resources: those of its deletion, its
operation and its conditions, and of the degraded resources of its tree. -/
structure Application where
  entries : List Entry
  distinct : (entries.map Entry.ref).Nodup
  failure : Option Failure
  others : List Issue
  other_scope : ∀ i ∈ others, i.scope ≠ .resource
  degraded : List Issue
  degraded_scope : ∀ i ∈ degraded, i.scope ≠ .resource

def Scope.text : Scope → String
  | operation => "operation"
  | resource => "resource"
  | condition => "condition"
  | tree => "tree"
  | lifecycle => "lifecycle"

def severityRank : Severity → Nat
  | .critical => 0
  | .alert => 1
  | .warning => 2
  | .info => 3

def broken (health : String) : Bool := health = "Degraded" ∨ health = "Missing"

/-- changeRank of the category that categorizeArgoChange gives. -/
def changeRank (e : Entry) : Nat := if broken e.health then 0
  else if e.health = "Progressing" then 2
  else if e.health = "Suspended" ∨ e.sync = "Synced" then 4
  else if e.sync = "OutOfSync" then 1
  else if e.sync = "Pruned" then 4
  else 3

def changeBefore (a b : Entry) : Bool := if changeRank a ≠ changeRank b then changeRank a < changeRank b
  else if a.ref.kind ≠ b.ref.kind then a.ref.kind < b.ref.kind
  else a.ref.name ≤ b.ref.name

def argoResourceChanges (entries : List Entry) : List Entry :=
  (entries.filter fun e => e.ref.kind ≠ "" ∧ e.ref.name ≠ "").mergeSort changeBefore

def suppressionKey (ref : Ref) : String := ref.kind ++ "/" ++ ref.name

def suppressed (failure : Option Failure) (ref : Ref) : Bool := failure.any fun f =>
    (f.affectedKind ≠ "" ∧ f.affectedName ≠ "" ∧
      suppressionKey ref = f.affectedKind ++ "/" ++ f.affectedName) ∨
    (ref.namespace_ ≠ "" ∧ f.missingNamespace = some ref.namespace_)

def issueOf (cause : Ref → String) (e : Entry) : Option Issue :=
  let subject := e.ref.kind ++ " " ++ e.ref.name
  if broken e.health then
    some ⟨.critical, .resource, e.health, subject ++ " is " ++ e.health, [e.ref],
      "Open the resource drawer for events, logs, and YAML.", cause e.ref⟩
  else if e.sync = "OutOfSync" then
    some ⟨.warning, .resource, "OutOfSync", subject ++ " is out of sync", [e.ref],
      "Review Changes or run sync.", ""⟩
  else none

def dedupeKey (i : Issue) : String := i.scope.text ++ "|" ++ i.reason ++ "|" ++ i.message ++ "|" ++
    ((i.refs.head?).map suppressionKey).getD ""

def gathered (cause : Ref → String) (app : Application) : List Issue :=
  let out := app.others ++ ((argoResourceChanges app.entries).filter fun e =>
    ¬ suppressed app.failure e.ref).filterMap (issueOf cause)
  if out = [] then app.degraded else out

def buildIssues (cause : Ref → String) (app : Application) : List Issue :=
  (firsts dedupeKey [] (gathered cause app)).mergeSort fun a b =>
    severityRank a.severity ≤ severityRank b.severity

end Model

section Statement

/-- The severity that an entry asks for. -/
def Entry.asks (e : Entry) : Option Severity :=
  if broken e.health then some .critical else if e.sync = "OutOfSync" then some .warning else none

/-- Every entry that asks for an issue, and that the failure of the operation does not explain, has one
under its own identity. -/
def Complete (cause : Ref → String) (app : Application) : Prop :=
  ∀ e ∈ app.entries, ∀ severity, e.asks = some severity → suppressed app.failure e.ref = false →
    ∃ i ∈ buildIssues cause app, i.severity = severity ∧ i.scope = .resource ∧ i.refs = [e.ref]

def Entry.state (e : Entry) : Option String :=
  if broken e.health then some e.health else if e.sync = "OutOfSync" then some "OutOfSync" else none

structure Told (app : Application) (e : Entry) : Prop where
  member : e ∈ app.entries
  state : e.state ≠ none
  kept : suppressed app.failure e.ref = false

end Statement

section Keys
variable {cause : Ref → String} {app : Application} {e e' : Entry} {i i' : Issue}

theorem parted {k n k' n' : List Char} (spaced : k ++ ' ' :: n = k' ++ ' ' :: n')
    (slashed : k ++ '/' :: n = k' ++ '/' :: n') : k = k' ∧ n = n' := by
  induction k generalizing k' with
  | nil =>
    cases k' with
    | nil => exact ⟨rfl, (cons.inj spaced).2⟩
    | cons c rest =>
      have both := (cons.inj spaced).1.trans (cons.inj slashed).1.symm
      exact absurd both (by decide)
  | cons c rest ih =>
    cases k' with
    | nil =>
      have both := (cons.inj spaced).1.symm.trans (cons.inj slashed).1
      exact absurd both (by decide)
    | cons c' rest' =>
      obtain ⟨rfl, spacedRest⟩ := cons.inj spaced
      obtain ⟨rfl, same⟩ := ih spacedRest (cons.inj slashed).2
      exact ⟨rfl, same⟩

/-- Kind and name are read back from the message and the reference together. -/
theorem subject_inj {more k n k' n' : List Char}
    (same : (k ++ ' ' :: n) ++ (more ++ (k ++ '/' :: n)) =
      (k' ++ ' ' :: n') ++ (more ++ (k' ++ '/' :: n'))) : k = k' ∧ n = n' := by
  have size : (k ++ ' ' :: n).length = (k' ++ ' ' :: n').length := by
    have whole := congrArg length same
    simp only [length_append, length_cons] at whole ⊢
    omega
  obtain ⟨spaced, rest⟩ := append_inj same size
  exact parted spaced (append_cancel_left rest)

theorem made_issue (made : issueOf cause e = some i) :
    i.scope = .resource ∧ i.refs = [e.ref] ∧ some i.severity = e.asks ∧ some i.reason = e.state ∧
      i.message.toList = (e.ref.kind.toList ++ ' ' :: e.ref.name.toList) ++
        (if i.reason = "OutOfSync" then " is out of sync" else " is " ++ i.reason).toList := by
  unfold issueOf at made
  dsimp only at made
  split at made
  next down =>
    have other : e.health ≠ "OutOfSync" := by
      intro same
      simp [broken, same] at down
    obtain rfl := Option.some.inj made
    simp [Entry.asks, Entry.state, down, other]
  next up =>
    split at made
    next drifted =>
      obtain rfl := Option.some.inj made
      simp [Entry.asks, Entry.state, up, drifted]
    next => exact absurd made (by simp)

theorem issue_exists (known : e.state ≠ none) : ∃ i, issueOf cause e = some i := by
  unfold issueOf
  unfold Entry.state at known
  split_ifs at known ⊢
  · exact ⟨_, rfl⟩
  · exact ⟨_, rfl⟩
  · exact absurd rfl known

theorem state_cases {reason : String} (known : e.state = some reason) :
    reason = "Degraded" ∨ reason = "Missing" ∨ reason = "OutOfSync" := by
  unfold Entry.state at known
  split_ifs at known with down drifted
  · obtain rfl := Option.some.inj known
    simp only [broken, decide_eq_true_eq] at down
    exact down.elim .inl fun missing => .inr (.inl missing)
  · exact .inr (.inr (Option.some.inj known).symm)

/-- Issues of resources have one key where state, kind and name are the same. -/
theorem resource_keys (made : issueOf cause e = some i) (made' : issueOf cause e' = some i') :
    dedupeKey i = dedupeKey i' ↔
      e.state = e'.state ∧ e.ref.kind = e'.ref.kind ∧ e.ref.name = e'.ref.name := by
  obtain ⟨scope, refs, _, state, message⟩ := made_issue made
  obtain ⟨scope', refs', _, state', message'⟩ := made_issue made'
  rw [← String.toList_inj, ← @String.toList_inj e.ref.kind, ← @String.toList_inj e.ref.name]
  simp only [dedupeKey, scope, scope', refs, refs', head?_cons, Option.map_some,
    Option.getD_some, suppressionKey, String.toList_append, message, message', ← state, ← state']
  constructor
  · intro same
    have reasons : i.reason = i'.reason := by
      rcases state_cases state.symm with known | known | known <;>
        rcases state_cases state'.symm with known' | known' | known' <;>
          simp [known, known'] at same ⊢
    rw [reasons] at same ⊢
    refine ⟨rfl, ?_⟩
    simp only [append_assoc, append_cancel_left_eq] at same
    apply @subject_inj
      ((if i'.reason = "OutOfSync" then " is out of sync" else " is " ++ i'.reason).toList ++ ['|'])
    simpa using same
  · rintro ⟨reasons, kinds, names⟩
    rw [Option.some.inj reasons, kinds, names]

theorem other_key (made : issueOf cause e = some i) (other : i'.scope ≠ .resource) :
    dedupeKey i ≠ dedupeKey i' := by
  intro same
  have chars := congrArg String.toList same
  simp only [dedupeKey, (made_issue made).1, String.toList_append] at chars
  cases scope : i'.scope with
  | resource => exact other scope
  | operation | condition | tree | lifecycle => simp [scope, Scope.text] at chars

theorem mem_gathered (member : i ∈ gathered cause app) : i.scope ≠ .resource ∨
      ∃ e, Told app e ∧ e.ref.kind ≠ "" ∧ e.ref.name ≠ "" ∧ issueOf cause e = some i := by
  unfold gathered at member
  dsimp only at member
  split at member
  · exact .inl (app.degraded_scope i member)
  · rcases mem_append.mp member with other | resource
    · exact .inl (app.other_scope i other)
    · obtain ⟨e, listed, made⟩ := mem_filterMap.mp resource
      obtain ⟨changed, kept⟩ := mem_filter.mp listed
      rw [argoResourceChanges, mem_mergeSort, mem_filter] at changed
      have named := of_decide_eq_true changed.2
      have state : e.state ≠ none := by
        rw [← (made_issue made).2.2.2.1]
        simp
      exact .inr ⟨e, ⟨changed.1, state, by simpa using kept⟩, named.1, named.2, made⟩

theorem gathered_mem (told : Told app e) (kind : e.ref.kind ≠ "") (name : e.ref.name ≠ "")
    (made : issueOf cause e = some i) : i ∈ gathered cause app := by
  have resource : i ∈ ((argoResourceChanges app.entries).filter fun e =>
      ¬ suppressed app.failure e.ref).filterMap (issueOf cause) := by
    refine mem_filterMap.mpr ⟨e, mem_filter.mpr ⟨?_, by simp [told.kept]⟩, made⟩
    rw [argoResourceChanges, mem_mergeSort, mem_filter]
    exact ⟨told.member, decide_eq_true ⟨kind, name⟩⟩
  unfold gathered
  rw [if_neg]
  · exact mem_append_right _ resource
  · intro empty
    rw [(append_eq_nil_iff.mp empty).2] at resource
    exact absurd resource not_mem_nil

/-- The entry behind an issue with its identity is the entry itself. -/
theorem own_issue (app : Application) (told : Told app e) (member : i ∈ buildIssues cause app)
    (scope : i.scope = .resource) (refs : i.refs = [e.ref]) :
    i ∈ firsts dedupeKey [] (gathered cause app) ∧ issueOf cause e = some i ∧
      e.ref.kind ≠ "" ∧ e.ref.name ≠ "" := by
  rw [buildIssues, mem_mergeSort] at member
  rcases mem_gathered (firsts_mem member) with other | ⟨own, ownTold, kind, name, made⟩
  · exact absurd scope other
  · have same : own.ref = e.ref := singleton_inj.mp ((made_issue made).2.1.symm.trans refs)
    obtain rfl := inj_on_of_nodup_map app.distinct ownTold.member told.member same
    exact ⟨member, made, kind, name⟩

/-- Of the entries that show alike, one has an issue. -/
theorem one_issue (member : i ∈ firsts dedupeKey [] (gathered cause app))
    (member' : i' ∈ firsts dedupeKey [] (gathered cause app)) (made : issueOf cause e = some i)
    (made' : issueOf cause e' = some i') (state : e.state = e'.state)
    (kind : e.ref.kind = e'.ref.kind) (name : e.ref.name = e'.ref.name) : e.ref = e'.ref := by
  have distinct : ((firsts dedupeKey [] (gathered cause app)).map dedupeKey).Nodup :=
    firsts_nodup (by simp) _
  have same := inj_on_of_nodup_map distinct member member'
    ((resource_keys made made').mpr ⟨state, kind, name⟩)
  have refs := (made_issue made).2.1
  rw [same, (made_issue made').2.1] at refs
  exact (singleton_inj.mp refs).symm

end Keys

section Conclusion

/-- Every broken resource has its issue exactly where those told of have a kind and a name, and no two
of them show alike. -/
theorem broken_shown_iff (cause : Ref → String) (app : Application) : Complete cause app ↔
      (∀ e, Told app e → e.ref.kind ≠ "" ∧ e.ref.name ≠ "") ∧
      ∀ e e', Told app e → Told app e' → e.state = e'.state → e.ref.kind = e'.ref.kind →
        e.ref.name = e'.ref.name → e = e' := by
  constructor
  · intro complete
    have issue : ∀ e, Told app e → ∃ i ∈ firsts dedupeKey [] (gathered cause app),
        issueOf cause e = some i ∧ e.ref.kind ≠ "" ∧ e.ref.name ≠ "" := by
      intro e told
      obtain ⟨given, made⟩ := @issue_exists cause e told.state
      obtain ⟨i, member, _, scope, refs⟩ := complete e told.member _ (made_issue made).2.2.1.symm told.kept
      exact ⟨i, own_issue app told member scope refs⟩
    refine ⟨fun e told => (issue e told).elim fun i own => own.2.2, ?_⟩
    intro e e' told told' state kind name
    obtain ⟨i, member, made, _⟩ := issue e told
    obtain ⟨i', member', made', _⟩ := issue e' told'
    exact List.inj_on_of_nodup_map app.distinct told.member told'.member
      (one_issue member member' made made' state kind name)
  · rintro ⟨named, apart⟩ e member severity asks kept
    have state : e.state ≠ none := by
      unfold Entry.asks at asks
      unfold Entry.state
      split_ifs at asks ⊢ <;> simp_all
    have told : Told app e := ⟨member, state, kept⟩
    obtain ⟨i, made⟩ := @issue_exists cause e state
    obtain ⟨kind, name⟩ := named e told
    obtain ⟨shown, first, same⟩ : ∃ shown ∈ firsts dedupeKey [] (gathered cause app),
        dedupeKey shown = dedupeKey i := firsts_covers [] (gathered_mem told kind name made)
    rcases mem_gathered (firsts_mem first) with other | ⟨own, ownTold, _, _, ownMade⟩
    · exact absurd same.symm (other_key made other)
    · obtain ⟨states, kinds, names⟩ := (resource_keys ownMade made).mp same
      obtain rfl := apart own e ownTold told states kinds names
      obtain ⟨scope, refs, given, _⟩ := made_issue ownMade
      refine ⟨shown, ?_, Option.some.inj (given.trans asks), scope, refs⟩
      rw [buildIssues, List.mem_mergeSort]
      exact first

def missingIn (namespace_ : String) : Entry :=
  ⟨⟨"apps", "Deployment", namespace_, "web"⟩, "OutOfSync", "Missing"⟩

/-- Deployments of one name, missing in two namespaces. -/
def twoMissing : Application where
  entries := [missingIn "east", missingIn "west"]
  distinct := by decide
  failure := none
  others := []
  other_scope := by simp
  degraded := []
  degraded_scope := by simp

theorem second_missing_lost : ¬ Complete (fun _ => "") twoMissing := by
  intro complete
  have issue : ∀ e ∈ twoMissing.entries, ∃ i ∈ firsts dedupeKey [] (gathered (fun _ => "") twoMissing),
        issueOf (fun _ => "") e = some i := by
    intro e listed
    have down : ∀ e ∈ twoMissing.entries, e.state ≠ none ∧ e.asks = some .critical := by decide
    have told : Told twoMissing e := ⟨listed, (down e listed).1, rfl⟩
    obtain ⟨i, member, _, scope, refs⟩ := complete e listed .critical (down e listed).2 rfl
    exact ⟨i, (own_issue twoMissing told member scope refs).imp_right And.left⟩
  obtain ⟨i, member, made⟩ := issue (missingIn "east") (by simp [twoMissing])
  obtain ⟨i', member', made'⟩ := issue (missingIn "west") (by simp [twoMissing])
  exact absurd (one_issue member member' made made' rfl rfl rfl) (by decide)

end Conclusion

end InsightIssues
