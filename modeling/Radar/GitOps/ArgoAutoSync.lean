import Radar.Base.MergePatch

/- pkg/gitops/operations.go: SetArgoAutoSync, which suspends and resumes an Application's automated
   sync. -/
namespace ArgoAutoSync
open MergePatch
variable {key : String}

def argoSuspendedPruneAnnotation : String := "radarhq.io/suspended-prune"

def argoSuspendedSelfHealAnnotation : String := "radarhq.io/suspended-selfheal"

def legacyArgoSuspendedPruneAnnotation : String := "skyhook.io/suspended-prune"

def legacyArgoSuspendedSelfHealAnnotation : String := "skyhook.io/suspended-selfheal"

def suspendAnnotations : List String := [ argoSuspendedPruneAnnotation, argoSuspendedSelfHealAnnotation,
    legacyArgoSuspendedPruneAnnotation, legacyArgoSuspendedSelfHealAnnotation]

/-- An object as the API server keeps it: annotations are texts. -/
structure Application where
  object : Json
  annotated : ∀ key value, object.get ["metadata", "annotations", key] = some value →
    ∃ text, value = .string text

def asString : Json → Option String
  | .string text => some text
  | _ => none

def Application.annotationText (app : Application) (key : String) : Option String :=
  (app.object.get ["metadata", "annotations", key]).bind asString

def Application.automated (app : Application) : Option Json :=
  app.object.get ["spec", "syncPolicy", "automated"]

/-- GetDeletionTimestamp: a text that stands for a time other than the zero one. -/
def Application.terminating (isTime : String → Bool) (app : Application) : Bool :=
  match (app.object.get ["metadata", "deletionTimestamp"]).bind asString with
  | some text => isTime text
  | none => false

def Application.finalizers (app : Application) : List String :=
  match app.object.get ["metadata", "finalizers"] with
  | some (.array elements) => (elements.mapM asString).getD []
  | _ => []

/-- The saved setting: the current key, else the key of older builds, else true. -/
def Application.saved (app : Application) (key legacy : String) : Bool := match app.annotationText key with
  | some text => text == "true"
  | none =>
    match app.annotationText legacy with
    | some text => text == "true"
    | none => true

def automatedFlag (automated : Option Json) (name : String) : Bool :=
  match automated.bind (·.field name) with
  | some (.bool b) => b
  | _ => false

def automatedPolicy (prune selfHeal : Bool) : Json :=
  entries [("prune", .bool prune), ("selfHeal", .bool selfHeal)]

def automatedPatch (annotations : List (String × Json)) (automated : Json) : Json :=
  entries [("metadata", entries [("annotations", entries annotations)]),
    ("spec", entries [("syncPolicy", entries [("automated", automated)])])]

theorem annotation_merged (app : Application) (annotations : List (String × Json))
    (automated : Json) (key : String) :
    (merge app.object (automatedPatch annotations automated)).get ["metadata", "annotations", key] =
      match annotations.lookup key with
      | none => app.object.get ["metadata", "annotations", key]
      | some value => mergeField (app.object.get ["metadata", "annotations", key]) (some value) := by
  cases named : annotations.lookup key with
  | none =>
    apply get_merge_untouched
    simp [Untouched, automatedPatch, entries, named]
  | some value =>
    apply get_merge_patched (List.cons_ne_nil _ _)
    simp [Json.get, Json.field, automatedPatch, entries, named]

theorem mem_of_lookup {annotations : List (String × Json)} {value : Json}
    (named : annotations.lookup key = some value) : (key, value) ∈ annotations := by
  obtain ⟨before, after, whole, _⟩ := List.lookup_eq_some_iff.mp named
  rw [whole]
  exact List.mem_append_right _ List.mem_cons_self

/-- The Application a patch leaves, its annotations still texts. -/
def Application.patched (app : Application) (annotations : List (String × Json)) (automated : Json)
    (texts : ∀ entry ∈ annotations, entry.2 = .null ∨ ∃ text, entry.2 = .string text) :
    Application where
  object := merge app.object (automatedPatch annotations automated)
  annotated := by
    intro key value found
    rw [annotation_merged] at found
    cases named : annotations.lookup key with
    | none =>
      rw [named] at found
      exact app.annotated key value found
    | some patch =>
      rw [named] at found
      have kinds : patch = .null ∨ ∃ text, patch = .string text := texts _ (mem_of_lookup named)
      rcases kinds with removed | ⟨text, written⟩
      · rw [removed] at found
        exact absurd found (by simp [mergeField])
      · rw [written] at found
        exact ⟨text, by simpa [mergeField, merge] using found.symm⟩

def suspendTexts (prune selfHeal : Bool) : List (String × Json) :=
  [( argoSuspendedPruneAnnotation, .string (toString prune)),
    ( argoSuspendedSelfHealAnnotation, .string (toString selfHeal))]

def resumeTexts : List (String × Json) := suspendAnnotations.map fun key => (key, .null)

theorem suspend_texts_written (prune selfHeal : Bool) : ∀ entry ∈ suspendTexts prune selfHeal,
    entry.2 = .null ∨ ∃ text, entry.2 = .string text := by
  intro entry member
  simp only [suspendTexts, List.mem_cons, List.not_mem_nil, or_false] at member
  rcases member with rfl | rfl
  · exact Or.inr ⟨_, rfl⟩
  · exact Or.inr ⟨_, rfl⟩

theorem resume_texts_removed : ∀ entry ∈ resumeTexts, entry.2 = .null ∨ ∃ text, entry.2 = .string text := by
  intro entry member
  obtain ⟨key, _, rfl⟩ := List.mem_map.mp member
  exact Or.inl rfl

def Application.suspend (app : Application) : Application := app.patched
    (suspendTexts (automatedFlag app.automated "prune") (automatedFlag app.automated "selfHeal"))
    .null (suspend_texts_written _ _)

def Application.resume (app : Application) : Application := app.patched resumeTexts
    (automatedPolicy
      (app.saved argoSuspendedPruneAnnotation legacyArgoSuspendedPruneAnnotation)
      (app.saved argoSuspendedSelfHealAnnotation legacyArgoSuspendedSelfHealAnnotation))
    resume_texts_removed

structure OperationResult where
  message : String
  operation : String
  tool : String
  kind : String
  namespace_ : String
  name : String
  deriving DecidableEq, Repr

/-- The error of assertNotTerminating for an object that is being deleted. -/
def terminatingError (app : Application) (kind namespace_ name : String) : String :=
  let finalizers := app.finalizers
  let suffix := if finalizers.isEmpty then ""
    else " (finalizers: " ++ ", ".intercalate finalizers ++ ")"
  kind ++ " " ++ namespace_ ++ "/" ++ name ++ " is being deleted" ++ suffix ++
    ": resource is pending deletion"

/-- The API server's text for an Application it does not have. -/
def notFoundError (namespace_ name : String) : String :=
  "ArgoCD Application " ++ namespace_ ++ "/" ++ name ++ " not found: " ++
    "applications.argoproj.io \"" ++ name ++ "\" not found"

/-- One call against the Application the server has, and the Application it has afterwards. -/
def setArgoAutoSync (isTime : String → Bool) (namespace_ name : String) (enable : Bool)
    (stored : Option Application) : Except String OperationResult × Option Application :=
  match stored with
  | none => (.error (notFoundError namespace_ name), none)
  | some app =>
    if app.terminating isTime then
      (.error (terminatingError app "ArgoCD Application" namespace_ name), some app)
    else
      let operation := if enable then "resume" else "suspend"
      let pastAction := if enable then "resumed" else "suspended"
      (.ok
        { message := "ArgoCD Application " ++ namespace_ ++ "/" ++ name ++ " auto-sync " ++ pastAction
          operation := operation
          tool := "argocd"
          kind := "Application"
          namespace_ := namespace_
          name := name },
        some (if enable then app.resume else app.suspend))

/-- A sequence of calls, each with its enable flag, whatever they answer. -/
def setCalls (isTime : String → Bool) (namespace_ name : String) (calls : List Bool)
    (stored : Option Application) : Option Application :=
  calls.foldl (fun stored enable => (setArgoAutoSync isTime namespace_ name enable stored).2) stored

section Patch
variable (app : Application) {annotations : List (String × Json)} {automated : Json}
  (texts : ∀ entry ∈ annotations, entry.2 = .null ∨ ∃ text, entry.2 = .string text)

theorem automated_patched : (app.patched annotations automated texts).automated =
    mergeField app.automated (some automated) :=
  get_merge_patched (List.cons_ne_nil _ _) rfl

theorem terminating_patched (isTime : String → Bool) :
    (app.patched annotations automated texts).terminating isTime = app.terminating isTime := by
  have kept : (app.patched annotations automated texts).object.get
      ["metadata", "deletionTimestamp"] = app.object.get ["metadata", "deletionTimestamp"] :=
    get_merge_untouched trivial
  rw [Application.terminating, kept, Application.terminating]

theorem annotation_patched (key : String) : (app.patched annotations automated texts).annotationText key =
      match annotations.lookup key with
      | none => app.annotationText key
      | some value => asString value := by
  have merged := annotation_merged app annotations automated key
  unfold Application.annotationText Application.patched
  rw [merged]
  cases named : annotations.lookup key with
  | none => rfl
  | some value =>
    have kinds : value = .null ∨ ∃ text, value = .string text := texts _ (mem_of_lookup named)
    rcases kinds with removed | ⟨text, written⟩
    · rw [removed]
      rfl
    · rw [written]
      rfl

end Patch

theorem suspend_annotations (app : Application) : app.suspend.annotationText argoSuspendedPruneAnnotation =
      some (toString (automatedFlag app.automated "prune")) ∧
    app.suspend.annotationText argoSuspendedSelfHealAnnotation =
      some (toString (automatedFlag app.automated "selfHeal")) := by
  constructor
  · rw [Application.suspend, annotation_patched]
    rfl
  · rw [Application.suspend, annotation_patched]
    rfl

theorem resume_annotations (app : Application) (member : key ∈ suspendAnnotations) :
    app.resume.annotationText key = none := by
  rw [Application.resume, annotation_patched]
  cases named : resumeTexts.lookup key with
  | none =>
    have absent := List.lookup_eq_none_iff.mp named (key, .null) (List.mem_map_of_mem member)
    simp at absent
  | some value =>
    obtain ⟨_, _, same⟩ := List.mem_map.mp (mem_of_lookup named)
    have removed : Json.null = value := congrArg Prod.snd same
    rw [← removed]
    rfl

/-- What matters of an Application between two calls: whether its automated sync is on, and the
   settings it has or, when suspended, has saved. -/
structure Policy where
  enabled : Bool
  prune : Bool
  selfHeal : Bool
  deriving DecidableEq, Repr

variable {app : Application} {policy : Policy}

/-- A call that repeats the one before it loses the settings: a second suspend saves two falses, a
   second resume finds nothing saved and turns both on. -/
def Policy.next (policy : Policy) (enable : Bool) : Policy :=
  if enable = policy.enabled then ⟨enable, enable, enable⟩ else { policy with enabled := enable }

structure Shows (app : Application) (policy : Policy) : Prop where
  automated : app.automated =
    if policy.enabled then some (automatedPolicy policy.prune policy.selfHeal) else none
  suspended : policy.enabled = false →
    app.annotationText argoSuspendedPruneAnnotation = some (toString policy.prune) ∧
      app.annotationText argoSuspendedSelfHealAnnotation = some (toString policy.selfHeal)
  resumed : policy.enabled = true → ∀ key ∈ suspendAnnotations, app.annotationText key = none

theorem shows_suspend (app : Application) : Shows app.suspend
    ⟨false, automatedFlag app.automated "prune", automatedFlag app.automated "selfHeal"⟩ := by
  constructor
  · rw [Application.suspend, automated_patched]
    rfl
  · intro _
    exact suspend_annotations app
  · intro enabled
    exact absurd enabled Bool.false_ne_true

theorem saved_eq (shows_ : Shows app policy) :
    app.saved argoSuspendedPruneAnnotation legacyArgoSuspendedPruneAnnotation =
      (policy.enabled || policy.prune) ∧
    app.saved argoSuspendedSelfHealAnnotation legacyArgoSuspendedSelfHealAnnotation =
      (policy.enabled || policy.selfHeal) := by
  unfold Application.saved
  cases enabled : policy.enabled with
  | false =>
    obtain ⟨prune, selfHeal⟩ := shows_.suspended enabled
    rw [prune, selfHeal]
    cases policy.prune <;> cases policy.selfHeal <;> exact ⟨rfl, rfl⟩
  | true =>
    have none := shows_.resumed enabled
    rw [none argoSuspendedPruneAnnotation (by decide), none argoSuspendedSelfHealAnnotation (by decide),
      none legacyArgoSuspendedPruneAnnotation (by decide),
      none legacyArgoSuspendedSelfHealAnnotation (by decide)]
    exact ⟨rfl, rfl⟩

theorem policy_field (p s : Bool) (first : key ≠ "prune")
    (second : key ≠ "selfHeal") : (automatedPolicy p s).field key = none := by
  apply List.lookup_eq_none_iff.mpr
  intro entry member
  simp only [List.mem_cons, List.not_mem_nil, or_false] at member
  rcases member with rfl | rfl
  · exact bne_iff_ne.mpr first
  · exact bne_iff_ne.mpr second

/-- A resumed policy is all there is where nothing or another policy was. -/
theorem policy_written {target : Json} (p s : Bool)
    (within : ∀ key, key ≠ "prune" → key ≠ "selfHeal" → target.field key = none) :
    merge target (automatedPolicy p s) = automatedPolicy p s := by
  unfold automatedPolicy entries
  rw [merge]
  congr 1
  funext key
  by_cases first : key = "prune"
  · rw [first]
    rfl
  · by_cases second : key = "selfHeal"
    · rw [second]
      rfl
    · have unnamed := policy_field p s first second
      simp only [automatedPolicy, entries, Json.field] at unnamed
      rw [unnamed, within key first second]
      rfl

theorem resume_automated (shows_ : Shows app policy) : app.resume.automated = some (automatedPolicy
      (policy.enabled || policy.prune) (policy.enabled || policy.selfHeal)) := by
  obtain ⟨prune, selfHeal⟩ := saved_eq shows_
  have within : ∀ key, key ≠ "prune" → key ≠ "selfHeal" → (app.automated.getD .null).field key = none := by
    intro key first second
    rw [shows_.automated]
    cases policy.enabled with
    | false => rfl
    | true => exact policy_field _ _ first second
  rw [Application.resume, automated_patched, prune, selfHeal]
  exact congrArg some (policy_written _ _ within)

theorem policy_flags (p s : Bool) : automatedFlag (some (automatedPolicy p s)) "prune" = p ∧
    automatedFlag (some (automatedPolicy p s)) "selfHeal" = s := ⟨rfl, rfl⟩

theorem shows_resume (shows_ : Shows app policy) : Shows app.resume
      ⟨true, policy.enabled || policy.prune, policy.enabled || policy.selfHeal⟩ := by
  constructor
  · exact resume_automated shows_
  · intro disabled
    exact absurd disabled.symm Bool.false_ne_true
  · intro _ key member
    exact resume_annotations app member

/-- One call on the Application is one step of its policy. -/
theorem shows_next (shows_ : Shows app policy) (enable : Bool) :
    Shows (if enable then app.resume else app.suspend) (policy.next enable) := by
  cases enable with
  | false =>
    have flags : (⟨false, automatedFlag app.automated "prune",
        automatedFlag app.automated "selfHeal"⟩ : Policy) = policy.next false := by
      rw [shows_.automated, Policy.next]
      obtain ⟨enabled, prune, selfHeal⟩ := policy
      cases enabled <;> rfl
    exact flags ▸ shows_suspend app
  | true =>
    have flags : (⟨true, policy.enabled || policy.prune, policy.enabled || policy.selfHeal⟩ :
        Policy) = policy.next true := by
      obtain ⟨enabled, prune, selfHeal⟩ := policy
      cases enabled <;> rfl
    exact flags ▸ shows_resume shows_

section Runs
variable {isTime : String → Bool} {namespace_ name : String}

theorem call_live (live : app.terminating isTime = false) (enable : Bool) :
    (setArgoAutoSync isTime namespace_ name enable (some app)).2 =
      some (if enable then app.resume else app.suspend) := by
  simp [setArgoAutoSync, live]

theorem terminating_kept (app : Application) (enable : Bool) :
    (if enable then app.resume else app.suspend).terminating isTime = app.terminating isTime := by
  cases enable with
  | false => exact terminating_patched app (suspend_texts_written _ _) isTime
  | true => exact terminating_patched app resume_texts_removed isTime

theorem shows_calls (namespace_ name : String) (shows_ : Shows app policy)
    (live : app.terminating isTime = false) (calls : List Bool) :
    ∃ left, setCalls isTime namespace_ name calls (some app) = some left ∧
      Shows left (calls.foldl Policy.next policy) := by
  induction calls generalizing app policy with
  | nil => exact ⟨app, rfl, shows_⟩
  | cons enable rest ih =>
    have later := ih (shows_next shows_ enable) ((terminating_kept app enable).trans live)
    rw [setCalls, List.foldl_cons, call_live live]
    exact later

theorem calls_terminating (ending : app.terminating isTime = true)
    (calls : List Bool) : setCalls isTime namespace_ name calls (some app) = some app := by
  induction calls with
  | nil => rfl
  | cons enable rest ih =>
    have refused : (setArgoAutoSync isTime namespace_ name enable (some app)).2 = some app := by
      simp [setArgoAutoSync, ending]
    rw [setCalls, List.foldl_cons, refused]
    exact ih

end Runs

/-- The call of the last two neighbours that are the same. -/
def lastRepeat : List Bool → Option Bool
  | first :: second :: rest =>
    (lastRepeat (second :: rest)).or (if first = second then some first else none)
  | _ => none

/-- The settings a sequence of calls comes to: what the last repeated call made of them. -/
theorem policy_run (policy : Policy) (calls : List Bool) : calls.foldl Policy.next policy =
      ⟨(policy.enabled :: calls).getLast (List.cons_ne_nil _ _),
        (lastRepeat (policy.enabled :: calls)).getD policy.prune,
        (lastRepeat (policy.enabled :: calls)).getD policy.selfHeal⟩ := by
  induction calls generalizing policy with
  | nil => rfl
  | cons enable rest ih =>
    rw [List.foldl_cons, ih, Policy.next, lastRepeat]
    by_cases again : enable = policy.enabled
    · rw [if_pos again, if_pos again.symm, again]
      cases lastRepeat (policy.enabled :: rest) <;> simp
    · rw [if_neg again, if_neg (Ne.symm again)]
      cases lastRepeat (enable :: rest) <;> simp

/-- The automated policy is as it was and nothing of the suspensions is left. -/
def Restores (app left : Application) : Prop :=
  left.automated = app.automated ∧ ∀ key ∈ suspendAnnotations, left.annotationText key = none

/-- For every sequence from a suspend to a resume: an Application that is being deleted is left alone;
   any other one has its policy restored exactly if that was prune and selfHeal and nothing more, and
   the last call made twice in a row, if there is one, left both as they were. -/
theorem auto_sync_restored_iff (isTime : String → Bool) (namespace_ name : String)
    (app : Application) (calls : List Bool) :
    (∃ left, setCalls isTime namespace_ name (false :: (calls ++ [true])) (some app) = some left ∧
      Restores app left) ↔
    if app.terminating isTime then ∀ key ∈ suspendAnnotations, app.annotationText key = none
    else ∃ prune selfHeal, app.automated = some (automatedPolicy prune selfHeal) ∧
      ∀ r, lastRepeat (false :: (calls ++ [true])) = some r → prune = r ∧ selfHeal = r := by
  by_cases ending : app.terminating isTime = true
  · rw [if_pos ending, calls_terminating ending]
    constructor
    · rintro ⟨left, same, restored⟩
      rw [Option.some.injEq] at same
      exact same ▸ restored.2
    · intro none
      exact ⟨app, rfl, rfl, none⟩
  · have live : app.terminating isTime = false := by simpa using ending
    have suspended := shows_suspend app
    obtain ⟨left, run, shows_⟩ := shows_calls namespace_ name suspended
      ((terminating_kept app false).trans live) (calls ++ [true])
    have whole : setCalls isTime namespace_ name (false :: (calls ++ [true])) (some app) = some left := by
      rw [setCalls, List.foldl_cons, call_live live]
      exact run
    have on : (false :: (calls ++ [true])).getLast (List.cons_ne_nil _ _) = true :=
      List.getLast_concat (l := false :: calls)
    rw [policy_run] at shows_
    have automated := shows_.automated
    simp only [on, if_true] at automated
    have cleared := shows_.resumed on
    rw [if_neg ending]
    constructor
    · rintro ⟨left', run', restored⟩
      have same : left = left' := by
        rw [← Option.some.injEq, ← whole, run']
      rw [← same] at restored
      refine ⟨_, _, restored.1.symm.trans automated, ?_⟩
      intro r last
      simp [last]
    · rintro ⟨prune, selfHeal, before, kept⟩
      refine ⟨left, whole, ?_, cleared⟩
      rw [automated, before, (policy_flags prune selfHeal).1, (policy_flags prune selfHeal).2]
      cases last : lastRepeat (false :: (calls ++ [true])) with
      | none => rfl
      | some r =>
        obtain ⟨first, second⟩ := kept r last
        rw [first, second]
        rfl

/-- An Application with the given automated policy under its spec, if any. -/
def demoApp (syncPolicy : List (String × Json)) : Application where
  object := entries [("spec", entries [("syncPolicy", entries syncPolicy)])]
  annotated := by
    intro key value found
    have bare : (entries [("spec", entries [("syncPolicy", entries syncPolicy)])]).get
        ["metadata", "annotations", key] = none := rfl
    exact absurd (bare.symm.trans found) (by simp)

/-- Suspended twice, an Application that prunes comes back without pruning; suspended once, a manual one
   comes back automated. -/
theorem suspended_twice_loses_policy :
    (¬ ∃ left, setCalls (fun _ => false) "argocd" "demo" [false, false, true]
      (some (demoApp [("automated", automatedPolicy true true)])) = some left ∧
        Restores (demoApp [("automated", automatedPolicy true true)]) left) ∧
    ¬ ∃ left, setCalls (fun _ => false) "argocd" "demo" [false, true] (some (demoApp [])) =
      some left ∧ Restores (demoApp []) left := by
  constructor
  · rintro ⟨left, run, restored⟩
    have same : (demoApp [("automated", automatedPolicy true true)]).suspend.suspend.resume =
        left := Option.some.inj run
    have flags := congrArg (fun automated => automatedFlag automated "prune") restored.1
    rw [← same] at flags
    exact absurd flags (by decide)
  · rintro ⟨left, run, restored⟩
    have same : (demoApp []).suspend.resume = left := Option.some.inj run
    have present := congrArg Option.isSome restored.1
    rw [← same] at present
    exact absurd present (by decide)

end ArgoAutoSync
