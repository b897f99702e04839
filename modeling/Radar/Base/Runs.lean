import Mathlib.Data.List.Induction

/- Runs of a labelled partial step function, and the runs all of whose steps meet a guard.
   A guard looks at the state before a step and at the step's label only. -/
namespace Runs
variable {σ α : Type} {step : σ → α → Option σ} {guard : σ → α → Prop} {labels : List α}
variable {inv : σ → Prop}

def exec (step : σ → α → Option σ) : σ → List α → Option σ
  | s, [] => some s
  | s, a :: rest => (step s a).bind fun t => exec step t rest

def Guarded (step : σ → α → Option σ) (guard : σ → α → Prop) : σ → List α → Prop
  | _, [] => True
  | s, a :: rest => guard s a ∧ ∀ t, step s a = some t → Guarded step guard t rest

/-- The property holds of every state the labels lead through, the first one included. -/
def Along (step : σ → α → Option σ) (property : σ → Prop) : σ → List α → Prop
  | s, [] => property s
  | s, a :: rest => property s ∧ ∀ t, step s a = some t → Along step property t rest

theorem along_head {property : σ → Prop} {s : σ} (along : Along step property s labels) : property s := by
  cases labels with
  | nil => exact along
  | cons a rest => exact along.1

theorem exec_cons {s u : σ} {a : α} {rest : List α} (run : exec step s (a :: rest) = some u) :
    ∃ t, step s a = some t ∧ exec step t rest = some u := by
  simpa [exec, Option.bind_eq_some_iff] using run

theorem exec_concat (s : σ) (labels : List α) (a : α) :
    exec step s (labels ++ [a]) = (exec step s labels).bind fun t => step t a := by
  induction labels generalizing s with
  | nil => simp [exec]
  | cons b rest ih =>
    rw [List.cons_append, exec, exec, Option.bind_assoc]
    exact congrArg (Option.bind (step s b)) (funext ih)

theorem exec_append {s t : σ} {before : List α} (run : exec step s before = some t) (after : List α) :
    exec step s (before ++ after) = exec step t after := by
  induction before generalizing s with
  | nil =>
    cases run
    rfl
  | cons a rest ih =>
    obtain ⟨u, first, later⟩ := exec_cons run
    rw [List.cons_append, exec, first]
    exact ih later

theorem exec_split {s u : σ} {before after : List α} (run : exec step s (before ++ after) = some u) :
    ∃ t, exec step s before = some t ∧ exec step t after = some u := by
  induction before generalizing s with
  | nil => exact ⟨s, rfl, run⟩
  | cons a rest ih =>
    obtain ⟨t, first, later⟩ := exec_cons run
    obtain ⟨v, middle, last⟩ := ih later
    refine ⟨v, ?_, last⟩
    rw [exec, first]
    exact middle

/-- An invariant that speaks of the labels so far: where every step can be taken from it and leads to
    it again, every run gets through and ends in it. -/
theorem exec_total {inv : List α → σ → Prop} {s : σ} (start : inv [] s)
    (moves : ∀ labels t a, inv labels t → ∃ u, step t a = some u ∧ inv (labels ++ [a]) u)
    (labels : List α) : ∃ t, exec step s labels = some t ∧ inv labels t := by
  induction labels using List.reverseRecOn with
  | nil => exact ⟨s, rfl, start⟩
  | append_singleton labels a ih =>
    obtain ⟨t, run, held⟩ := ih
    obtain ⟨u, last, held'⟩ := moves labels t a held
    exact ⟨u, by rw [exec_concat, run, Option.bind_some, last], held'⟩

/-- The step need only be examined where its guard holds and the invariant already does. -/
theorem guarded_invariant (kept : ∀ s a t, inv s → guard s a → step s a = some t → inv t)
    {s u : σ} (start : inv s) (guarded : Guarded step guard s labels)
    (run : exec step s labels = some u) : inv u := by
  induction labels generalizing s with
  | nil =>
    simp only [exec, Option.some.injEq] at run
    exact run ▸ start
  | cons a rest ih =>
    obtain ⟨t, first, later⟩ := exec_cons run
    exact ih (kept s a t start guarded.1 first) (guarded.2 t first) later

theorem guarded_of_mem (all : ∀ a ∈ labels, ∀ s, guard s a) (s : σ) : Guarded step guard s labels := by
  induction labels generalizing s with
  | nil => trivial
  | cons a rest ih =>
    have later := ih fun b member => all b (List.mem_cons_of_mem a member)
    exact ⟨all a List.mem_cons_self s, fun t _ => later t⟩

/-- A guard that, with an invariant, yields another one. -/
theorem guarded_strengthen {weak strong : σ → α → Prop} (inv : σ → Prop)
    (kept : ∀ s a t, inv s → weak s a → step s a = some t → inv t)
    (meets : ∀ s a, inv s → weak s a → strong s a) {s : σ} (start : inv s)
    (guarded : Guarded step weak s labels) : Guarded step strong s labels := by
  induction labels generalizing s with
  | nil => trivial
  | cons a rest ih =>
    refine ⟨meets s a start guarded.1, fun t first => ?_⟩
    exact ih (kept s a t start guarded.1 first) (guarded.2 t first)

/-- A guard is exact for a property when the guarded steps keep an invariant that yields the
   property, and every step that breaks the guard breaks the property. -/
theorem along_iff_guarded {inv property : σ → Prop}
    (kept : ∀ s a t, inv s → guard s a → step s a = some t → inv t)
    (yields : ∀ s, inv s → property s)
    (exact_ : ∀ s a, inv s → (∀ t, step s a = some t → property t) → guard s a)
    {s : σ} (start : inv s) (labels : List α) :
    Along step property s labels ↔ Guarded step guard s labels := by
  induction labels generalizing s with
  | nil => exact ⟨fun _ => trivial, fun _ => yields s start⟩
  | cons a rest ih =>
    constructor
    · intro along
      have met : guard s a := exact_ s a start fun t first => along_head (along.2 t first)
      exact ⟨met, fun t first => (ih (kept s a t start met first)).mp (along.2 t first)⟩
    · intro guarded
      exact ⟨yields s start, fun t first => (ih (kept s a t start guarded.1 first)).mpr (guarded.2 t first)⟩

/-- The property holds of every step of the run: of the state before it, its label and the state
   after it. -/
def Throughout (step : σ → α → Option σ) (property : σ → α → σ → Prop) : σ → List α → Prop
  | _, [] => True
  | s, a :: rest => ∀ t, step s a = some t → property s a t ∧ Throughout step property t rest

/-- The same for a property of steps: under the invariant a step has it exactly when its guard holds. -/
theorem throughout_iff_guarded {property : σ → α → σ → Prop}
    (kept : ∀ s a t, inv s → guard s a → step s a = some t → inv t)
    (exact_ : ∀ s a, inv s → (guard s a ↔ ∀ t, step s a = some t → property s a t))
    {s : σ} (start : inv s) (labels : List α) :
    Throughout step property s labels ↔ Guarded step guard s labels := by
  induction labels generalizing s with
  | nil => exact Iff.rfl
  | cons a rest ih =>
    constructor
    · intro throughout
      have met : guard s a := (exact_ s a start).mpr fun t first => (throughout t first).1
      exact ⟨met, fun t first => (ih (kept s a t start met first)).mp (throughout t first).2⟩
    · rintro ⟨met, later⟩ t first
      exact ⟨(exact_ s a start).mp met t first, (ih (kept s a t start met first)).mpr (later t first)⟩

/-- What a table of parties holds after one of them was written. -/
theorem update_cases {β : Type} {table : Nat → Option β} {id other : Nat} {s t : β}
    (found : Function.update table id (some s) other = some t) : other = id ∧ t = s ∨ other ≠ id ∧ table other = some t := by
  by_cases here : other = id
  · subst here
    rw [Function.update_self] at found
    exact .inl ⟨rfl, (Option.some.inj found).symm⟩
  · rw [Function.update_of_ne here] at found
    exact .inr ⟨here, found⟩

end Runs
