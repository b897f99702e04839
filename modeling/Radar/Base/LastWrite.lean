import Mathlib.Data.List.Induction

/- A slot that the events of a run set, clear or leave alone holds what the last of them that touched
   it put there. -/
namespace LastWrite
open List
variable {σ ε β : Type} {act : ε → Option (Option β)} {value : β}

/-- The last event that touches the slot sets it to the value. -/
def Last (act : ε → Option (Option β)) (events : List ε) (value : β) : Prop :=
  ∃ before e after, events = before ++ e :: after ∧ act e = some (some value) ∧ ∀ e' ∈ after, act e' = none

theorem last_nil : ¬ Last act [] value := by
  rintro ⟨before, e, after, whole, _⟩
  exact absurd (congrArg length whole) (by simp)

theorem last_append {first second : List ε} : Last act (first ++ second) value ↔
    Last act second value ∨ (∀ e ∈ second, act e = none) ∧ Last act first value := by
  constructor
  · rintro ⟨before, e, after, whole, sets, quiet⟩
    rcases append_eq_append_iff.mp whole with ⟨more, rfl, rest⟩ | ⟨more, rfl, rest⟩
    · exact .inl ⟨more, e, after, rest, sets, quiet⟩
    · cases more with
      | nil => exact .inl ⟨[], e, after, by simpa using rest.symm, sets, quiet⟩
      | cons e' more =>
        obtain ⟨rfl, rfl⟩ := cons.inj rest
        refine .inr ⟨fun e' member => quiet e' (mem_append_right _ member), ?_⟩
        exact ⟨before, e, more, rfl, sets, fun e' member => quiet e' (mem_append_left _ member)⟩
  · rintro (⟨before, e, after, rfl, sets, quiet⟩ | ⟨later, before, e, after, rfl, sets, quiet⟩)
    · exact ⟨first ++ before, e, after, by simp, sets, quiet⟩
    · refine ⟨before, e, after ++ second, by simp, sets, fun e' member => ?_⟩
      exact (mem_append.mp member).elim (quiet e') (later e')

theorem last_single {e : ε} : Last act [e] value ↔ act e = some (some value) := by
  constructor
  · rintro ⟨before, e', after, whole, sets, _⟩
    obtain ⟨_, same⟩ | ⟨_, none_⟩ := append_eq_singleton_iff.mp whole.symm
    · rw [← (cons.inj same).1]
      exact sets
    · exact absurd none_ (by simp)
  · intro sets
    exact ⟨[], e, [], rfl, sets, fun _ member => absurd member not_mem_nil⟩

/-- The last one in a list of lists. -/
theorem last_flatten {parts : List (List ε)} (last : Last act parts.flatten value) :
    ∃ front done e more rest, parts = front ++ (done ++ e :: more) :: rest ∧
      act e = some (some value) ∧ ∀ e' ∈ more ++ rest.flatten, act e' = none := by
  induction parts using reverseRecOn with
  | nil => exact absurd last last_nil
  | append_singleton parts part ih =>
    rw [flatten_append, flatten_singleton] at last
    rcases last_append.mp last with ⟨done, e, more, rfl, sets, quiet⟩ | ⟨later, earlier⟩
    · exact ⟨parts, done, e, more, [], rfl, sets, by simpa using quiet⟩
    · obtain ⟨front, done, e, more, rest, rfl, sets, quiet⟩ := ih earlier
      refine ⟨front, done, e, more, rest ++ [part], by simp, sets, fun e' member => ?_⟩
      rw [flatten_append, flatten_singleton, ← append_assoc] at member
      exact (mem_append.mp member).elim (quiet e') (later e')

/-- The events need only write the slot as they say where an invariant holds. -/
theorem slot_iff {step : σ → ε → σ} {slot : σ → Option β} {inv : σ → Prop}
    (kept : ∀ s e, inv s → inv (step s e))
    (writes : ∀ s e, inv s → slot (step s e) = (act e).getD (slot s))
    {s : σ} (start : inv s) (empty : slot s = none) (events : List ε) :
    inv (events.foldl step s) ∧
      ∀ value, slot (events.foldl step s) = some value ↔ Last act events value := by
  induction events using reverseRecOn with
  | nil =>
    refine ⟨start, fun value => iff_of_false ?_ last_nil⟩
    rw [foldl_nil, empty]
    simp
  | append_singleton events e ih =>
    obtain ⟨held, same⟩ := ih
    rw [foldl_append, foldl_cons, foldl_nil]
    refine ⟨kept _ e held, fun value => ?_⟩
    rw [writes _ e held, last_append, last_single]
    cases acts : act e with
    | none => simp [acts, same value]
    | some written => simp [acts]

end LastWrite
