import Mathlib.Data.List.Forall2

/- Two folds in lock step, the second over the elements of the first one's list that are kept; two
   lists in step. -/
namespace LockStep
open List
variable {α σ τ : Type}

theorem foldl_filter {R : σ → τ → Prop} {f : σ → α → σ} {g : τ → α → τ} {keep : α → Bool}
    {xs : List α} (skipped : ∀ a ∈ xs, ∀ s t, keep a = false → R s t → R (f s a) t)
    (stepped : ∀ a ∈ xs, ∀ s t, keep a = true → R s t → R (f s a) (g t a))
    {s : σ} {t : τ} (start : R s t) : R (xs.foldl f s) ((xs.filter keep).foldl g t) := by
  induction xs generalizing s t with
  | nil => exact start
  | cons a rest ih =>
    have skipped' := fun b member => skipped b (mem_cons_of_mem a member)
    have stepped' := fun b member => stepped b (mem_cons_of_mem a member)
    cases kept : keep a with
    | false =>
      simp only [foldl_cons, filter_cons, kept]
      exact ih skipped' stepped' (skipped a mem_cons_self s t kept start)
    | true =>
      simp only [foldl_cons, filter_cons, kept, if_true]
      exact ih skipped' stepped' (stepped a mem_cons_self s t kept start)

theorem getLast?_filter {keep : α → Bool} {xs : List α} {a : α} (last : xs.getLast? = some a)
    (kept : keep a = true) : (xs.filter keep).getLast? = some a := by
  obtain ⟨front, rfl⟩ := getLast?_eq_some_iff.mp last
  rw [filter_append, filter_cons_of_pos kept, filter_nil, getLast?_concat]

section Partners
variable {β : Type} {R : α → β → Prop} {xs : List α} {ys : List β}

theorem partner_left (all : List.Forall₂ R xs ys) {y : β} (member : y ∈ ys) : ∃ x ∈ xs, R x y := by
  induction all with
  | nil => cases member
  | @cons a b _ _ first _ ih =>
    rcases mem_cons.mp member with rfl | later
    · exact ⟨a, mem_cons_self, first⟩
    · obtain ⟨x, inside, related⟩ := ih later
      exact ⟨x, mem_cons_of_mem a inside, related⟩

theorem partner_right (all : List.Forall₂ R xs ys) {x : α} (member : x ∈ xs) : ∃ y ∈ ys, R x y :=
  partner_left all.flip member

end Partners

end LockStep
