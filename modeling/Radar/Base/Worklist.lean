import Mathlib.Data.Fintype.EquivFin

/- A worklist that takes up every element once and puts its successors behind the others: it runs
   empty, and what it has taken up then is what can be reached. Without cycles, what has a finite
   field is well founded. -/
namespace Worklist
open List
variable {κ : Type} [DecidableEq κ]

structure Work (κ : Type) where
  queue : List κ
  seen : List κ

def Work.round (next : κ → List κ) (w : Work κ) : Work κ := match w.queue with
  | [] => w
  | x :: rest => if x ∈ w.seen then ⟨rest, w.seen⟩ else ⟨rest ++ next x, x :: w.seen⟩

def Work.rounds (next : κ → List κ) : Nat → Work κ → Work κ
  | 0, w => w
  | n + 1, w => Work.rounds next n (w.round next)

def Work.Known (w : Work κ) (x : κ) : Prop := x ∈ w.queue ∨ x ∈ w.seen

def Reached (next : κ → List κ) (start : List κ) (x : κ) : Prop :=
  ∃ s ∈ start, Relation.ReflTransGen (fun a b => b ∈ next a) s x

variable {next : κ → List κ} {w : Work κ}

theorem round_known {P : κ → Prop} (closed : ∀ x, P x → ∀ y ∈ next x, P y)
    (known : ∀ x, w.Known x → P x) (x : κ) (later : (w.round next).Known x) : P x := by
  unfold Work.round at later
  split at later
  next => exact known x later
  next first rest queued =>
    have head : P first := known first (.inl (queued ▸ mem_cons_self))
    have tail : ∀ y ∈ rest, P y := fun y member =>
      known y (.inl (queued ▸ mem_cons_of_mem first member))
    split at later
    next => exact later.elim (tail x) fun seen => known x (.inr seen)
    next =>
      rcases later with queued' | seen
      · rcases mem_append.mp queued' with old | new
        · exact tail x old
        · exact closed first head x new
      · rcases mem_cons.mp seen with rfl | old
        · exact head
        · exact known x (.inr old)

theorem round_keeps {x : κ} (known : w.Known x) : (w.round next).Known x := by
  unfold Work.round
  split
  next => exact known
  next first rest queued =>
    unfold Work.Known at known
    rw [queued, mem_cons] at known
    split
    next seen =>
      rcases known with (rfl | member) | old
      · exact .inr seen
      · exact .inl member
      · exact .inr old
    next =>
      rcases known with (rfl | member) | old
      · exact .inr mem_cons_self
      · exact .inl (mem_append_left _ member)
      · exact .inr (mem_cons_of_mem first old)

/-- What has been taken up has its successors taken up or queued. -/
def Work.Pushed (next : κ → List κ) (w : Work κ) : Prop := ∀ x ∈ w.seen, ∀ y ∈ next x, w.Known y

theorem round_pushed (pushed : w.Pushed next) : (w.round next).Pushed next := by
  intro x seen y successor
  by_cases old : x ∈ w.seen
  · exact round_keeps (pushed x old y successor)
  · unfold Work.round at seen ⊢
    split at seen
    next => exact absurd seen old
    next first rest queued =>
      split at seen
      next => exact absurd seen old
      next fresh =>
        rcases mem_cons.mp seen with rfl | old'
        · rw [if_neg fresh]
          exact .inl (mem_append_right _ successor)
        · exact absurd old' old

/-- Rounds still due: each element is taken up once and queues so many successors at most. -/
def potential (degree : Nat) (universe_ : List κ) (w : Work κ) : Nat :=
  w.queue.length + (universe_.filter fun x => x ∉ w.seen).length * degree

theorem round_potential {degree : Nat} {universe_ : List κ}
    (bound : ∀ x, (next x).length ≤ degree) (inside : ∀ x ∈ w.queue, x ∈ universe_)
    (due : w.queue ≠ []) : potential degree universe_ (w.round next) < potential degree universe_ w := by
  unfold potential Work.round
  split
  next empty => exact absurd empty due
  next first rest queued =>
    rw [queued] at inside ⊢
    split
    next => simp
    next fresh =>
      have part : (universe_.filter fun x => x ∉ first :: w.seen) =
          (universe_.filter fun x => x ∉ w.seen).filter fun x => x ≠ first := by
        rw [filter_filter]
        exact filter_congr fun x _ => by simp
      have fewer : (universe_.filter fun x => x ∉ first :: w.seen).length + 1 ≤
          (universe_.filter fun x => x ∉ w.seen).length := by
        rw [part]
        refine length_filter_lt_length_iff_exists.mpr ⟨first, ?_, by simp⟩
        exact mem_filter.mpr ⟨inside first mem_cons_self, decide_eq_true fresh⟩
      have scaled := Nat.mul_le_mul_right degree fewer
      have pushes := bound first
      simp only [length_append, length_cons, Nat.add_mul, Nat.one_mul] at scaled ⊢
      omega

theorem rounds_done (done : w.queue = []) (n : Nat) : w.rounds next n = w := by
  induction n with
  | zero => rfl
  | succ n ih =>
    have still : w.round next = w := by simp [Work.round, done]
    rw [Work.rounds, still, ih]

theorem rounds_empty {degree : Nat} {universe_ : List κ} (bound : ∀ x, (next x).length ≤ degree)
    (closed : ∀ x ∈ universe_, ∀ y ∈ next x, y ∈ universe_) (inside : ∀ x, w.Known x → x ∈ universe_)
    {n : Nat} (enough : potential degree universe_ w ≤ n) : (w.rounds next n).queue = [] := by
  induction n generalizing w with
  | zero =>
    have none_due : w.queue.length = 0 := Nat.eq_zero_of_add_eq_zero_right (Nat.le_zero.mp enough)
    exact length_eq_zero_iff.mp none_due
  | succ n ih =>
    by_cases done : w.queue = []
    · rw [rounds_done done]
      exact done
    · have less := round_potential bound (fun x queued => inside x (.inl queued)) done
      exact ih (fun x => round_known closed inside x) (Nat.le_of_lt_succ (Nat.lt_of_lt_of_le less enough))

theorem rounds_known {P : κ → Prop} (closed : ∀ x, P x → ∀ y ∈ next x, P y)
    (known : ∀ x, w.Known x → P x) (n : Nat) (x : κ) (later : (w.rounds next n).Known x) : P x := by
  induction n generalizing w with
  | zero => exact known x later
  | succ n ih => exact ih (fun y => round_known closed known y) later

theorem rounds_keep (n : Nat) {x : κ} (known : w.Known x) : (w.rounds next n).Known x := by
  induction n generalizing w with
  | zero => exact known
  | succ n ih => exact ih (round_keeps known)

theorem rounds_pushed (pushed : w.Pushed next) (n : Nat) : (w.rounds next n).Pushed next := by
  induction n generalizing w with
  | zero => exact pushed
  | succ n ih => exact ih (round_pushed pushed)

/-- Once the queue is empty, what has been taken up is what can be reached from the start. -/
theorem seen_iff_reached {start : List κ} {n : Nat}
    (empty : ((⟨start, []⟩ : Work κ).rounds next n).queue = []) (x : κ) :
    x ∈ ((⟨start, []⟩ : Work κ).rounds next n).seen ↔ Reached next start x := by
  constructor
  · intro seen
    refine rounds_known (P := Reached next start) ?_ ?_ n x (.inr seen)
    · rintro y ⟨s, member, path⟩ z successor
      exact ⟨s, member, path.tail successor⟩
    · rintro y (queued | none_)
      · exact ⟨y, queued, .refl⟩
      · exact absurd none_ not_mem_nil
  · rintro ⟨s, member, path⟩
    have taken : ∀ y, ((⟨start, []⟩ : Work κ).rounds next n).Known y →
        y ∈ ((⟨start, []⟩ : Work κ).rounds next n).seen := by
      rintro y (queued | seen)
      · rw [empty] at queued
        exact absurd queued not_mem_nil
      · exact seen
    have pushed : ((⟨start, []⟩ : Work κ).rounds next n).Pushed next :=
      rounds_pushed (fun _ none_ => absurd none_ not_mem_nil) n
    induction path with
    | refl => exact taken s (rounds_keep n (.inl member))
    | tail _ successor ih => exact taken _ (pushed _ ih _ successor)

end Worklist
