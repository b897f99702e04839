import Mathlib.Algebra.Order.Ring.Nat
import Mathlib.Algebra.Order.BigOperators.Group.List
import Mathlib.Data.List.Nodup

/- Sources in turn take, each with a queue, what they reach and none before them has taken. In the
   end all that a source reaches is taken, each element once and by a source that reaches it. -/
namespace FirstReach
open List
variable {α κ : Type}

structure Claim (α κ : Type) where
  owners : List (α × κ)
  queue : List α

def Held (owners : List (α × κ)) (x : α) : Prop := x ∈ owners.map Prod.fst

variable [DecidableEq α] {P : α → κ → Prop} {x : α}

instance (owners : List (α × κ)) (x : α) : Decidable (Held owners x) :=
  inferInstanceAs (Decidable (x ∈ owners.map Prod.fst))

def ownerOf (owners : List (α × κ)) (x : α) : Option κ := (owners.find? fun o => o.1 = x).map Prod.snd

section Run
variable (next : α → List α) (k : κ)

def round (w : Claim α κ) : Claim α κ := match w.queue with
  | [] => w
  | x :: rest =>
    if Held w.owners x then ⟨w.owners, rest⟩
    else ⟨w.owners ++ [(x, k)], rest ++ (next x).filter fun c => ¬ Held (w.owners ++ [(x, k)]) c⟩

def rounds : Nat → Claim α κ → Claim α κ
  | 0, w => w
  | n + 1, w => rounds n (round next k w)

/-- What one source adds. -/
def claim (fuel : Nat) (owners : List (α × κ)) (source : α × κ) : List (α × κ) :=
  (rounds next source.2 fuel ⟨owners, [source.1]⟩).owners

def claimAll (fuel : Nat) (sources : List (α × κ)) : List (α × κ) := sources.foldl (claim next fuel) []

end Run

section Rounds
variable {next : α → List α} {k : κ} {w : Claim α κ}

omit [DecidableEq α] in
theorem held_concat {owners : List (α × κ)} {x y : α} :
    Held (owners ++ [(x, k)]) y ↔ Held owners y ∨ y = x := by
  simp [Held, or_comm]

theorem owner_some {owners : List (α × κ)} {owner : κ} (found : ownerOf owners x = some owner) :
    (x, owner) ∈ owners := by
  obtain ⟨o, first, rfl⟩ := Option.map_eq_some_iff.mp found
  have own : o.1 = x := by simpa using find?_some first
  exact own ▸ mem_of_find?_eq_some first

theorem owner_none {owners : List (α × κ)} (absent : ownerOf owners x = none) : ¬ Held owners x := by
  intro held
  obtain ⟨o, member, own⟩ := mem_map.mp held
  have other := find?_eq_none.mp (Option.map_eq_none_iff.mp absent) o member
  exact other (decide_eq_true own)

/-- What is taken or queued is known to its source; a round keeps that. -/
def Sound (P : α → κ → Prop) (k : κ) (w : Claim α κ) : Prop :=
  (∀ o ∈ w.owners, P o.1 o.2) ∧ ∀ x ∈ w.queue, P x k

theorem round_sound (closed : ∀ x k, P x k → ∀ y ∈ next x, P y k) (sound : Sound P k w) :
    Sound P k (round next k w) := by
  obtain ⟨taken, queued⟩ := sound
  unfold round
  split
  next => exact ⟨taken, queued⟩
  next x rest first =>
    rw [first] at queued
    have head : P x k := queued x mem_cons_self
    have tail : ∀ y ∈ rest, P y k := fun y member => queued y (mem_cons_of_mem x member)
    split
    next => exact ⟨taken, tail⟩
    next =>
      constructor
      · intro o member
        rcases mem_append.mp member with old | new
        · exact taken o old
        · rw [mem_singleton.mp new]
          exact head
      · intro y member
        rcases mem_append.mp member with old | new
        · exact tail y old
        · exact closed x k head y (mem_of_mem_filter new)

/-- What follows something taken is taken or waits. -/
def Pushed (next : α → List α) (w : Claim α κ) : Prop :=
  ∀ x, Held w.owners x → ∀ y ∈ next x, Held w.owners y ∨ y ∈ w.queue

theorem round_keeps (known : Held w.owners x ∨ x ∈ w.queue) :
    Held (round next k w).owners x ∨ x ∈ (round next k w).queue := by
  unfold round
  split
  next => exact known
  next y rest first =>
    rw [first, mem_cons] at known
    split
    next held =>
      rcases known with old | rfl | later
      · exact .inl old
      · exact .inl held
      · exact .inr later
    next =>
      rw [held_concat]
      rcases known with old | rfl | later
      · exact .inl (.inl old)
      · exact .inl (.inr rfl)
      · exact .inr (mem_append_left _ later)

theorem round_pushed (pushed : Pushed next w) : Pushed next (round next k w) := by
  intro x held y successor
  by_cases old : Held w.owners x
  · exact round_keeps (pushed x old y successor)
  · -- `x` is the element that this round takes up
    unfold round at held ⊢
    split at held
    next => exact absurd held old
    next z rest first =>
      split at held
      next => exact absurd held old
      next fresh =>
        rw [if_neg fresh]
        obtain rfl : x = z := (held_concat.mp held).resolve_left old
        by_cases taken : Held (w.owners ++ [(x, k)]) y
        · exact .inl taken
        · exact .inr (mem_append_right rest (mem_filter.mpr ⟨successor, decide_eq_true taken⟩))

theorem round_nodup (distinct : (w.owners.map Prod.fst).Nodup) :
    ((round next k w).owners.map Prod.fst).Nodup := by
  unfold round
  split
  next => exact distinct
  next x rest _ =>
    split
    next => exact distinct
    next fresh =>
      rw [map_append]
      exact List.Nodup.append distinct (nodup_singleton x)
        (disjoint_singleton.mpr fresh)

/-- How many elements follow those taken. -/
def spent (next : α → List α) (owners : List (α × κ)) : Nat :=
  ((owners.map Prod.fst).map fun x => (next x).length).sum

/-- No more follow any elements than the bound. -/
def Bounded (next : α → List α) (bound : Nat) : Prop :=
  ∀ xs : List α, xs.Nodup → (xs.map fun x => (next x).length).sum ≤ bound

/-- Items listed under one of their ends each are no more than the items. -/
theorem bounded_fibres {β : Type} (items : List β) (key val : β → α) :
    Bounded (fun x => (items.filter fun b => key b = x).map val) items.length := by
  intro xs distinct
  induction items with
  | nil => simp
  | cons b rest ih =>
    have split_ : ∀ ys : List α, (ys.map fun x => (((b :: rest).filter fun b => key b = x).map val).length).sum =
        ys.count (key b) + (ys.map fun x => ((rest.filter fun b => key b = x).map val).length).sum := by
      intro ys
      induction ys with
      | nil => rfl
      | cons y ys ih =>
        rw [map_cons, sum_cons, ih, map_cons, sum_cons, count_cons]
        by_cases own : key b = y
        · simp [own]
          omega
        · simp [own, Ne.symm own]
          omega
    have old : (xs.map fun x => ((rest.filter fun b => key b = x).map val).length).sum ≤ rest.length := ih
    rw [split_ xs, length_cons]
    have once := nodup_iff_count_le_one.mp distinct (key b)
    omega

/-- Each round takes from the queue or spends more than it queues. -/
theorem round_less {bound : Nat} (bounded : Bounded next bound) (distinct : (w.owners.map Prod.fst).Nodup)
    (due : w.queue ≠ []) : (round next k w).queue.length + (bound - spent next (round next k w).owners) <
      w.queue.length + (bound - spent next w.owners) := by
  have within := bounded _ (@round_nodup α κ _ next k w distinct)
  unfold round at within ⊢
  split
  next none => exact absurd none due
  next x rest first =>
    rw [first, length_cons]
    split
    next => exact Nat.add_lt_add_right (Nat.lt_succ_self rest.length) _
    next fresh =>
      simp only [first, if_neg fresh] at within
      have more : spent next (w.owners ++ [(x, k)]) = spent next w.owners + (next x).length := by
        simp [spent]
      have few := length_filter_le (fun c => decide ¬ Held (w.owners ++ [(x, k)]) c) (next x)
      change spent next (w.owners ++ [(x, k)]) ≤ bound at within
      rw [more] at within ⊢
      simp only [length_append]
      omega

theorem rounds_done (done : w.queue = []) (n : Nat) : rounds next k n w = w := by
  induction n with
  | zero => rfl
  | succ n ih =>
    have still : round next k w = w := by simp [round, done]
    rw [rounds, still, ih]

theorem rounds_empty {bound : Nat} (bounded : Bounded next bound) {n : Nat}
    (distinct : (w.owners.map Prod.fst).Nodup)
    (enough : w.queue.length + (bound - spent next w.owners) ≤ n) : (rounds next k n w).queue = [] := by
  induction n generalizing w with
  | zero =>
    have none : w.queue.length = 0 := by omega
    exact length_eq_zero_iff.mp none
  | succ n ih =>
    by_cases done : w.queue = []
    · rw [rounds_done done]
      exact done
    · have less := @round_less α κ _ next k w bound bounded distinct done
      exact ih (round_nodup distinct) (by omega)

theorem rounds_sound (closed : ∀ x k, P x k → ∀ y ∈ next x, P y k) (n : Nat)
    (sound : Sound P k w) : Sound P k (rounds next k n w) := by
  induction n generalizing w with
  | zero => exact sound
  | succ n ih => exact ih (round_sound closed sound)

theorem rounds_keep (n : Nat) (known : Held w.owners x ∨ x ∈ w.queue) :
    Held (rounds next k n w).owners x ∨ x ∈ (rounds next k n w).queue := by
  induction n generalizing w with
  | zero => exact known
  | succ n ih => exact ih (round_keeps known)

theorem rounds_pushed (n : Nat) (pushed : Pushed next w) : Pushed next (rounds next k n w) := by
  induction n generalizing w with
  | zero => exact pushed
  | succ n ih => exact ih (round_pushed pushed)

theorem rounds_nodup (n : Nat) (distinct : (w.owners.map Prod.fst).Nodup) :
    ((rounds next k n w).owners.map Prod.fst).Nodup := by
  induction n generalizing w with
  | zero => exact distinct
  | succ n ih => exact ih (round_nodup distinct)

end Rounds

section Sources
variable {next : α → List α} {bound : Nat} {sources : List (α × κ)}

/-- Between two sources nothing waits. -/
structure Closed (next : α → List α) (owners : List (α × κ)) : Prop where
  distinct : (owners.map Prod.fst).Nodup
  further : ∀ x, Held owners x → ∀ y ∈ next x, Held owners y

omit [DecidableEq α] in
theorem closed_nil : Closed next ([] : List (α × κ)) :=
  ⟨nodup_nil, fun _ held => absurd held not_mem_nil⟩

theorem claim_closed (bounded : Bounded next bound) {owners : List (α × κ)} (closed : Closed next owners)
    (source : α × κ) :
    Closed next (claim next (bound + 1) owners source) ∧ Held (claim next (bound + 1) owners source) source.1 ∧
      ∀ x, Held owners x → Held (claim next (bound + 1) owners source) x := by
  have empty : (rounds next source.2 (bound + 1) ⟨owners, [source.1]⟩).queue = [] := by
    refine rounds_empty bounded closed.distinct ?_
    have one : [source.1].length = 1 := rfl
    simp only [one]
    omega
  have kept : ∀ x, (Held owners x ∨ x ∈ [source.1]) → Held (claim next (bound + 1) owners source) x := by
    intro x known
    refine (rounds_keep (bound + 1) known).resolve_right fun waits => ?_
    rw [empty] at waits
    exact not_mem_nil waits
  refine ⟨⟨rounds_nodup _ closed.distinct, ?_⟩, kept _ (.inr mem_cons_self), fun x held => kept x (.inl held)⟩
  intro x held y successor
  have pushed : Pushed next (⟨owners, [source.1]⟩ : Claim α κ) :=
    fun x held y successor => .inl (closed.further x held y successor)
  refine (rounds_pushed (bound + 1) pushed x held y successor).resolve_right fun waits => ?_
  rw [empty] at waits
  exact not_mem_nil waits

theorem claims_closed (bounded : Bounded next bound) (sources : List (α × κ)) {owners : List (α × κ)}
    (closed : Closed next owners) :
    Closed next (sources.foldl (claim next (bound + 1)) owners) ∧
      ∀ x, (Held owners x ∨ x ∈ sources.map Prod.fst) → Held (sources.foldl (claim next (bound + 1)) owners) x := by
  induction sources generalizing owners with
  | nil => exact ⟨closed, fun x known => known.resolve_right not_mem_nil⟩
  | cons source rest ih =>
    obtain ⟨closed', own, kept⟩ := claim_closed bounded closed source
    obtain ⟨closed'', kept'⟩ := ih closed'
    refine ⟨closed'', fun x known => kept' x ?_⟩
    rcases known with held | member
    · exact .inl (kept x held)
    · rcases mem_cons.mp member with rfl | later
      · exact .inl own
      · exact .inr later

/-- Whatever a source reaches is taken in the end. -/
theorem reached_held (bounded : Bounded next bound) {source : α × κ}
    (member : source ∈ sources) (path : Relation.ReflTransGen (fun a b => b ∈ next a) source.1 x) :
    Held (claimAll next (bound + 1) sources) x := by
  obtain ⟨closed, kept⟩ := @claims_closed α κ _ next bound bounded sources [] closed_nil
  induction path with
  | refl => exact kept _ (.inr (mem_map_of_mem member))
  | tail _ successor ih => exact closed.further _ ih _ successor

theorem claims_sound (closed : ∀ x k, P x k → ∀ y ∈ next x, P y k) (fuel : Nat)
    (own : ∀ s ∈ sources, P s.1 s.2) {owners : List (α × κ)}
    (taken : ∀ o ∈ owners, P o.1 o.2) : ∀ o ∈ sources.foldl (claim next fuel) owners, P o.1 o.2 := by
  induction sources generalizing owners with
  | nil => exact taken
  | cons source rest ih =>
    refine ih (fun s member => own s (mem_cons_of_mem source member)) ?_
    have sound : Sound P source.2 (⟨owners, [source.1]⟩ : Claim α κ) := by
      refine ⟨taken, fun x member => ?_⟩
      rw [mem_singleton.mp member]
      exact own source mem_cons_self
    exact (rounds_sound closed fuel sound).1

/-- What is taken is taken by a source that reaches it. -/
theorem held_reached (fuel : Nat) {o : α × κ} (member : o ∈ claimAll next fuel sources) :
    ∃ s ∈ sources, s.2 = o.2 ∧ Relation.ReflTransGen (fun a b => b ∈ next a) s.1 o.1 := by
  refine claims_sound (P := fun x k => ∃ s ∈ sources, s.2 = k ∧
    Relation.ReflTransGen (fun a b => b ∈ next a) s.1 x) ?_ fuel ?_ ?_ o member
  · rintro x k ⟨s, inside, own, path⟩ y successor
    exact ⟨s, inside, own, path.tail successor⟩
  · intro s inside
    exact ⟨s, inside, rfl, .refl⟩
  · intro o none
    exact absurd none not_mem_nil

end Sources
end FirstReach
