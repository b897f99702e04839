import Mathlib.Order.Lattice.Nat

/- A breadth-first search in which what is first met across a side step is kept as a leaf and not
   searched. It finds the core and its surroundings where no side step leads ahead of the others. -/
namespace LeafSearch
open List
variable {α : Type} {x : α}

structure Search (α : Type) where
  keep : List α
  leaf : List α
  queue : List α

section Run
variable [DecidableEq α] (offers : α → List (α × Bool))

/-- An element is offered with the mark of a side step. -/
def meet (w : Search α) (o : α × Bool) : Search α := if o.1 ∈ w.keep then w
  else ⟨w.keep ++ [o.1], if o.2 then w.leaf ++ [o.1] else w.leaf, w.queue ++ [o.1]⟩

def round (w : Search α) : Search α := match w.queue with
  | [] => w
  | x :: rest =>
    if x ∈ w.leaf then { w with queue := rest } else (offers x).foldl meet { w with queue := rest }

def rounds : Nat → Search α → Search α
  | 0, w => w
  | n + 1, w => rounds n (round offers w)

def begin_ (start : List α) : Search α := ⟨start, [], start⟩

end Run

section Core
variable (offers : α → List (α × Bool)) (start : List α)

/-- At most so many steps that are no side steps from the start. -/
inductive Within : Nat → α → Prop where
  | start {x : α} (n : Nat) : x ∈ start → Within n x
  | further {n : Nat} {x y : α} : Within n x → (y, false) ∈ offers x → Within (n + 1) y

def Core (x : α) : Prop := ∃ n, Within offers start n x

noncomputable def depth (x : α) : Nat := sInf {n | Within offers start n x}

/-- No side step within the core leads ahead of the other steps. -/
def Direct : Prop :=
  ∀ n u v, Within offers start n u → (v, true) ∈ offers u → Core offers start v → Within offers start n v

end Core

section Depth
variable {offers : α → List (α × Bool)} {start : List α} {x y : α} {n : Nat}
variable {offers' : α → List (α × Bool)}

theorem within_next (near : Within offers start n x) : Within offers start (n + 1) x := by
  induction near with
  | start n member => exact .start (n + 1) member
  | further _ step ih => exact .further ih step

theorem within_le {m : Nat} (near : Within offers start m x) (le : m ≤ n) : Within offers start n x := by
  induction le with
  | refl => exact near
  | step _ ih => exact within_next ih

theorem depth_le_iff (core : Core offers start x) : depth offers start x ≤ n ↔ Within offers start n x := by
  constructor
  · intro le
    exact within_le (Nat.sInf_mem core) le
  · intro near
    exact Nat.sInf_le near

theorem core_step (core : Core offers start x) (step : (y, false) ∈ offers x) :
    Core offers start y ∧ depth offers start y ≤ depth offers start x + 1 := by
  have near := Within.further ((depth_le_iff core).mp (le_refl _)) step
  exact ⟨⟨_, near⟩, (depth_le_iff ⟨_, near⟩).mpr near⟩

theorem core_start (member : x ∈ start) : Core offers start x := ⟨0, .start 0 member⟩

/-- What is not in the start has one before it. -/
theorem depth_before (core : Core offers start y) (later : y ∉ start) :
    ∃ x, Core offers start x ∧ depth offers start x < depth offers start y ∧ (y, false) ∈ offers x := by
  have near := (depth_le_iff core).mp (le_refl _)
  cases deep : depth offers start y with
  | zero =>
    rw [deep] at near
    cases near with
    | start _ member => exact absurd member later
  | succ n =>
    rw [deep] at near
    cases near with
    | start _ member => exact absurd member later
    | further near step =>
      have le := (depth_le_iff ⟨_, near⟩).mpr near
      exact ⟨_, ⟨_, near⟩, by omega, step⟩

theorem direct_depth (direct : Direct offers start) {u v : α} (core : Core offers start u)
    (side : (v, true) ∈ offers u) (core' : Core offers start v) :
    depth offers start v ≤ depth offers start u :=
  (depth_le_iff core').mpr (direct _ u v ((depth_le_iff core).mp (le_refl _)) side core')

/-- A shortest way to an element of the core. -/
theorem way_exists {d : Nat} (core : Core offers start y) (deep : depth offers start y = d) :
    ∃ u : Nat → α, u d = y ∧ u 0 ∈ start ∧ (∀ k < d, (u (k + 1), false) ∈ offers (u k)) ∧
      ∀ k ≤ d, depth offers start (u k) = k := by
  induction d generalizing y with
  | zero =>
    by_cases first : y ∈ start
    · refine ⟨fun _ => y, rfl, first, fun k less => absurd less (Nat.not_lt_zero k), fun k le => ?_⟩
      rw [Nat.le_zero.mp le]
      exact deep
    · obtain ⟨x, _, before, _⟩ := depth_before core first
      omega
  | succ d ih =>
    have later : y ∉ start := by
      intro first
      have zero := (depth_le_iff core).mpr (.start 0 first)
      omega
    obtain ⟨x, core', before, step⟩ := depth_before core later
    have le := (core_step core' step).2
    obtain ⟨u, last, first, steps, depths⟩ := ih core' (by omega)
    refine ⟨fun k => if k ≤ d then u k else y, by simp, by simpa using first, ?_, ?_⟩
    · intro k less
      simp only
      by_cases inside : k + 1 ≤ d
      · rw [if_pos inside, if_pos (by omega)]
        exact steps k (by omega)
      · have own : k = d := by omega
        rw [if_neg inside, if_pos (by omega), own, last]
        exact step
    · intro k le'
      simp only
      split
      · exact depths k (by omega)
      · omega

/-- Steps and starts that are the same make the same core at the same depths. -/
theorem within_congr {start' : List α}
    (steps : ∀ x y, (y, false) ∈ offers x → (y, false) ∈ offers' x) (starts : ∀ x ∈ start, x ∈ start')
    (near : Within offers start n x) : Within offers' start' n x := by
  induction near with
  | start n member => exact .start n (starts _ member)
  | further _ step ih => exact .further ih (steps _ _ step)

theorem core_congr {start' : List α}
    (steps : ∀ x y, (y, false) ∈ offers x ↔ (y, false) ∈ offers' x) (starts : ∀ x, x ∈ start ↔ x ∈ start') :
    (∀ n x, Within offers start n x ↔ Within offers' start' n x) ∧
      ∀ x, depth offers start x = depth offers' start' x := by
  have same : ∀ n x, Within offers start n x ↔ Within offers' start' n x := fun n x =>
    ⟨within_congr (fun x y => (steps x y).mp) fun x => (starts x).mp,
      within_congr (fun x y => (steps x y).mpr) fun x => (starts x).mpr⟩
  refine ⟨same, fun x => ?_⟩
  unfold depth
  simp only [same]

/-- A side step ahead of the others. -/
theorem not_direct (ahead : ¬ Direct offers start) : ∃ u v, Core offers start u ∧ Core offers start v ∧
    (v, true) ∈ offers u ∧ depth offers start u < depth offers start v := by
  unfold Direct at ahead
  push Not at ahead
  obtain ⟨n, u, v, near, side, core, far⟩ := ahead
  refine ⟨u, v, ⟨n, near⟩, core, side, ?_⟩
  have le := (depth_le_iff ⟨n, near⟩).mpr near
  have more := mt (depth_le_iff core).mp far
  omega

end Depth

section Rounds
variable [DecidableEq α] {offers : α → List (α × Bool)} {start : List α} {w : Search α}

/-- What a search is after some offers: so many elements more, each by its first offer. -/
structure Grown (os : List (α × Bool)) (w w' : Search α) (new : List α) : Prop where
  keep : w'.keep = w.keep ++ new
  queue : w'.queue = w.queue ++ new
  fresh : ∀ x ∈ new, x ∉ w.keep
  once : new.Nodup
  marked : ∀ x ∈ new, (x ∈ w'.leaf ∧ (x, true) ∈ os) ∨ (x ∉ w'.leaf ∧ (x, false) ∈ os)
  leaf : ∀ x ∉ new, x ∈ w'.leaf ↔ x ∈ w.leaf
  all : ∀ o ∈ os, o.1 ∈ w'.keep

theorem meets_grown (os : List (α × Bool)) (w : Search α) (inside : ∀ x ∈ w.leaf, x ∈ w.keep) :
    ∃ new, Grown os w (os.foldl meet w) new := by
  induction os generalizing w with
  | nil => exact ⟨[], by simp, by simp, by simp, nodup_nil, by simp, fun _ _ => Iff.rfl, by simp⟩
  | cons o rest ih =>
    by_cases known : o.1 ∈ w.keep
    · have same : meet w o = w := if_pos known
      obtain ⟨new, grown⟩ := ih w inside
      rw [foldl_cons, same]
      refine ⟨new, grown.keep, grown.queue, grown.fresh, grown.once, ?_, grown.leaf, ?_⟩
      · intro x member
        exact (grown.marked x member).imp (fun held => ⟨held.1, mem_cons_of_mem o held.2⟩)
          fun held => ⟨held.1, mem_cons_of_mem o held.2⟩
      · intro o' member
        rcases mem_cons.mp member with rfl | later
        · rw [grown.keep]
          exact mem_append_left new known
        · exact grown.all o' later
    · have step : meet w o = ⟨w.keep ++ [o.1], if o.2 then w.leaf ++ [o.1] else w.leaf, w.queue ++ [o.1]⟩ :=
        if_neg known
      have inside' : ∀ x ∈ (meet w o).leaf, x ∈ (meet w o).keep := by
        intro x member
        rw [step] at member ⊢
        simp only at member
        split at member
        · rcases mem_append.mp member with old | own
          · exact mem_append_left _ (inside x old)
          · exact mem_append_right _ own
        · exact mem_append_left _ (inside x member)
      obtain ⟨new, grown⟩ := ih (meet w o) inside'
      have absent : o.1 ∉ new := fun member => grown.fresh _ member (by rw [step]; simp)
      rw [foldl_cons]
      refine ⟨o.1 :: new, ?_, ?_, ?_, nodup_cons.mpr ⟨absent, grown.once⟩, ?_, ?_, ?_⟩
      · rw [grown.keep, step]
        simp
      · rw [grown.queue, step]
        simp
      · intro x member
        rcases mem_cons.mp member with rfl | later
        · exact known
        · intro old
          exact grown.fresh x later (by rw [step]; exact mem_append_left _ old)
      · intro x member
        rcases mem_cons.mp member with rfl | later
        · rw [grown.leaf _ absent, step]
          obtain ⟨y, side⟩ := o
          cases side with
          | true => exact .inl ⟨by simp, mem_cons_self⟩
          | false => exact .inr ⟨fun held => known (inside y held), mem_cons_self⟩
        · exact (grown.marked x later).imp (fun held => ⟨held.1, mem_cons_of_mem o held.2⟩)
            fun held => ⟨held.1, mem_cons_of_mem o held.2⟩
      · intro x absent'
        rw [mem_cons, not_or] at absent'
        rw [grown.leaf x absent'.2, step]
        simp only
        split
        · simp [absent'.1]
        · exact Iff.rfl
      · intro o' member
        rcases mem_cons.mp member with rfl | later
        · rw [grown.keep, step]
          simp
        · exact grown.all o' later

variable (offers) in
/-- A round passes over a leaf, or searches the first element in the queue. -/
theorem round_cases (x : α) (rest : List α) (queued : w.queue = x :: rest)
    (inside : ∀ x ∈ w.leaf, x ∈ w.keep) :
    (x ∈ w.leaf ∧ round offers w = { w with queue := rest }) ∨
      (x ∉ w.leaf ∧ ∃ new, Grown (offers x) { w with queue := rest } (round offers w) new) := by
  unfold round
  rw [queued]
  by_cases dead : x ∈ w.leaf
  · exact .inl ⟨dead, if_pos dead⟩
  · simp only [if_neg dead]
    exact .inr ⟨dead, meets_grown (offers x) { w with queue := rest } inside⟩

variable (offers start) in
structure Sound (w : Search α) : Prop where
  distinct : w.keep.Nodup
  queued : ∀ x ∈ w.queue, x ∈ w.keep
  leafs : ∀ x ∈ w.leaf, x ∈ w.keep
  started : ∀ x ∈ start, x ∈ w.keep
  core : ∀ x ∈ w.keep, x ∉ w.leaf → Core offers start x
  side : ∀ x ∈ w.leaf, ∃ u, Core offers start u ∧ (x, true) ∈ offers u
  done : ∀ x ∈ w.keep, x ∉ w.leaf → x ∈ w.queue ∨ ∀ o ∈ offers x, o.1 ∈ w.keep

variable (offers) in
omit [DecidableEq α] in
theorem sound_begin (distinct : start.Nodup) : Sound offers start (begin_ start) where
  distinct := distinct
  queued := fun _ member => member
  leafs := fun _ none => absurd none not_mem_nil
  started := fun _ member => member
  core := fun _ member _ => core_start member
  side := fun _ none => absurd none not_mem_nil
  done := fun _ member _ => .inl member

theorem round_sound (sound : Sound offers start w) : Sound offers start (round offers w) := by
  cases queued : w.queue with
  | nil =>
    have same : round offers w = w := by rw [round, queued]
    rw [same]
    exact sound
  | cons x rest =>
    have head : x ∈ w.keep := sound.queued x (queued ▸ mem_cons_self)
    have tail : ∀ y ∈ rest, y ∈ w.keep := fun y member =>
      sound.queued y (queued ▸ mem_cons_of_mem x member)
    rcases round_cases offers x rest queued sound.leafs with ⟨dead, passed⟩ | ⟨alive, new, grown⟩
    · rw [passed]
      refine ⟨sound.distinct, tail, sound.leafs, sound.started, sound.core, sound.side, ?_⟩
      intro y kept clear
      refine (sound.done y kept clear).imp_left fun waiting => ?_
      rw [queued] at waiting
      rcases mem_cons.mp waiting with rfl | later
      · exact absurd dead clear
      · exact later
    · have core := sound.core x head alive
      have old : ∀ y ∈ w.keep, y ∈ (round offers w).keep := fun y member => by
        rw [grown.keep]
        exact mem_append_left new member
      have leaf : ∀ y ∈ w.keep, y ∈ (round offers w).leaf ↔ y ∈ w.leaf := fun y member =>
        grown.leaf y fun fresh => grown.fresh y fresh member
      constructor
      · rw [grown.keep]
        exact nodup_append.mpr ⟨sound.distinct, grown.once, fun y member z fresh same =>
          grown.fresh z fresh (same ▸ member)⟩
      · intro y member
        rw [grown.queue] at member
        rw [grown.keep]
        exact mem_append.mpr ((mem_append.mp member).imp_left (tail y))
      · intro y member
        rw [grown.keep]
        by_cases fresh : y ∈ new
        · exact mem_append_right _ fresh
        · exact mem_append_left _ (sound.leafs y ((grown.leaf y fresh).mp member))
      · exact fun y member => old y (sound.started y member)
      · intro y member clear
        rw [grown.keep] at member
        rcases mem_append.mp member with kept | fresh
        · exact sound.core y kept fun held => clear ((leaf y kept).mpr held)
        · rcases grown.marked y fresh with held | held
          · exact absurd held.1 clear
          · exact (core_step core held.2).1
      · intro y member
        by_cases fresh : y ∈ new
        · rcases grown.marked y fresh with held | held
          · exact ⟨x, core, held.2⟩
          · exact absurd member held.1
        · exact sound.side y ((grown.leaf y fresh).mp member)
      · intro y member clear
        rw [grown.keep] at member
        rw [grown.queue]
        rcases mem_append.mp member with kept | fresh
        · rcases sound.done y kept fun held => clear ((leaf y kept).mpr held) with waiting | all
          · rw [queued] at waiting
            rcases mem_cons.mp waiting with rfl | later
            · exact .inr grown.all
            · exact .inl (mem_append_left new later)
          · exact .inr fun o offered => old o.1 (all o offered)
        · exact .inl (mem_append_right rest fresh)

theorem rounds_sound (n : Nat) (sound : Sound offers start w) : Sound offers start (rounds offers n w) := by
  induction n generalizing w with
  | zero => exact sound
  | succ n ih => exact ih (round_sound sound)

theorem rounds_add (m n : Nat) (w : Search α) :
    rounds offers (m + n) w = rounds offers n (rounds offers m w) := by
  induction m generalizing w with
  | zero => rw [Nat.zero_add]; rfl
  | succ m ih =>
    rw [Nat.add_right_comm]
    exact ih (round offers w)

theorem rounds_done (done : w.queue = []) (n : Nat) : rounds offers n w = w := by
  induction n with
  | zero => rfl
  | succ n ih =>
    have still : round offers w = w := by rw [round, done]
    rw [rounds, still, ih]

/-- Every round takes one out of the queue, and each element goes into it once. -/
theorem rounds_count (n : Nat) (sound : Sound offers start w) : (rounds offers n w).queue = [] ∨
    (rounds offers n w).keep.length + w.queue.length = w.keep.length + n + (rounds offers n w).queue.length := by
  induction n generalizing w with
  | zero => exact .inr rfl
  | succ n ih =>
    cases queued : w.queue with
    | nil =>
      rw [rounds_done queued]
      exact .inl queued
    | cons x rest =>
      refine (ih (round_sound sound)).imp_right fun counted => ?_
      change (rounds offers n (round offers w)).keep.length + (x :: rest).length =
        w.keep.length + (n + 1) + (rounds offers n (round offers w)).queue.length
      rcases round_cases offers x rest queued sound.leafs with ⟨_, passed⟩ | ⟨_, new, grown⟩
      · rw [passed] at counted ⊢
        simp only [length_cons] at counted ⊢
        omega
      · rw [grown.keep, grown.queue, length_append, length_append] at counted
        simp only [length_cons] at counted ⊢
        omega

/-- As many rounds as there are elements empty the queue. -/
theorem rounds_empty {universe_ : List α} (distinct : start.Nodup) (inside : ∀ x ∈ start, x ∈ universe_)
    (closed : ∀ x, ∀ o ∈ offers x, o.1 ∈ universe_) {n : Nat} (enough : universe_.length ≤ n) :
    (rounds offers n (begin_ start)).queue = [] := by
  have sound := rounds_sound n (sound_begin offers distinct)
  rcases rounds_count n (sound_begin offers distinct) with empty | counted
  · exact empty
  · have covered : (rounds offers n (begin_ start)).keep ⊆ universe_ := by
      intro x kept
      by_cases dead : x ∈ (rounds offers n (begin_ start)).leaf
      · obtain ⟨u, _, offered⟩ := sound.side x dead
        exact closed u _ offered
      · obtain ⟨m, near⟩ := sound.core x kept dead
        cases near with
        | start _ member => exact inside x member
        | further _ step => exact closed _ _ step
    have short := (sound.distinct.subperm covered).length_le
    have level : (begin_ start).queue.length = (begin_ start).keep.length := rfl
    apply length_eq_zero_iff.mp
    omega

theorem round_leaf (sound : Sound offers start w) (dead : x ∈ w.leaf) : x ∈ (round offers w).leaf := by
  cases queued : w.queue with
  | nil =>
    have same : round offers w = w := by rw [round, queued]
    rw [same]
    exact dead
  | cons y rest =>
    rcases round_cases offers y rest queued sound.leafs with ⟨_, passed⟩ | ⟨_, new, grown⟩
    · rw [passed]
      exact dead
    · exact (grown.leaf x fun fresh => grown.fresh x fresh (sound.leafs x dead)).mpr dead

theorem rounds_leaf (n : Nat) (sound : Sound offers start w) (dead : x ∈ w.leaf) :
    x ∈ (rounds offers n w).leaf := by
  induction n generalizing w with
  | zero => exact dead
  | succ n ih => exact ih (round_sound sound) (round_leaf sound dead)

/-- What is a leaf at any time is one in the end. -/
theorem leaf_at_end (distinct : start.Nodup) {m n : Nat} (empty : (rounds offers n (begin_ start)).queue = [])
    (dead : x ∈ (rounds offers m (begin_ start)).leaf) : x ∈ (rounds offers n (begin_ start)).leaf := by
  by_cases le : m ≤ n
  · obtain ⟨more, rfl⟩ := Nat.exists_eq_add_of_le le
    rw [rounds_add]
    exact rounds_leaf more (rounds_sound m (sound_begin offers distinct)) dead
  · obtain ⟨more, rfl⟩ := Nat.exists_eq_add_of_le (Nat.le_of_not_le le)
    rwa [rounds_add, rounds_done empty] at dead

end Rounds

section Levels
variable [DecidableEq α] {offers : α → List (α × Bool)} {start : List α} {w : Search α}

variable (offers start) in
/-- Nothing of the core is a leaf. -/
def Clear (w : Search α) : Prop := ∀ x ∈ w.leaf, ¬ Core offers start x

variable (offers start) in
/-- The core elements in the queue stand by depth, the last at most one deeper than the first. -/
structure Levels (w : Search α) : Prop where
  sorted : w.queue.Pairwise fun a b => a ∉ w.leaf → b ∉ w.leaf → depth offers start a ≤ depth offers start b
  span : ∀ a ∈ w.queue, ∀ b ∈ w.queue, a ∉ w.leaf → b ∉ w.leaf →
    depth offers start b ≤ depth offers start a + 1

omit [DecidableEq α] in
theorem levels_begin : Levels offers start (begin_ start) := by
  have zero : ∀ x ∈ start, depth offers start x = 0 := fun x member =>
    Nat.le_zero.mp ((depth_le_iff (core_start member)).mpr (.start 0 member))
  constructor
  · apply List.Pairwise.imp_of_mem _ (pairwise_of_forall fun _ _ => trivial)
    intro a b member member' _ _ _
    rw [zero a member]
    exact Nat.zero_le _
  · intro a _ b member' _ _
    rw [zero b member']
    exact Nat.zero_le _

omit [DecidableEq α] in
/-- What is not deeper than the one that is to be searched is known. -/
theorem known_closer (sound : Sound offers start w) (levels : Levels offers start w)
    (clear : Clear offers start w) {rest : List α} (queued : w.queue = x :: rest) (alive : x ∉ w.leaf)
    {v : α} (core : Core offers start v) (closer : depth offers start v ≤ depth offers start x) :
    v ∈ w.keep := by
  induction deep : depth offers start v using Nat.strong_induction_on generalizing v with
  | _ n ih =>
    by_cases first : v ∈ start
    · exact sound.started v first
    · obtain ⟨u, core', before, step⟩ := depth_before core first
      have kept := ih (depth offers start u) (by omega) core' (by omega) rfl
      have clear' : u ∉ w.leaf := fun dead => clear u dead core'
      rcases sound.done u kept clear' with waiting | all
      · have sorted := levels.sorted
        rw [queued] at sorted waiting
        rcases mem_cons.mp waiting with rfl | later
        · omega
        · have behind := (pairwise_cons.mp sorted).1 u later alive clear'
          omega
      · exact all _ step

omit [DecidableEq α] in
/-- What of the core is found by a step is one deeper. -/
theorem found_deeper (sound : Sound offers start w) (levels : Levels offers start w)
    (clear : Clear offers start w) {rest : List α} (queued : w.queue = x :: rest) (alive : x ∉ w.leaf)
    {v : α} (fresh : v ∉ w.keep) (step : (v, false) ∈ offers x) :
    depth offers start v = depth offers start x + 1 := by
  have core := sound.core x (sound.queued x (queued ▸ mem_cons_self)) alive
  obtain ⟨core', le⟩ := core_step core step
  have farther : ¬ depth offers start v ≤ depth offers start x := fun closer =>
    fresh (known_closer sound levels clear queued alive core' closer)
  omega

theorem round_levels (sound : Sound offers start w) (levels : Levels offers start w)
    (clear : Clear offers start w) : Levels offers start (round offers w) := by
  cases queued : w.queue with
  | nil =>
    have same : round offers w = w := by rw [round, queued]
    rw [same]
    exact levels
  | cons x rest =>
    obtain ⟨sorted, span⟩ := levels
    rw [queued] at sorted span
    obtain ⟨first, sorted'⟩ := pairwise_cons.mp sorted
    have span' : ∀ a ∈ rest, ∀ b ∈ rest, a ∉ w.leaf → b ∉ w.leaf →
        depth offers start b ≤ depth offers start a + 1 := fun a member b member' =>
      span a (mem_cons_of_mem x member) b (mem_cons_of_mem x member')
    rcases round_cases offers x rest queued sound.leafs with ⟨_, passed⟩ | ⟨alive, new, grown⟩
    · rw [passed]
      exact ⟨sorted', span'⟩
    · have old : ∀ y ∈ rest, y ∈ (round offers w).leaf ↔ y ∈ w.leaf := fun y member =>
        grown.leaf y fun fresh =>
          grown.fresh y fresh (sound.queued y (queued ▸ mem_cons_of_mem x member))
      have deeper : ∀ y ∈ new, y ∉ (round offers w).leaf →
          depth offers start y = depth offers start x + 1 := by
        intro y fresh alive'
        rcases grown.marked y fresh with held | held
        · exact absurd held.1 alive'
        · exact found_deeper sound ⟨queued ▸ sorted, queued ▸ span⟩ clear queued alive (grown.fresh y fresh)
            held.2
      have behind : ∀ y ∈ rest, y ∉ (round offers w).leaf → depth offers start x ≤ depth offers start y ∧
          depth offers start y ≤ depth offers start x + 1 := by
        intro y member alive'
        rw [old y member] at alive'
        exact ⟨first y member alive alive',
          span x mem_cons_self y (mem_cons_of_mem x member) alive alive'⟩
      constructor
      · rw [grown.queue]
        refine pairwise_append.mpr ⟨?_, ?_, ?_⟩
        · exact sorted'.imp_of_mem fun member member' le alive' alive'' =>
            le (fun dead => alive' ((old _ member).mpr dead)) fun dead => alive'' ((old _ member').mpr dead)
        · apply List.Pairwise.imp_of_mem _ (pairwise_of_forall fun _ _ => trivial)
          intro a b member member' _ alive' alive''
          rw [deeper a member alive', deeper b member' alive'']
        · intro a member b member' alive' alive''
          have near := behind a member alive'
          have far := deeper b member' alive''
          omega
      · intro a member b member' alive' alive''
        rw [grown.queue] at member member'
        rcases mem_append.mp member with here | fresh
        · rcases mem_append.mp member' with here' | fresh'
          · have near := behind a here alive'
            have near' := behind b here' alive''
            omega
          · have near := behind a here alive'
            have far := deeper b fresh' alive''
            omega
        · have far := deeper a fresh alive'
          rcases mem_append.mp member' with here' | fresh'
          · have near' := behind b here' alive''
            omega
          · have far' := deeper b fresh' alive''
            omega

/-- Where no side step leads ahead, no core element becomes a leaf. -/
theorem round_clear (direct : Direct offers start) (sound : Sound offers start w)
    (levels : Levels offers start w) (clear : Clear offers start w) : Clear offers start (round offers w) := by
  cases queued : w.queue with
  | nil =>
    have same : round offers w = w := by rw [round, queued]
    rw [same]
    exact clear
  | cons x rest =>
    rcases round_cases offers x rest queued sound.leafs with ⟨_, passed⟩ | ⟨alive, new, grown⟩
    · rw [passed]
      exact clear
    · intro v dead core
      by_cases fresh : v ∈ new
      · rcases grown.marked v fresh with held | held
        · have core' := sound.core x (sound.queued x (queued ▸ mem_cons_self)) alive
          have closer := direct_depth direct core' held.2 core
          exact grown.fresh v fresh (known_closer sound levels clear queued alive core closer)
        · exact held.1 dead
      · exact clear v ((grown.leaf v fresh).mp dead) core

theorem rounds_clear (direct : Direct offers start) (n : Nat) (sound : Sound offers start w)
    (levels : Levels offers start w) (clear : Clear offers start w) : Clear offers start (rounds offers n w) := by
  induction n generalizing w with
  | zero => exact clear
  | succ n ih =>
    exact ih (round_sound sound) (round_levels sound levels clear) (round_clear direct sound levels clear)

omit [DecidableEq α] in
/-- A search that is done and has no leaf in the core has found the core and what is offered from it. -/
theorem found_iff (sound : Sound offers start w) (clear : Clear offers start w) (empty : w.queue = [])
    (v : α) : v ∈ w.keep ↔ Core offers start v ∨ ∃ u, Core offers start u ∧ ∃ side, (v, side) ∈ offers u := by
  have searched : ∀ u, Core offers start u → u ∈ w.keep ∧ ∀ o ∈ offers u, o.1 ∈ w.keep := by
    rintro u ⟨n, near⟩
    have closed : ∀ u, Core offers start u → u ∈ w.keep → ∀ o ∈ offers u, o.1 ∈ w.keep := by
      intro u core kept
      rcases sound.done u kept fun dead => clear u dead core with waiting | all
      · rw [empty] at waiting
        exact absurd waiting not_mem_nil
      · exact all
    have kept : u ∈ w.keep := by
      induction near with
      | start _ member => exact sound.started _ member
      | further near step ih => exact closed _ ⟨_, near⟩ ih _ step
    exact ⟨kept, closed u ⟨n, near⟩ kept⟩
  constructor
  · intro kept
    by_cases dead : v ∈ w.leaf
    · obtain ⟨u, core, offered⟩ := sound.side v dead
      exact .inr ⟨u, core, true, offered⟩
    · exact .inl (sound.core v kept dead)
  · rintro (core | ⟨u, core, side, offered⟩)
    · exact (searched v core).1
    · exact (searched u core).2 _ offered

end Levels

section Ahead
variable [DecidableEq α] {offers : α → List (α × Bool)} {start : List α} {u : Nat → α} {n : Nat}

variable (offers start) in
/-- A shortest way into the core of which each step is the first that is new to its element. -/
structure Chain (u : Nat → α) (n : Nat) : Prop where
  first : ∃ others, start = u 0 :: others
  step : ∀ k < n, ∃ before after, offers (u k) = before ++ (u (k + 1), false) :: after ∧
    ∀ o ∈ before, ∃ j ≤ k, o.1 = u j
  deep : ∀ k ≤ n, depth offers start (u k) = k

variable (offers start u) in
/-- The element of the way stands in the queue before all others that are as deep. -/
structure Leading (k : Nat) (w : Search α) (front back : List α) : Prop where
  queue : w.queue = front ++ u k :: back
  before : ∀ y ∈ front, y ∉ w.leaf → depth offers start y < k
  level : ∀ y ∈ w.keep, y ∉ w.leaf → depth offers start y ≤ k
  passed : ∀ j ≤ k, u j ∈ w.keep

omit [DecidableEq α] in
theorem chain_core (chain : Chain offers start u n) {k : Nat} (le : k ≤ n) : Core offers start (u k) := by
  induction k with
  | zero =>
    obtain ⟨others, same⟩ := chain.first
    exact core_start (same ▸ mem_cons_self)
  | succ k ih =>
    obtain ⟨before, after, offered, _⟩ := chain.step k (by omega)
    exact (core_step (ih (by omega)) (offered ▸ mem_append_right before mem_cons_self)).1

theorem rounds_succ (m : Nat) (w : Search α) : rounds offers (m + 1) w = round offers (rounds offers m w) :=
  rounds_add m 1 w

/-- Offers of what is known change nothing. -/
theorem meets_known {os : List (α × Bool)} {w : Search α} (known : ∀ o ∈ os, o.1 ∈ w.keep) :
    os.foldl meet w = w := by
  induction os with
  | nil => rfl
  | cons o rest ih =>
    have same : meet w o = w := if_pos (known o mem_cons_self)
    rw [foldl_cons, same]
    exact ih fun o' member => known o' (mem_cons_of_mem o member)

/-- Elements of the way are known once it leads past them. -/
theorem passed_over {k m : Nat} {front back : List α}
    (leading : Leading offers start u k (rounds offers m (begin_ start)) front back) {before : List (α × Bool)}
    (known : ∀ o ∈ before, ∃ j ≤ k, o.1 = u j) (queue : List α) :
    before.foldl meet { rounds offers m (begin_ start) with queue := queue } =
      { rounds offers m (begin_ start) with queue := queue } := by
  apply meets_known
  intro o member
  obtain ⟨j, le, own⟩ := known o member
  rw [own]
  exact leading.passed j le

theorem sound_at (distinct : start.Nodup) (m : Nat) : Sound offers start (rounds offers m (begin_ start)) :=
  rounds_sound m (sound_begin offers distinct)

theorem levels_at (distinct : start.Nodup) (clear : ∀ m, Clear offers start (rounds offers m (begin_ start)))
    (m : Nat) : Levels offers start (rounds offers m (begin_ start)) := by
  induction m with
  | zero => exact levels_begin
  | succ m ih =>
    rw [rounds_succ]
    exact round_levels (sound_at distinct m) ih (clear m)

variable (distinct : start.Nodup) (clear : ∀ m, Clear offers start (rounds offers m (begin_ start)))
include distinct clear

/-- What stands before the element of the way is searched without reaching its depth. -/
theorem leading_head {k m : Nat} {front back : List α}
    (leading : Leading offers start u k (rounds offers m (begin_ start)) front back) :
    ∃ m' back', Leading offers start u k (rounds offers m' (begin_ start)) [] back' := by
  induction front generalizing m back with
  | nil => exact ⟨m, back, leading⟩
  | cons y rest ih =>
    have sound := @sound_at α _ offers start distinct m
    have queued : (rounds offers m (begin_ start)).queue = y :: (rest ++ u k :: back) := leading.queue
    rcases round_cases offers y _ queued sound.leafs with ⟨_, passed⟩ | ⟨alive, new, grown⟩
    · apply @ih (m + 1) back
      rw [rounds_succ, passed]
      exact ⟨rfl, fun z member => leading.before z (mem_cons_of_mem y member), leading.level,
        leading.passed⟩
    · have shallow := leading.before y mem_cons_self alive
      have old : ∀ z ∈ (rounds offers m (begin_ start)).keep,
          z ∈ (round offers (rounds offers m (begin_ start))).leaf ↔ z ∈ (rounds offers m (begin_ start)).leaf :=
        fun z member => grown.leaf z fun fresh => grown.fresh z fresh member
      apply @ih (m + 1) (back ++ new)
      rw [rounds_succ]
      constructor
      · rw [grown.queue]
        simp
      · intro z member alive'
        have kept := sound.queued z (queued ▸ mem_cons_of_mem y (mem_append_left _ member))
        exact leading.before z (mem_cons_of_mem y member) fun dead => alive' ((old z kept).mpr dead)
      · intro z member alive'
        rw [grown.keep] at member
        rcases mem_append.mp member with kept | fresh
        · exact leading.level z kept fun dead => alive' ((old z kept).mpr dead)
        · rcases grown.marked z fresh with held | held
          · exact absurd held.1 alive'
          · have deep := found_deeper sound (levels_at distinct clear m) (clear m) queued alive
              (grown.fresh z fresh) held.2
            omega
      · intro j le
        rw [grown.keep]
        exact mem_append_left new (leading.passed j le)

/-- Searched, the element of the way puts its next one before all others of the next depth. -/
theorem leading_next (chain : Chain offers start u n) {k m : Nat} (less : k < n) {back : List α}
    (leading : Leading offers start u k (rounds offers m (begin_ start)) [] back) :
    ∃ back', Leading offers start u (k + 1) (rounds offers (m + 1) (begin_ start)) back back' := by
  have sound := @sound_at α _ offers start distinct m
  have queued : (rounds offers m (begin_ start)).queue = u k :: back := leading.queue
  have alive : u k ∉ (rounds offers m (begin_ start)).leaf := fun dead =>
    clear m _ dead (chain_core chain less.le)
  have alive' : u (k + 1) ∉ (rounds offers m (begin_ start)).leaf := fun dead =>
    clear m _ dead (chain_core chain less)
  have fresh : u (k + 1) ∉ (rounds offers m (begin_ start)).keep := by
    intro kept
    have level := leading.level _ kept alive'
    rw [chain.deep (k + 1) less] at level
    omega
  obtain ⟨before, after, offered, known⟩ := chain.step k less
  have searched : round offers (rounds offers m (begin_ start)) = after.foldl meet
      ⟨(rounds offers m (begin_ start)).keep ++ [u (k + 1)], (rounds offers m (begin_ start)).leaf,
        back ++ [u (k + 1)]⟩ := by
    have same := passed_over leading known back
    unfold round
    rw [queued]
    simp only [if_neg alive]
    rw [offered, foldl_append, same, foldl_cons, meet, if_neg fresh]
    rfl
  obtain ⟨more, grown⟩ := meets_grown after
    ⟨(rounds offers m (begin_ start)).keep ++ [u (k + 1)], (rounds offers m (begin_ start)).leaf,
      back ++ [u (k + 1)]⟩ fun x dead => mem_append_left _ (sound.leafs x dead)
  have old : ∀ z ∈ (rounds offers m (begin_ start)).keep,
      z ∈ (round offers (rounds offers m (begin_ start))).leaf ↔ z ∈ (rounds offers m (begin_ start)).leaf := by
    intro z member
    rw [searched]
    exact grown.leaf z fun late => grown.fresh z late (mem_append_left _ member)
  have found : ∀ z ∉ (rounds offers m (begin_ start)).keep,
      z ∉ (round offers (rounds offers m (begin_ start))).leaf →
        z ∈ (round offers (rounds offers m (begin_ start))).keep → depth offers start z = k + 1 := by
    intro z new clear' member
    rcases round_cases offers (u k) back queued sound.leafs with ⟨dead, _⟩ | ⟨_, new', grown'⟩
    · exact absurd dead alive
    · rw [grown'.keep] at member
      have fresh' := (mem_append.mp member).resolve_left new
      rcases grown'.marked z fresh' with held | held
      · exact absurd held.1 clear'
      · rw [found_deeper sound (levels_at distinct clear m) (clear m) queued alive new held.2,
          chain.deep k less.le]
  refine ⟨more, ?_⟩
  rw [rounds_succ]
  constructor
  · rw [searched, grown.queue]
    simp
  · intro y member clear'
    have kept := sound.queued y (queued ▸ mem_cons_of_mem _ member)
    have level := leading.level y kept fun dead => clear' ((old y kept).mpr dead)
    omega
  · intro y member clear'
    by_cases kept : y ∈ (rounds offers m (begin_ start)).keep
    · have level := leading.level y kept fun dead => clear' ((old y kept).mpr dead)
      omega
    · exact (found y kept clear' member).le
  · intro j le
    rw [searched, grown.keep]
    apply mem_append_left
    by_cases last : j = k + 1
    · rw [last]
      simp
    · exact mem_append_left _ (leading.passed j (by omega))

theorem leading_at (chain : Chain offers start u n) {k : Nat} (le : k ≤ n) :
    ∃ m back, Leading offers start u k (rounds offers m (begin_ start)) [] back := by
  induction k with
  | zero =>
    obtain ⟨others, same⟩ := chain.first
    refine ⟨0, others, same, fun _ none => absurd none not_mem_nil, ?_, ?_⟩
    · intro y member _
      exact (depth_le_iff (core_start member)).mpr (.start 0 member)
    · intro j zero
      rw [Nat.le_zero.mp zero]
      change u 0 ∈ start
      rw [same]
      exact mem_cons_self
  | succ k ih =>
    obtain ⟨m, back, leading⟩ := ih (by omega)
    obtain ⟨back', leading'⟩ := leading_next distinct clear chain (by omega) leading
    exact leading_head distinct clear leading'

omit clear in
/-- At the end of such a way a side step ahead of the others makes a leaf of a core element. -/
theorem ahead_leaf (chain : Chain offers start u n) {v : α} (core : Core offers start v)
    (deeper : n < depth offers start v) {before after : List (α × Bool)}
    (offered : offers (u n) = before ++ (v, true) :: after) (known : ∀ o ∈ before, ∃ j ≤ n, o.1 = u j) :
    ∃ m, ¬ Clear offers start (rounds offers m (begin_ start)) := by
  by_contra none
  have clear : ∀ m, Clear offers start (rounds offers m (begin_ start)) := fun m =>
    not_not.mp fun some_ => none ⟨m, some_⟩
  obtain ⟨m, back, leading⟩ := leading_at distinct clear chain (le_refl n)
  have sound := @sound_at α _ offers start distinct m
  have queued : (rounds offers m (begin_ start)).queue = u n :: back := leading.queue
  have alive : u n ∉ (rounds offers m (begin_ start)).leaf := fun dead =>
    clear m _ dead (chain_core chain (le_refl n))
  have fresh : v ∉ (rounds offers m (begin_ start)).keep := by
    intro kept
    have level := leading.level v kept fun dead => clear m v dead core
    omega
  have same := passed_over leading known back
  obtain ⟨more, grown⟩ := meets_grown after
    ⟨(rounds offers m (begin_ start)).keep ++ [v], (rounds offers m (begin_ start)).leaf ++ [v],
      back ++ [v]⟩ fun x dead => mem_append.mpr ((mem_append.mp dead).imp_left (sound.leafs x))
  have searched : round offers (rounds offers m (begin_ start)) = after.foldl meet
      ⟨(rounds offers m (begin_ start)).keep ++ [v], (rounds offers m (begin_ start)).leaf ++ [v],
        back ++ [v]⟩ := by
    unfold round
    rw [queued]
    simp only [if_neg alive]
    rw [offered, foldl_append, same, foldl_cons, meet, if_neg fresh]
    rfl
  apply clear (m + 1) v _ core
  rw [rounds_succ, searched]
  exact (grown.leaf v fun late => grown.fresh v late (by simp)).mpr (by simp)

end Ahead

end LeafSearch
