import Mathlib.Data.List.Nodup
import Mathlib.Data.List.Perm.Subperm

/- Breadth-first search with a gate on what may be found and a bound on how much: level by level, or
   from a queue. What it finds does not depend on the order in which neighbours are offered. -/
namespace LevelSearch
open List
variable {α : Type}

/-- At most so many steps away. -/
inductive Within (step : α → α → Prop) (root : α) : Nat → α → Prop where
  | root (n : Nat) : Within step root n root
  | further {n : Nat} {x y : α} : Within step root n x → step x y → Within step root (n + 1) y

section Distance
variable {step step' : α → α → Prop} {root x y : α} {m n : Nat}

theorem within_next (near : Within step root n x) : Within step root (n + 1) x := by
  induction near with
  | root n => exact .root (n + 1)
  | further _ taken ih => exact .further ih taken

theorem within_le (near : Within step root m x) (le : m ≤ n) : Within step root n x := by
  induction le with
  | refl => exact near
  | step _ ih => exact within_next ih

theorem within_iff : Within step root n y ↔ y = root ∨ ∃ m < n, ∃ x, Within step root m x ∧ step x y := by
  constructor
  · intro near
    cases near with
    | root => exact .inl rfl
    | further near taken => exact .inr ⟨_, Nat.lt_succ_self _, _, near, taken⟩
  · rintro (rfl | ⟨m, lt, x, near, taken⟩)
    · exact .root n
    · exact within_le (.further near taken) lt

theorem within_keep {keep : α → Prop} (start : keep root)
    (closed : ∀ x y, keep x → step x y → keep y) (near : Within step root n x) : keep x := by
  induction near with
  | root n => exact start
  | further _ taken ih => exact closed _ _ ih taken

/-- A relation that agrees where the other leads has its balls. -/
theorem within_same {keep : α → Prop} (start : keep root)
    (closed : ∀ x y, keep x → step x y → keep y)
    (same : ∀ x, keep x → ∀ y, step x y → step' x y) (near : Within step root n x) :
    Within step' root n x := by
  induction near with
  | root n => exact .root n
  | further near taken ih =>
    exact .further ih (same _ (within_keep start closed near) _ taken)

end Distance

/-- `order` lists what has been found as it was found, `next` the part of it still to be searched. -/
structure Search (α : Type) where
  order : List α
  next : List α
  denied : List α
  truncated : Bool

section Run
variable [DecidableEq α] (status : α → Option Bool) (room : Nat → Bool) (offers : α → List α)

/-- The status of what is not there is none; of the rest it says whether it may be found. -/
def offer (w : Search α) (x : α) : Search α := if x ∈ w.order then w
  else if x ∈ w.denied then w
  else match status x with
  | none => w
  | some false => { w with denied := x :: w.denied }
  | some true =>
    if room w.order.length then { w with order := w.order ++ [x], next := w.next ++ [x] }
    else { w with truncated := true }

def expand : List α → Search α → Search α
  | [], w => w
  | x :: rest, w =>
    let visited := (offers x).foldl (offer status room) w
    if visited.truncated then visited else expand rest visited

def levels : Nat → List α → Search α → Search α
  | 0, _, w => w
  | hops + 1, frontier, w =>
    let reached := expand status room offers frontier { w with next := [] }
    if reached.truncated || reached.next.isEmpty then reached
    else levels hops reached.next reached

/-- The same from a queue: the first in it is searched, what is found goes behind the others. -/
def drain : Nat → Search α → Search α
  | 0, w => w
  | rounds + 1, w => match w.next with
    | [] => w
    | x :: rest => drain rounds ((offers x).foldl (offer status room) { w with next := rest })

end Run

section Offers
variable {status : α → Option Bool} {room : Nat → Bool} {offers : α → List α}
  {root : α} {xs : List α} {w : Search α}

/-- What a search from the root is once it has been offered so much. -/
structure Offered (status : α → Option Bool) (room : Nat → Bool) (root : α) (xs : List α)
    (w : Search α) : Prop where
  rooted : w.order.head? = some root
  distinct : w.order.Nodup
  fits : ∀ n, 0 < n → n < w.order.length → room n = true
  found : ∀ x ∈ w.order, x = root ∨ x ∈ xs ∧ status x = some true
  whole : w.truncated = false → ∀ x ∈ xs, status x = some true → x ∈ w.order
  cut : w.truncated = true → room w.order.length = false ∧ ∃ x ∈ xs, status x = some true ∧ x ∉ w.order
  denied : ∀ x, x ∈ w.denied ↔ x ∈ xs ∧ status x = some false ∧ x ≠ root
  deniedOnce : w.denied.Nodup

theorem offered_start (root : α) (next : List α) :
    Offered status room root [] ⟨[root], next, [], false⟩ where
  rooted := rfl
  distinct := nodup_singleton root
  fits n positive short := by simp at short; omega
  found x member := .inl (mem_singleton.mp member)
  whole _ x member := absurd member not_mem_nil
  cut truncated := by cases truncated
  denied x := by simp
  deniedOnce := nodup_nil

theorem root_found (offered : Offered status room root xs w) : root ∈ w.order :=
  mem_of_mem_head? offered.rooted

theorem offered_next (offered : Offered status room root xs w) (next : List α) :
    Offered status room root xs { w with next := next } :=
  ⟨offered.rooted, offered.distinct, offered.fits, offered.found, offered.whole, offered.cut,
    offered.denied, offered.deniedOnce⟩

theorem found_wider (offered : Offered status room root xs w) (x : α) {y : α} (member : y ∈ w.order) :
    y = root ∨ y ∈ xs ++ [x] ∧ status y = some true :=
  (offered.found y member).imp_right fun ⟨before, allowed⟩ =>
    ⟨mem_append_left [x] before, allowed⟩

theorem cut_wider (offered : Offered status room root xs w) (x : α) (truncated : w.truncated = true) :
    room w.order.length = false ∧ ∃ y ∈ xs ++ [x], status y = some true ∧ y ∉ w.order := by
  obtain ⟨none_left, y, before, allowed, missed⟩ := offered.cut truncated
  exact ⟨none_left, y, mem_append_left [x] before, allowed, missed⟩

/-- The offer of what may be found notes no denial. -/
theorem denied_wider (offered : Offered status room root xs w) {x : α} (allowed : status x = some true)
    (y : α) : y ∈ w.denied ↔ y ∈ xs ++ [x] ∧ status y = some false ∧ y ≠ root := by
  rw [offered.denied y]
  constructor
  · rintro ⟨before, rejected, other⟩
    exact ⟨mem_append_left [x] before, rejected, other⟩
  · rintro ⟨member, rejected, other⟩
    rcases mem_append.mp member with before | last
    · exact ⟨before, rejected, other⟩
    · rw [mem_singleton.mp last, allowed] at rejected
      cases rejected

/-- An offer that leaves the search as it is. -/
theorem offered_again {x : α} (offered : Offered status room root xs w)
    (old : status x = some true → x ∈ w.order)
    (noted : status x = some false → x ≠ root → x ∈ w.denied) :
    Offered status room root (xs ++ [x]) w where
  rooted := offered.rooted
  distinct := offered.distinct
  fits := offered.fits
  deniedOnce := offered.deniedOnce
  found _ member := found_wider offered x member
  whole full y member allowed := by
    rcases mem_append.mp member with before | last
    · exact offered.whole full y before allowed
    · rw [mem_singleton.mp last] at allowed ⊢
      exact old allowed
  cut := cut_wider offered x
  denied y := by
    rw [offered.denied y]
    constructor
    · rintro ⟨before, rejected, other⟩
      exact ⟨mem_append_left [x] before, rejected, other⟩
    · rintro ⟨member, rejected, other⟩
      rcases mem_append.mp member with before | last
      · exact ⟨before, rejected, other⟩
      · rw [mem_singleton.mp last] at rejected other ⊢
        exact ⟨((offered.denied x).mp (noted rejected other)).1, rejected, other⟩

theorem offered_denied {x : α} (offered : Offered status room root xs w)
    (rejected : status x = some false) (other : x ∉ w.order) (fresh : x ∉ w.denied) :
    Offered status room root (xs ++ [x]) { w with denied := x :: w.denied } where
  rooted := offered.rooted
  distinct := offered.distinct
  fits := offered.fits
  deniedOnce := nodup_cons.mpr ⟨fresh, offered.deniedOnce⟩
  found _ member := found_wider offered x member
  whole full y member allowed := by
    rcases mem_append.mp member with before | last
    · exact offered.whole full y before allowed
    · rw [mem_singleton.mp last, rejected] at allowed
      cases allowed
  cut := cut_wider offered x
  denied y := by
    have apart : x ≠ root := fun same => other (same ▸ root_found offered)
    rw [mem_cons, offered.denied y]
    constructor
    · rintro (rfl | ⟨before, rejected', other'⟩)
      · exact ⟨mem_append_right xs mem_cons_self, rejected, apart⟩
      · exact ⟨mem_append_left [x] before, rejected', other'⟩
    · rintro ⟨member, rejected', other'⟩
      rcases mem_append.mp member with before | last
      · exact .inr ⟨before, rejected', other'⟩
      · exact .inl (mem_singleton.mp last)

theorem offered_found {x : α} (offered : Offered status room root xs w)
    (allowed : status x = some true) (fresh : x ∉ w.order) (left : room w.order.length = true) :
    Offered status room root (xs ++ [x])
      { w with order := w.order ++ [x], next := w.next ++ [x] } where
  rooted := by
    rw [head?_append, offered.rooted]
    rfl
  distinct := by
    refine nodup_append.mpr ⟨offered.distinct, nodup_singleton x, ?_⟩
    rintro y before _ last rfl
    exact fresh (mem_singleton.mp last ▸ before)
  fits n positive short := by
    rw [length_append, length_singleton] at short
    by_cases last : n = w.order.length
    · rw [last]
      exact left
    · exact offered.fits n positive (by omega)
  deniedOnce := offered.deniedOnce
  found y member := by
    rcases mem_append.mp member with before | last
    · exact found_wider offered x before
    · rw [mem_singleton.mp last]
      exact .inr ⟨mem_append_right xs mem_cons_self, allowed⟩
  whole full y member allowed' := by
    rcases mem_append.mp member with before | last
    · exact mem_append_left [x] (offered.whole full y before allowed')
    · exact mem_append_right w.order last
  cut truncated := by
    have none_left := (offered.cut truncated).1
    rw [left] at none_left
    cases none_left
  denied := denied_wider offered allowed

theorem offered_cut {x : α} (offered : Offered status room root xs w)
    (allowed : status x = some true) (fresh : x ∉ w.order) (left : room w.order.length = false) :
    Offered status room root (xs ++ [x]) { w with truncated := true } where
  rooted := offered.rooted
  distinct := offered.distinct
  fits := offered.fits
  deniedOnce := offered.deniedOnce
  found _ member := found_wider offered x member
  whole full := by cases full
  cut _ := ⟨left, x, mem_append_right xs mem_cons_self, allowed, fresh⟩
  denied := denied_wider offered allowed

/-- What is found is appended to both lists. -/
def Grown (w w' : Search α) : Prop := ∃ new, w'.order = w.order ++ new ∧ w'.next = w.next ++ new

theorem grown_refl (w : Search α) : Grown w w := ⟨[], by simp, by simp⟩

theorem grown_trans {w' w'' : Search α} (first : Grown w w') (second : Grown w' w'') : Grown w w'' := by
  obtain ⟨new, order, next⟩ := first
  obtain ⟨new', order', next'⟩ := second
  exact ⟨new ++ new', by rw [order', order, append_assoc], by rw [next', next, append_assoc]⟩

variable [DecidableEq α]

theorem offer_offered (offered : Offered status room root xs w) (x : α) :
    Offered status room root (xs ++ [x]) (offer status room w x) := by
  unfold offer
  by_cases included : x ∈ w.order
  · rw [if_pos included]
    refine offered_again offered (fun _ => included) fun rejected other => ?_
    rcases offered.found x included with same | ⟨_, allowed⟩
    · exact absurd same other
    · rw [rejected] at allowed
      cases allowed
  · rw [if_neg included]
    by_cases noted : x ∈ w.denied
    · rw [if_pos noted]
      refine offered_again offered (fun allowed => ?_) fun _ _ => noted
      have rejected := ((offered.denied x).mp noted).2.1
      rw [rejected] at allowed
      cases allowed
    · rw [if_neg noted]
      cases known : status x with
      | none => exact offered_again offered (by simp [known]) (by simp [known])
      | some allowed =>
        cases allowed with
        | false => exact offered_denied offered known included noted
        | true =>
          cases left : room w.order.length with
          | false => exact offered_cut offered known included left
          | true => exact offered_found offered known included left

theorem offers_offered (offered : Offered status room root xs w) (ys : List α) :
    Offered status room root (xs ++ ys) (ys.foldl (offer status room) w) := by
  induction ys generalizing xs w with
  | nil => rwa [append_nil]
  | cons y rest ih =>
    have first := ih (offer_offered offered y)
    rwa [append_assoc, singleton_append] at first

variable (status room offers)

theorem offer_grown (w : Search α) (x : α) : Grown w (offer status room w x) := by
  unfold offer
  split
  · exact grown_refl w
  · split
    · exact grown_refl w
    · split
      · exact grown_refl w
      · exact ⟨[], by simp, by simp⟩
      · split
        · exact ⟨[x], rfl, rfl⟩
        · exact ⟨[], by simp, by simp⟩

theorem offers_grown (ys : List α) (w : Search α) : Grown w (ys.foldl (offer status room) w) := by
  induction ys generalizing w with
  | nil => exact grown_refl w
  | cons y rest ih => exact grown_trans (offer_grown status room w y) (ih (offer status room w y))

theorem expand_grown (frontier : List α) (w : Search α) :
    Grown w (expand status room offers frontier w) := by
  induction frontier generalizing w with
  | nil => exact grown_refl w
  | cons x rest ih =>
    have visited := offers_grown status room (offers x) w
    simp only [expand]
    split
    · exact visited
    · exact grown_trans visited (ih _)

variable {status room}

/-- The frontier is searched to its end, unless the room ran out. -/
theorem expand_offered (frontier : List α) (offered : Offered status room root xs w)
    (clear : w.truncated = false) : ∃ part, part ⊆ frontier ∧
      Offered status room root (xs ++ part.flatMap offers) (expand status room offers frontier w) ∧
      ((expand status room offers frontier w).truncated = false → part = frontier) := by
  induction frontier generalizing xs w with
  | nil => exact ⟨[], List.Subset.refl [], by simpa [expand] using offered, fun _ => rfl⟩
  | cons x rest ih =>
    have visited := offers_offered offered (offers x)
    simp only [expand]
    cases stopped : ((offers x).foldl (offer status room) w).truncated with
    | true =>
      rw [if_pos rfl]
      refine ⟨[x], by simp, by simpa using visited, fun clear' => ?_⟩
      rw [stopped] at clear'
      cases clear'
    | false =>
      rw [if_neg Bool.false_ne_true]
      obtain ⟨part, inside, later, all⟩ := ih visited stopped
      refine ⟨x :: part, cons_subset_cons x inside, ?_, fun clear' => ?_⟩
      · rwa [flatMap_cons, ← append_assoc]
      · rw [all clear']

end Offers

section Levels
variable {status : α → Option Bool} {room : Nat → Bool} {offers : α → List α}
  {root : α} {n : Nat} {done frontier : List α} {w : Search α}

/-- A step goes to a neighbour that may be found. -/
def Step (status : α → Option Bool) (offers : α → List α) (x y : α) : Prop :=
  y ∈ offers x ∧ status y = some true

/-- What may not be found, and is offered from less than so many steps away. -/
def Denied (status : α → Option Bool) (offers : α → List α) (root : α) (n : Nat) (y : α) : Prop :=
  status y = some false ∧ y ≠ root ∧ ∃ m < n, ∃ x, Within (Step status offers) root m x ∧ y ∈ offers x

/-- Before a hop: `done` has been searched, the frontier is what it found last. -/
structure Level (status : α → Option Bool) (room : Nat → Bool) (offers : α → List α) (root : α)
    (n : Nat) (done frontier : List α) (w : Search α) : Prop where
  offered : Offered status room root (done.flatMap offers) w
  clear : w.truncated = false
  order : w.order = done ++ frontier
  searched : ∀ x, x ∈ done ↔ ∃ m < n, Within (Step status offers) root m x

theorem level_start (root : α) (next : List α) :
    Level status room offers root 0 [] [root] ⟨[root], next, [], false⟩ where
  offered := offered_start root next
  clear := rfl
  order := rfl
  searched x := by simp

/-- Until the room runs out the search has found just what is so near. -/
theorem level_within (level : Level status room offers root n done frontier w) (y : α) :
    y ∈ w.order ↔ Within (Step status offers) root n y := by
  rw [within_iff]
  constructor
  · intro member
    refine (level.offered.found y member).imp_right fun ⟨offered, allowed⟩ => ?_
    obtain ⟨x, searched, offer⟩ := mem_flatMap.mp offered
    obtain ⟨m, lt, near⟩ := (level.searched x).mp searched
    exact ⟨m, lt, x, near, offer, allowed⟩
  · rintro (rfl | ⟨m, lt, x, near, offer, allowed⟩)
    · exact root_found level.offered
    · have searched := (level.searched x).mpr ⟨m, lt, near⟩
      exact level.offered.whole level.clear y (mem_flatMap.mpr ⟨x, searched, offer⟩) allowed

theorem level_searched (level : Level status room offers root n done frontier w) (x : α) :
    x ∈ done ++ frontier ↔ ∃ m < n + 1, Within (Step status offers) root m x := by
  rw [← level.order, level_within level]
  constructor
  · intro near
    exact ⟨n, Nat.lt_succ_self n, near⟩
  · rintro ⟨m, lt, near⟩
    exact within_le near (Nat.le_of_lt_succ lt)

/-- What a search of so many hops comes to. -/
structure Exact (status : α → Option Bool) (room : Nat → Bool) (offers : α → List α) (root : α)
    (n : Nat) (w : Search α) : Prop where
  rooted : w.order.head? = some root
  distinct : w.order.Nodup
  fits : ∀ m, 0 < m → m < w.order.length → room m = true
  inside : ∀ x ∈ w.order, Within (Step status offers) root n x
  whole : w.truncated = false → ∀ x, Within (Step status offers) root n x → x ∈ w.order
  cut : w.truncated = true →
    room w.order.length = false ∧ ∃ x, Within (Step status offers) root n x ∧ x ∉ w.order
  denied : w.truncated = false → ∀ x, x ∈ w.denied ↔ Denied status offers root n x
  deniedOnce : w.denied.Nodup

theorem level_exact (level : Level status room offers root n done frontier w) :
    Exact status room offers root n w where
  rooted := level.offered.rooted
  distinct := level.offered.distinct
  fits := level.offered.fits
  inside x := (level_within level x).mp
  whole _ x := (level_within level x).mpr
  cut truncated := by
    rw [level.clear] at truncated
    cases truncated
  denied _ y := by
    rw [level.offered.denied y]
    constructor
    · rintro ⟨offered, rejected, other⟩
      obtain ⟨x, searched, offer⟩ := mem_flatMap.mp offered
      obtain ⟨m, lt, near⟩ := (level.searched x).mp searched
      exact ⟨rejected, other, m, lt, x, near, offer⟩
    · rintro ⟨rejected, other, m, lt, x, near, offer⟩
      have searched := (level.searched x).mpr ⟨m, lt, near⟩
      exact ⟨mem_flatMap.mpr ⟨x, searched, offer⟩, rejected, other⟩
  deniedOnce := level.offered.deniedOnce

/-- With nothing left to search the later levels find nothing new. -/
theorem level_still (level : Level status room offers root n done [] w) (more : Nat) :
    Level status room offers root (n + more) done [] w := by
  induction more with
  | zero => exact level
  | succ more ih =>
    refine ⟨ih.offered, ih.clear, ih.order, fun x => ?_⟩
    rw [← Nat.add_assoc, ← level_searched ih x, append_nil]

section Hops
variable [DecidableEq α]

theorem level_next (level : Level status room offers root n done frontier w)
    (clear : (expand status room offers frontier { w with next := [] }).truncated = false) :
    Level status room offers root (n + 1) (done ++ frontier)
      (expand status room offers frontier { w with next := [] }).next
      (expand status room offers frontier { w with next := [] }) := by
  obtain ⟨part, _, offered, all⟩ :=
    expand_offered offers frontier (offered_next level.offered []) level.clear
  obtain ⟨new, order, next⟩ := expand_grown status room offers frontier { w with next := [] }
  refine ⟨?_, clear, ?_, level_searched level⟩
  · rw [all clear] at offered
    rwa [flatMap_append]
  · rw [order, next, level.order, nil_append]

theorem level_cut (level : Level status room offers root n done frontier w)
    (truncated : (expand status room offers frontier { w with next := [] }).truncated = true) :
    ∀ hops ≥ n + 1, Exact status room offers root hops
      (expand status room offers frontier { w with next := [] }) := by
  intro hops le
  obtain ⟨part, inside, offered, _⟩ :=
    expand_offered offers frontier (offered_next level.offered []) level.clear
  have near : ∀ y ∈ done.flatMap offers ++ part.flatMap offers, status y = some true →
      Within (Step status offers) root (n + 1) y := by
    intro y member allowed
    rw [← flatMap_append] at member
    obtain ⟨x, searched, offer⟩ := mem_flatMap.mp member
    have known : x ∈ done ++ frontier := by
      rcases mem_append.mp searched with before | now
      · exact mem_append_left frontier before
      · exact mem_append_right done (inside now)
    rw [← level.order, level_within level] at known
    exact .further known ⟨offer, allowed⟩
  refine ⟨offered.rooted, offered.distinct, offered.fits, fun y member => ?_, ?_, fun _ => ?_, ?_,
    offered.deniedOnce⟩
  · rcases offered.found y member with rfl | ⟨before, allowed⟩
    · exact .root hops
    · exact within_le (near y before allowed) le
  · rw [truncated]
    intro clear
    cases clear
  · obtain ⟨none_left, y, before, allowed, missed⟩ := offered.cut truncated
    exact ⟨none_left, y, within_le (near y before allowed) le, missed⟩
  · rw [truncated]
    intro clear
    cases clear

theorem levels_exact (hops : Nat) (level : Level status room offers root n done frontier w) :
    Exact status room offers root (n + hops) (levels status room offers hops frontier w) := by
  induction hops generalizing n done frontier w with
  | zero => exact level_exact level
  | succ hops ih =>
    simp only [levels]
    cases clear : (expand status room offers frontier { w with next := [] }).truncated with
    | true =>
      rw [Bool.true_or, if_pos rfl]
      exact level_cut level clear (n + (hops + 1)) (by omega)
    | false =>
      have later := level_next level clear
      have sum : n + (hops + 1) = n + 1 + hops := by omega
      rw [Bool.false_or, sum]
      split
      next empty =>
        rw [isEmpty_iff.mp empty] at later
        exact level_exact (level_still later hops)
      next => exact ih later

end Hops

variable {budget : Nat}

theorem order_length_le (positive : 0 < budget) (room_iff : ∀ m, room m = true ↔ m < budget)
    (exact_ : Exact status room offers root n w) : w.order.length ≤ budget := by
  by_cases single : w.order.length ≤ 1
  · exact Nat.le_trans single positive
  · have left := (room_iff _).mp (exact_.fits (w.order.length - 1) (by omega) (by omega))
    omega

/-- With room for a budget the search is cut short just where more than that is near enough. -/
theorem truncated_iff (positive : 0 < budget) (room_iff : ∀ m, room m = true ↔ m < budget)
    (exact_ : Exact status room offers root n w) : w.truncated = true ↔
      ∃ xs : List α, xs.Nodup ∧ (∀ x ∈ xs, Within (Step status offers) root n x) ∧ budget < xs.length := by
  constructor
  · intro truncated
    obtain ⟨none_left, x, near, missed⟩ := exact_.cut truncated
    refine ⟨x :: w.order, nodup_cons.mpr ⟨missed, exact_.distinct⟩, ?_, ?_⟩
    · intro y member
      rcases mem_cons.mp member with rfl | old
      · exact near
      · exact exact_.inside y old
    · by_contra few
      rw [length_cons] at few
      have left := (room_iff w.order.length).mpr (by omega)
      rw [none_left] at left
      cases left
  · rintro ⟨xs, distinct, near, many⟩
    by_contra clear
    have covered : xs ⊆ w.order := fun x member =>
      exact_.whole (Bool.eq_false_iff.mpr clear) x (near x member)
    have short := (distinct.subperm covered).length_le
    have few := order_length_le positive room_iff exact_
    omega

section Agree
variable {offers' : α → List α} (keep : α → Prop)

theorem step_agree (start : keep root) (closed : ∀ y, status y = some true → keep y)
    (same : ∀ x, keep x → ∀ y, y ∈ offers x ↔ y ∈ offers' x) (x : α) :
    Within (Step status offers) root n x ↔ Within (Step status offers') root n x := by
  constructor
  · refine within_same start (fun _ y _ taken => closed y taken.2) fun x kept y taken => ?_
    exact ⟨(same x kept y).mp taken.1, taken.2⟩
  · refine within_same start (fun _ y _ taken => closed y taken.2) fun x kept y taken => ?_
    exact ⟨(same x kept y).mpr taken.1, taken.2⟩

theorem denied_agree (start : keep root) (closed : ∀ y, status y = some true → keep y)
    (same : ∀ x, keep x → ∀ y, y ∈ offers x ↔ y ∈ offers' x) (y : α) :
    Denied status offers root n y ↔ Denied status offers' root n y := by
  unfold Denied
  refine and_congr_right fun _ => and_congr_right fun _ => exists_congr fun m =>
    and_congr_right fun _ => exists_congr fun x => ?_
  rw [← step_agree keep start closed same x]
  refine and_congr_right fun near => same x ?_ y
  exact within_keep start (fun _ y _ taken => closed y taken.2) near

/-- The order of the offers decides which part of too large a ball is found, and nothing else. -/
theorem exact_agree {w' : Search α} (start : keep root) (closed : ∀ y, status y = some true → keep y)
    (same : ∀ x, keep x → ∀ y, y ∈ offers x ↔ y ∈ offers' x) (positive : 0 < budget)
    (room_iff : ∀ m, room m = true ↔ m < budget) (exact_ : Exact status room offers root n w)
    (exact' : Exact status room offers' root n w') :
    w.truncated = w'.truncated ∧
      (w.truncated = false → w.order.Perm w'.order ∧ w.denied.Perm w'.denied) := by
  have near := step_agree (n := n) keep start closed same
  have flag : w.truncated = w'.truncated := by
    rw [Bool.eq_iff_iff, truncated_iff positive room_iff exact_, truncated_iff positive room_iff exact']
    simp only [near]
  refine ⟨flag, fun clear => ⟨?_, ?_⟩⟩
  · refine (perm_ext_iff_of_nodup exact_.distinct exact'.distinct).mpr fun x => ?_
    have found : x ∈ w.order ↔ Within (Step status offers) root n x :=
      ⟨exact_.inside x, exact_.whole clear x⟩
    have found' : x ∈ w'.order ↔ Within (Step status offers') root n x :=
      ⟨exact'.inside x, exact'.whole (flag ▸ clear) x⟩
    rw [found, found', near]
  · refine (perm_ext_iff_of_nodup exact_.deniedOnce exact'.deniedOnce).mpr fun x => ?_
    rw [exact_.denied clear x, exact'.denied (flag ▸ clear) x]
    exact denied_agree keep start closed same x

end Agree

end Levels

section Queue
variable {status : α → Option Bool} {room : Nat → Bool} {offers : α → List α}
  {root : α} {done : List α} {w : Search α}

structure Queued (status : α → Option Bool) (room : Nat → Bool) (offers : α → List α) (root : α)
    (done : List α) (w : Search α) : Prop where
  offered : Offered status room root (done.flatMap offers) w
  order : w.order = done ++ w.next
  reached : ∀ x ∈ w.order, Relation.ReflTransGen (Step status offers) root x

theorem queued_start (root : α) : Queued status room offers root [] ⟨[root], [root], [], false⟩ :=
  ⟨offered_start root [root], rfl, fun _ member => mem_singleton.mp member ▸ .refl⟩

/-- A queue that has run empty has found what can be reached. -/
theorem drained_reached (queued : Queued status room offers root done w)
    (clear : w.truncated = false) (empty : w.next = []) (x : α) :
    x ∈ w.order ↔ Relation.ReflTransGen (Step status offers) root x := by
  have all : w.order = done := by rw [queued.order, empty, append_nil]
  constructor
  · exact queued.reached x
  · intro path
    induction path with
    | refl => exact root_found queued.offered
    | tail _ taken ih =>
      rw [all] at ih
      have offered := mem_flatMap.mpr ⟨_, ih, taken.1⟩
      exact queued.offered.whole clear _ offered taken.2

variable [DecidableEq α]

theorem queued_round {x : α} {rest : List α} (queued : Queued status room offers root done w)
    (next : w.next = x :: rest) : Queued status room offers root (done ++ [x])
      ((offers x).foldl (offer status room) { w with next := rest }) := by
  obtain ⟨new, order, next'⟩ := offers_grown status room (offers x) { w with next := rest }
  have offered : Offered status room root ((done ++ [x]).flatMap offers)
      ((offers x).foldl (offer status room) { w with next := rest }) := by
    rw [flatMap_append, flatMap_singleton]
    exact offers_offered (offered_next queued.offered rest) (offers x)
  refine ⟨offered, ?_, fun y member => ?_⟩
  · rw [order, next', queued.order, next]
    simp
  · rcases offered.found y member with rfl | ⟨before, allowed⟩
    · exact .refl
    · obtain ⟨z, searched, offer⟩ := mem_flatMap.mp before
      have known : z ∈ w.order := by
        rw [queued.order, next]
        rcases mem_append.mp searched with old | now
        · exact mem_append_left _ old
        · exact mem_append_right done (mem_singleton.mp now ▸ mem_cons_self)
      exact (queued.reached z known).tail ⟨offer, allowed⟩

/-- Every round searches one more, until none is queued. -/
theorem drain_queued (rounds : Nat) (queued : Queued status room offers root done w) :
    ∃ done', Queued status room offers root done' (drain status room offers rounds w) ∧
      ((drain status room offers rounds w).next = [] ∨ done'.length = done.length + rounds) := by
  induction rounds generalizing done w with
  | zero => exact ⟨done, queued, .inr rfl⟩
  | succ rounds ih =>
    simp only [drain]
    split
    next empty => exact ⟨done, queued, .inl empty⟩
    next x rest next =>
      obtain ⟨done', later, ended⟩ := ih (queued_round queued next)
      refine ⟨done', later, ended.imp_right fun searched => ?_⟩
      rw [searched, length_append, length_singleton]
      omega

/-- As many rounds as there is to be found empty the queue. -/
theorem drain_empty {universe_ : List α} (covered : ∀ x, ∀ y ∈ offers x, y ∈ universe_) {rounds : Nat}
    (enough : universe_.length < rounds) :
    (drain status room offers rounds ⟨[root], [root], [], false⟩).next = [] := by
  obtain ⟨done, queued, ended⟩ := drain_queued rounds
    (queued_start root : Queued status room offers root [] ⟨[root], [root], [], false⟩)
  by_contra waiting
  have searched := ended.resolve_left waiting
  have inside : (drain status room offers rounds ⟨[root], [root], [], false⟩).order ⊆
      root :: universe_ := by
    intro x member
    rcases queued.offered.found x member with rfl | ⟨offered, _⟩
    · exact mem_cons_self
    · obtain ⟨z, _, offer⟩ := mem_flatMap.mp offered
      exact mem_cons_of_mem root (covered z x offer)
  have short := (queued.offered.distinct.subperm inside).length_le
  have long := congrArg length queued.order
  rw [length_append] at long
  rw [length_nil, Nat.zero_add] at searched
  rw [length_cons] at short
  have some_left := length_pos_iff.mpr waiting
  omega

end Queue
end LevelSearch
