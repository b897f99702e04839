import Mathlib.Data.Fintype.Card
import Radar.Base.Ascent

/- Going up a partial map until there is no further up or a point comes again. What is found is the
   first point of the way that has nothing above it or lies on a cycle, and it is found from itself. -/
namespace RootWalk
open Ascent List
variable {α : Type} {up : α → Option α} {x y r : α}

/-- With nothing above it or on a cycle. -/
def Still (up : α → Option α) (x : α) : Prop := up x = none ∨ ∃ n, Returns up x n

/-- The first such point on the way up. -/
def Root (up : α → Option α) (x r : α) : Prop :=
  ∃ n, hop up n x = some r ∧ Still up r ∧ ∀ m < n, ∀ z, hop up m x = some z → ¬ Still up z

theorem root_here (still : Still up x) : Root up x x :=
  ⟨0, rfl, still, fun m less => absurd less (Nat.not_lt_zero m)⟩

theorem root_still (root : Root up x r) : Still up r := by
  obtain ⟨_, _, still, _⟩ := root
  exact still

theorem root_unique (first : Root up x r) (second : Root up x y) : r = y := by
  obtain ⟨n, at_, still, before⟩ := first
  obtain ⟨m, at_', still', before'⟩ := second
  rcases Nat.lt_trichotomy n m with less | rfl | less
  · exact absurd still (before' n less r at_)
  · exact Option.some.inj (at_.symm.trans at_')
  · exact absurd still' (before m less y at_')

theorem root_step (open_ : ¬ Still up x) (above : up x = some y) (root : Root up y r) : Root up x r := by
  obtain ⟨n, at_, still, before⟩ := root
  refine ⟨n + 1, (hop_up n above).trans at_, still, fun m less z there => ?_⟩
  cases m with
  | zero =>
    obtain rfl : x = z := Option.some.inj there
    exact open_
  | succ m => exact before m (by omega) z ((hop_up m above).symm.trans there)

/-- A point before the one that comes again is on no cycle. -/
theorem before_cycle {s : α} {i j m : Nat} (order : m < i) (later : i < j)
    (apart : ∀ a < j, ∀ b < j, hop up a s = hop up b s → a = b) (at_ : hop up i s = some x)
    (again : hop up j s = some x) {z : α} (there : hop up m s = some z) : ¬ Still up z := by
  rintro (end_ | ⟨q, positive, round⟩)
  · have beyond : hop up (m + 1) s = none := by
      rw [hop_succ, there]
      exact end_
    rw [hop_none_later beyond (by omega)] at at_
    cases at_
  · -- far round its cycle `z` would lie on that of `x`, where the points differ from it
    have period : ∀ t, hop up (q * t) z = some z := by
      intro t
      induction t with
      | zero => rfl
      | succ t ih =>
        rw [Nat.mul_succ, Nat.add_comm, hop_add (q * t) q ih]
        exact round
    have circle : ∀ k, ∃ c, i ≤ c ∧ c < j ∧ hop up (i + k) s = hop up c s := by
      intro k
      induction k with
      | zero => exact ⟨i, le_refl i, later, rfl⟩
      | succ k ih =>
        obtain ⟨c, low, high, same⟩ := ih
        rw [← Nat.add_assoc, hop_succ, same, ← hop_succ]
        by_cases last : c + 1 = j
        · exact ⟨i, le_refl i, later, by rw [last, again, at_]⟩
        · exact ⟨c + 1, by omega, by omega, rfl⟩
    have far : i ≤ m + q * i := (Nat.le_mul_of_pos_left i positive).trans (Nat.le_add_left _ m)
    obtain ⟨c, low, high, same⟩ := circle (m + q * i - i)
    have back : hop up (m + q * i) s = some z := by
      rw [Nat.add_comm, hop_add m (q * i) there]
      exact period i
    rw [Nat.add_sub_cancel' far, back] at same
    have meet := apart m (by omega) c high (there.trans same)
    omega

theorem before_end {s : α} {i m : Nat} (order : m < i) (at_ : hop up i s = some x) (end_ : up x = none) {z : α}
    (there : hop up m s = some z) : ¬ Still up z := by
  have beyond : hop up (i + 1) s = none := by
    rw [hop_succ, at_]
    exact end_
  rintro (over_ | ⟨q, returns⟩)
  · have gone : hop up (m + 1) s = none := by
      rw [hop_succ, there]
      exact over_
    rw [hop_none_later gone (by omega)] at at_
    cases at_
  · have alive := returns_alive returns (i + 1 - m)
    rw [← hop_add m (i + 1 - m) there, Nat.sub_add_cancel (by omega)] at alive
    exact alive beyond

/-- The points passed so far, each once. -/
theorem trail_apart {s : α} {chain : List α} (trail : Trail up s chain) (distinct : chain.Nodup) :
    ∀ a < chain.length, ∀ b < chain.length, hop up a s = hop up b s → a = b := by
  have marks : ((range chain.length).map fun i => hop up i s).Nodup :=
    trail ▸ distinct.map (Option.some_injective α)
  intro a less b less' same
  exact inj_on_of_nodup_map marks (mem_range.mpr less) (mem_range.mpr less') same

section Stuck
variable {up' : α → Option α} {l : α}

/-- Nothing above it but itself. -/
def Stuck (up : α → Option α) (l : α) : Prop := up l = none ∨ up l = some l

theorem stuck_still (stuck : Stuck up l) : Still up l := stuck.imp id fun self => ⟨1, Nat.one_pos, self⟩

theorem stuck_hop (stuck : Stuck up l) (n : Nat) : hop up n l = none ∨ hop up n l = some l := by
  induction n with
  | zero => exact .inr rfl
  | succ n ih =>
    rw [hop_succ]
    rcases ih with none | same
    · rw [none]
      exact .inl rfl
    · rw [same]
      exact stuck

/-- Two maps that agree off a point lead the same way until they come to it. -/
theorem hop_same (same : ∀ z, z ≠ l → up' z = up z) {n : Nat} (away : ∀ m < n, hop up m x ≠ some l) :
    hop up' n x = hop up n x := by
  induction n with
  | zero => rfl
  | succ n ih =>
    rw [hop_succ, hop_succ, ih fun m less => away m (by omega)]
    cases at_ : hop up n x with
    | none => rfl
    | some z => exact same z fun own => away n (Nat.lt_succ_self n) (own ▸ at_)

theorem still_same (same : ∀ z, z ≠ l → up' z = up z) (stuck : Stuck up l) (other : x ≠ l) (still : Still up x) :
    Still up' x := by
  rcases still with end_ | ⟨n, positive, round⟩
  · exact .inl ((same x other).trans end_)
  · refine .inr ⟨n, positive, ?_⟩
    rw [hop_same same, round]
    intro m less at_
    -- from `l` there is no way back to `x`
    have back := hop_add m (n - m) at_
    rw [Nat.sub_add_cancel less.le, round] at back
    rcases stuck_hop stuck (n - m) with none | self
    · rw [none] at back
      cases back
    · rw [self] at back
      exact other (Option.some.inj back)

/-- Two maps that agree off a point that is stuck in both have the same roots. -/
theorem root_same (same : ∀ z, z ≠ l → up' z = up z) (stuck : Stuck up l) (stuck' : Stuck up' l)
    (root : Root up x r) : Root up' x r := by
  obtain ⟨n, at_, still, before⟩ := root
  have away : ∀ m < n, hop up m x ≠ some l := fun m less there =>
    before m less l there (stuck_still stuck)
  have back : ∀ z, z ≠ l → up z = up' z := fun z other => (same z other).symm
  refine ⟨n, (hop_same same away).trans at_, ?_, fun m less z there still' => ?_⟩
  · by_cases own : r = l
    · exact own ▸ stuck_still stuck'
    · exact still_same same stuck own still
  · rw [hop_same same fun k earlier => away k (by omega)] at there
    have other : z ≠ l := fun own => away m less (own ▸ there)
    exact before m less z there (still_same back stuck' other still')

/-- A way that comes to a point above which is itself has its root there. -/
theorem root_stuck (self : up l = some l) (reach : ∃ k, hop up k x = some l) : Root up x l := by
  classical
  have at_ := Nat.find_spec reach
  refine ⟨Nat.find reach, at_, stuck_still (.inr self), fun m less z there still => ?_⟩
  have later := hop_add m (Nat.find reach - m) there
  rw [Nat.sub_add_cancel less.le, at_] at later
  rcases still with end_ | ⟨n, positive, round⟩
  · have gone : hop up (m + 1) x = none := by
      rw [hop_succ, there]
      exact end_
    rw [hop_none_later gone less] at at_
    cases at_
  · have far : Nat.find reach - m ≤ n * (Nat.find reach - m) := Nat.le_mul_of_pos_left _ positive
    have back : hop up (n * (Nat.find reach - m)) z = some z := Function.IsPeriodicPt.mul_const round _
    have stays := hop_add (Nat.find reach - m) (n * (Nat.find reach - m) - (Nat.find reach - m)) later.symm
    rw [Nat.sub_add_cancel far, back] at stays
    rcases stuck_hop (.inr self) (n * (Nat.find reach - m) - (Nat.find reach - m)) with none | same
    · rw [none] at stays
      cases stays
    · rw [same] at stays
      exact Nat.find_min reach less (there.trans stays)

/-- Where two maps agree but for such a point, a way that came to it has its root there. -/
theorem root_into (same : ∀ z, z ≠ l → up' z = up z) (self : up' l = some l) (reach : ∃ k, hop up k x = some l) :
    Root up' x l := by
  classical
  have first := Nat.find_spec reach
  refine root_stuck self ⟨Nat.find reach, ?_⟩
  rw [hop_same same fun m less => Nat.find_min reach less]
  exact first

end Stuck

/-- One step up to the end. -/
theorem root_end (above : up x = some y) (end_ : up y = none) : Root up x y := by
  have gone : hop up 2 x = none := by
    rw [hop_up 1 above, hop_succ, hop_zero]
    exact end_
  refine root_step ?_ above (root_here (.inl end_))
  rintro (over_ | ⟨n, returns⟩)
  · cases above.symm.trans over_
  · exact returns_alive returns 2 gone

section Walk
variable [DecidableEq α]

/-- Out of fuel the walk has no answer. -/
def walk (up : α → Option α) : Nat → List α → α → Option α
  | 0, _, _ => none
  | fuel + 1, visited, x =>
    if x ∈ visited then some x
    else
      match up x with
      | some y => walk up fuel (visited ++ [x]) y
      | none => some x

/-- With more fuel than there are points the walk answers. -/
theorem walk_total {field : List α} (inside : ∀ x ∈ field, ∀ y, up x = some y → y ∈ field) {fuel : Nat}
    {visited : List α} (distinct : visited.Nodup) (within : ∀ v ∈ visited, v ∈ field) (member : x ∈ field)
    (enough : field.length < visited.length + fuel) : ∃ r ∈ field, walk up fuel visited x = some r := by
  induction fuel generalizing visited x with
  | zero =>
    have few := (subperm_of_subset distinct within).length_le
    omega
  | succ fuel ih =>
    rw [walk]
    by_cases again : x ∈ visited
    · exact ⟨x, member, if_pos again⟩
    · rw [if_neg again]
      cases above : up x with
      | none => exact ⟨x, member, rfl⟩
      | some y =>
        refine ih (distinct.append (nodup_singleton x) (disjoint_singleton.mpr again)) ?_
          (inside x member y above) ?_
        · intro v listed
          rcases mem_append.mp listed with old | new
          · exact within v old
          · rw [mem_singleton.mp new]
            exact member
        · rw [length_append, length_singleton]
          omega

/-- The walk finds the root of the point where it began. -/
theorem walk_root {s : α} {fuel : Nat} {visited : List α} (trail : Trail up s visited) (distinct : visited.Nodup)
    (at_ : hop up visited.length s = some x) (found : walk up fuel visited x = some r) : Root up s r := by
  induction fuel generalizing visited x with
  | zero => cases found
  | succ fuel ih =>
    rw [walk] at found
    by_cases again : x ∈ visited
    · rw [if_pos again] at found
      obtain rfl : x = r := Option.some.inj found
      obtain ⟨i, less, first⟩ := (mem_trail trail).mp again
      refine ⟨i, first, .inr ⟨visited.length - i, by omega, ?_⟩, fun m order z there => ?_⟩
      · rw [← hop_add i _ first, Nat.sub_add_cancel less.le]
        exact at_
      · exact before_cycle order less (trail_apart trail distinct) first at_ there
    · rw [if_neg again] at found
      cases above : up x with
      | none =>
        rw [above] at found
        obtain rfl : x = r := Option.some.inj found
        exact ⟨visited.length, at_, .inl above, fun m order z there => before_end order at_ above there⟩
      | some y =>
        rw [above] at found
        have longer : Trail up s (visited ++ [x]) := trail_step trail at_
        have distinct' : (visited ++ [x]).Nodup :=
          distinct.append (nodup_singleton x) (disjoint_singleton.mpr again)
        refine ih longer distinct' ?_ found
        rw [length_append, length_singleton, hop_succ, at_]
        exact above

theorem walk_start {fuel : Nat} (found : walk up fuel [] x = some r) : Root up x r := by
  have start : Trail up x [] := rfl
  exact walk_root start nodup_nil rfl found

end Walk
end RootWalk
