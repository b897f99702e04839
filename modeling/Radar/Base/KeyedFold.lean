import Mathlib.Data.List.Induction
import Radar.Base.Partition

/- Elements folded into one record for each key, in the order in which the keys first come. -/
namespace KeyedFold
open List
variable {α γ κ : Type}

structure Folding (α γ κ : Type) where
  keyOf : α → κ
  key : γ → κ
  start : α → γ
  add : γ → α → γ
  key_start : ∀ x, key (start x) = keyOf x
  key_add : ∀ g x, key (add g x) = key g

variable {F : Folding α γ κ} {f : γ → List α}

/-- What a record holds of its members: a field that add appends to. -/
theorem foldl_members (appended : ∀ g x, f (F.add g x) = f g ++ [x])
    (xs : List α) (g : γ) : f (xs.foldl F.add g) = f g ++ xs := by
  induction xs generalizing g with
  | nil => simp
  | cons x rest ih =>
    rw [foldl_cons, ih, appended, append_assoc]
    rfl

/-- What a record holds of its members' parts: a field that add takes a union into. -/
theorem foldl_parts {β : Type} [DecidableEq β] {f : γ → List β} {part : α → List β}
    (united : ∀ g x, f (F.add g x) = part x ∪ f g) (xs : List α) (g : γ) (b : β) :
    b ∈ f (xs.foldl F.add g) ↔ b ∈ f g ∨ ∃ x ∈ xs, b ∈ part x := by
  induction xs generalizing g with
  | nil => simp
  | cons x rest ih =>
    rw [foldl_cons, ih, united, mem_union_iff, exists_mem_cons_iff, or_assoc]
    exact or_left_comm

variable [DecidableEq κ] (F)

/-- A record of the element's key takes it up; where there is none, one is started. -/
def Folding.insert : List γ → α → List γ
  | [], x => [F.add (F.start x) x]
  | g :: rest, x =>
    if F.key g = F.keyOf x then F.add g x :: rest else g :: Folding.insert rest x

def Folding.gather (xs : List α) : List γ := xs.foldl F.insert []

variable {F} {groups : List γ} {xs : List α}

theorem insert_absent {x : α} (absent : ∀ g ∈ groups, F.key g ≠ F.keyOf x) :
    F.insert groups x = groups ++ [F.add (F.start x) x] := by
  induction groups with
  | nil => rfl
  | cons first rest ih =>
    rw [Folding.insert, if_neg (absent first mem_cons_self),
      ih fun g member => absent g (mem_cons_of_mem first member)]
    rfl

/-- Where the record of the element's key stands is where the element goes. -/
theorem insert_at (distinct : (groups.map F.key).Nodup) {idx : Nat} {g : γ} {x : α}
    (found : groups[idx]? = some g) (own : F.key g = F.keyOf x) :
    F.insert groups x = groups.set idx (F.add g x) := by
  induction groups generalizing idx with
  | nil => simp at found
  | cons first rest ih =>
    obtain ⟨fresh, later⟩ := nodup_cons.mp distinct
    cases idx with
    | zero =>
      obtain rfl : first = g := by simpa using found
      rw [Folding.insert, if_pos own]
      rfl
    | succ idx =>
      rw [getElem?_cons_succ] at found
      have other : F.key first ≠ F.keyOf x := fun same =>
        fresh (mem_map.mpr ⟨g, mem_of_getElem? found, own.trans same.symm⟩)
      rw [Folding.insert, if_neg other, ih later found]
      rfl

theorem insert_keys (groups : List γ) (x : α) : (F.insert groups x).map F.key =
    if F.keyOf x ∈ groups.map F.key then groups.map F.key
    else groups.map F.key ++ [F.keyOf x] := by
  induction groups with
  | nil => simp [Folding.insert, F.key_add, F.key_start]
  | cons first rest ih =>
    rw [Folding.insert]
    by_cases own : F.key first = F.keyOf x
    · simp [own, F.key_add]
    · have later : F.keyOf x ∈ (first :: rest).map F.key ↔ F.keyOf x ∈ rest.map F.key := by
        simp [Ne.symm own]
      rw [if_neg own, map_cons, ih]
      simp only [later]
      split <;> rfl

theorem mem_insert_keys {x : α} {k : κ} :
    k ∈ (F.insert groups x).map F.key ↔ k ∈ groups.map F.key ∨ k = F.keyOf x := by
  rw [insert_keys]
  split
  next held => exact ⟨.inl, fun either => either.elim id fun same => same ▸ held⟩
  next => rw [mem_append, mem_singleton]

theorem insert_nodup (distinct : (groups.map F.key).Nodup) (x : α) :
    ((F.insert groups x).map F.key).Nodup := by
  rw [insert_keys]
  split
  next => exact distinct
  next absent =>
    rw [nodup_append]
    refine ⟨distinct, nodup_singleton _, fun k held k' own => ?_⟩
    rw [mem_singleton] at own
    exact fun same => absent (own ▸ same ▸ held)

theorem mem_insert (distinct : (groups.map F.key).Nodup) (x : α) (g : γ) : g ∈ F.insert groups x ↔
      (g ∈ groups ∧ F.key g ≠ F.keyOf x) ∨ (∃ g' ∈ groups, F.key g' = F.keyOf x ∧ g = F.add g' x) ∨
        (∀ g' ∈ groups, F.key g' ≠ F.keyOf x) ∧ g = F.add (F.start x) x := by
  induction groups with
  | nil => simp [Folding.insert]
  | cons first rest ih =>
    obtain ⟨fresh, later⟩ := nodup_cons.mp distinct
    rw [Folding.insert]
    by_cases own : F.key first = F.keyOf x
    · have apart : ∀ g ∈ rest, F.key g ≠ F.keyOf x := fun g member same =>
        fresh (own ▸ same ▸ mem_map_of_mem member)
      rw [if_pos own, mem_cons]
      constructor
      · rintro (rfl | member)
        · exact .inr (.inl ⟨first, mem_cons_self, own, rfl⟩)
        · exact .inl ⟨mem_cons_of_mem first member, apart g member⟩
      · rintro (⟨member, other⟩ | ⟨g', member, own', rfl⟩ | ⟨none, -⟩)
        · rcases mem_cons.mp member with rfl | member
          · exact absurd own other
          · exact .inr member
        · rcases mem_cons.mp member with rfl | member
          · exact .inl rfl
          · exact absurd own' (apart g' member)
        · exact absurd own (none first mem_cons_self)
    · rw [if_neg own, mem_cons, ih later]
      simp only [mem_cons, forall_eq_or_imp, exists_eq_or_imp, own, false_and, false_or,
        not_false_eq_true, ne_eq, true_and]
      constructor
      · rintro (rfl | ⟨member, other⟩ | rest_)
        · exact .inl ⟨.inl rfl, own⟩
        · exact .inl ⟨.inr member, other⟩
        · exact .inr rest_
      · rintro (⟨rfl | member, other⟩ | rest_)
        · exact .inl rfl
        · exact .inr (.inl ⟨member, other⟩)
        · exact .inr (.inr rest_)

/-- A record started for the first of some elements has taken up all of them. -/
def Made (F : Folding α γ κ) (members : List α) (g : γ) : Prop :=
  ∃ x rest, members = x :: rest ∧ g = members.foldl F.add (F.start x)

theorem gather_concat (xs : List α) (x : α) : F.gather (xs ++ [x]) = F.insert (F.gather xs) x := by
  simp [Folding.gather]

/-- No two records of one key, and each is made of the elements of its key. -/
theorem gather_spec (xs : List α) : ((F.gather xs).map F.key).Nodup ∧
    (∀ k, k ∈ (F.gather xs).map F.key ↔ ∃ x ∈ xs, F.keyOf x = k) ∧
    ∀ g ∈ F.gather xs, Made F (xs.filter fun x => decide (F.keyOf x = F.key g)) g := by
  induction xs using reverseRecOn with
  | nil => simp [Folding.gather]
  | append_singleton xs x ih =>
    obtain ⟨distinct, used, made⟩ := ih
    rw [gather_concat]
    refine ⟨insert_nodup distinct x, fun k => ?_, fun g member => ?_⟩
    · rw [mem_insert_keys, used]
      simp only [mem_append, mem_singleton, or_and_right, exists_or, exists_eq_left]
      rw [eq_comm (a := k)]
    · rw [filter_append]
      rcases (mem_insert distinct x g).mp member with ⟨old, other⟩ | ⟨g', old, own, rfl⟩ | ⟨none, rfl⟩
      · rw [filter_cons_of_neg (by simpa using Ne.symm other), filter_nil, append_nil]
        exact made g old
      · obtain ⟨first, rest, listed, whole⟩ := made g' old
        rw [F.key_add, own, filter_cons_of_pos (by simp), filter_nil]
        rw [own] at listed whole
        refine ⟨first, rest ++ [x], by rw [listed]; rfl, ?_⟩
        rw [foldl_append, ← whole]
        rfl
      · have absent : (xs.filter fun y => decide (F.keyOf y = F.keyOf x)) = [] := by
          rw [filter_eq_nil_iff]
          intro y member own
          obtain ⟨g', old, same⟩ := mem_map.mp ((used _).mpr ⟨y, member, rfl⟩)
          exact none g' old (same.trans (of_decide_eq_true own))
        rw [F.key_add, F.key_start, absent, filter_cons_of_pos (by simp), filter_nil]
        exact ⟨x, [], rfl, rfl⟩

theorem gather_members (empty : ∀ x, f (F.start x) = [])
    (appended : ∀ g x, f (F.add g x) = f g ++ [x]) {g : γ}
    (member : g ∈ F.gather xs) : f g = xs.filter fun x => decide (F.keyOf x = F.key g) := by
  obtain ⟨x, rest, listed, whole⟩ := (gather_spec xs).2.2 g member
  calc f g = f ((xs.filter fun x => decide (F.keyOf x = F.key g)).foldl F.add (F.start x)) :=
        congrArg f whole
    _ = xs.filter fun x => decide (F.keyOf x = F.key g) := by
        rw [foldl_members appended, empty, nil_append]

theorem gather_parts {β : Type} [DecidableEq β] {f : γ → List β} {part : α → List β}
    (empty : ∀ x, f (F.start x) = []) (united : ∀ g x, f (F.add g x) = part x ∪ f g)
    {g : γ} (member : g ∈ F.gather xs) (b : β) :
    b ∈ f g ↔ ∃ x ∈ xs, F.keyOf x = F.key g ∧ b ∈ part x := by
  obtain ⟨x, rest, _, whole⟩ := (gather_spec xs).2.2 g member
  rw [congrArg f whole, foldl_parts united, empty]
  simp [and_assoc]

/-- The records of some keys are made of the elements of these keys, in the same order. -/
theorem insert_filter {keep : κ → Bool} (x : α) : (F.insert groups x).filter (fun g => keep (F.key g)) =
      if keep (F.keyOf x) then F.insert (groups.filter fun g => keep (F.key g)) x
      else groups.filter fun g => keep (F.key g) := by
  induction groups with
  | nil =>
    by_cases kept : keep (F.keyOf x)
    · simp [Folding.insert, F.key_add, F.key_start, kept]
    · simp [Folding.insert, F.key_add, F.key_start, kept]
  | cons g rest ih =>
    rw [Folding.insert]
    by_cases own : F.key g = F.keyOf x
    · by_cases kept : keep (F.keyOf x)
      · simp [own, kept, F.key_add, Folding.insert]
      · simp [own, kept, F.key_add]
    · rw [if_neg own, filter_cons, ih]
      by_cases mine : keep (F.key g)
      · rw [if_pos mine, filter_cons, if_pos mine]
        split
        next => rw [Folding.insert, if_neg own]
        next => rfl
      · rw [if_neg mine, filter_cons, if_neg mine]

theorem gather_filter (keep : κ → Bool) (xs : List α) :
    (F.gather xs).filter (fun g => keep (F.key g)) = F.gather (xs.filter fun x => keep (F.keyOf x)) := by
  induction xs using reverseRecOn with
  | nil => rfl
  | append_singleton xs x ih =>
    rw [gather_concat, insert_filter, ih, filter_append]
    by_cases kept : keep (F.keyOf x)
    · rw [if_pos kept, filter_cons, if_pos kept, filter_nil, gather_concat]
    · rw [if_neg kept, filter_cons, if_neg kept, filter_nil, append_nil]

/-- Records that correspond go on to do so. -/
theorem insert_rel {R : γ → γ → Prop} (keys : ∀ g g', R g g' → F.key g' = F.key g)
    (add : ∀ x g g', R g g' → R (F.add g x) (F.add g' x)) (start : ∀ g, R g g) {groups groups' : List γ}
    (related : List.Forall₂ R groups groups') (x : α) :
    List.Forall₂ R (F.insert groups x) (F.insert groups' x) := by
  induction related with
  | nil => exact .cons (start _) .nil
  | @cons g g' rest rest' head tail ih =>
    rw [Folding.insert, Folding.insert, keys g g' head]
    split
    next => exact .cons (add x g g' head) tail
    next => exact .cons head ih

/-- What holds of a record when it is started and is kept by what it takes up holds of all. -/
theorem gather_all {P : γ → Prop} (start : ∀ x, P (F.start x)) (add : ∀ g x, P g → P (F.add g x))
    {g : γ} (member : g ∈ F.gather xs) : P g := by
  obtain ⟨x, rest, _, whole⟩ := (gather_spec xs).2.2 g member
  rw [whole]
  exact foldlRecOn _ F.add (start x) fun g held y _ => add g y held

/-- The records' members are the classes of the elements with equal keys. -/
theorem gather_partition (empty : ∀ x, f (F.start x) = [])
    (appended : ∀ g x, f (F.add g x) = f g ++ [x]) (xs : List α) :
    Partition.Grouped (fun a b => F.keyOf a = F.keyOf b) xs ((F.gather xs).map f) := by
  obtain ⟨distinct, used, _⟩ := gather_spec (F := F) xs
  have split := Partition.partition_by_key distinct used
  rw [map_map] at split
  rwa [map_congr_left fun g member => gather_members empty appended member]

section Put

/-- A map kept as a list: of one key the last value written, where the first one stood. -/
def replacing (key : α → κ) : Folding α α κ where
  keyOf := key
  key := key
  start := id
  add := fun g x => if key g = key x then x else g
  key_start := fun _ => rfl
  key_add := by
    intro g x
    split
    next same => exact same.symm
    next => rfl

def put (key : α → κ) (entries : List α) (x : α) : List α := (replacing key).insert entries x

variable {key : α → κ} {entries : List α}

theorem put_nodup (distinct : (entries.map key).Nodup) (x : α) :
    ((put key entries x).map key).Nodup := @insert_nodup _ _ _ (replacing key) _ _ distinct x

theorem mem_put (distinct : (entries.map key).Nodup) (x y : α) :
    y ∈ put key entries x ↔ y = x ∨ (y ∈ entries ∧ key y ≠ key x) := by
  have cases_ : y ∈ put key entries x ↔ (y ∈ entries ∧ key y ≠ key x) ∨
      (∃ z ∈ entries, key z = key x ∧ y = if key z = key x then x else z) ∨
      (∀ z ∈ entries, key z ≠ key x) ∧ y = if key x = key x then x else x :=
    mem_insert (F := replacing key) distinct x y
  rw [cases_]
  constructor
  · rintro (old | ⟨z, _, same, rfl⟩ | ⟨_, rfl⟩)
    · exact .inr old
    · exact .inl (if_pos same)
    · exact .inl (if_pos rfl)
  · rintro (rfl | old)
    · by_cases held : ∃ z ∈ entries, key z = key y
      · obtain ⟨z, member, same⟩ := held
        exact .inr (.inl ⟨z, member, same, (if_pos same).symm⟩)
      · simp only [not_exists, not_and] at held
        exact .inr (.inr ⟨held, (if_pos rfl).symm⟩)
    · exact .inl old

/-- A map written in turn has a key for each value, and holds some of the values. -/
theorem putAll_keys (xs : List α) (k : κ) : k ∈ (xs.foldl (put key) []).map key ↔ ∃ x ∈ xs, key x = k :=
  (gather_spec (F := replacing key) xs).2.1 k

theorem mem_putAll (distinct : (entries.map key).Nodup) {y : α}
    (member : y ∈ xs.foldl (put key) entries) : y ∈ entries ∨ y ∈ xs := by
  induction xs generalizing entries with
  | nil => exact .inl member
  | cons x rest ih =>
    rcases ih (put_nodup distinct x) member with held | later
    · rcases (mem_put distinct x y).mp held with rfl | ⟨old, _⟩
      · exact .inr mem_cons_self
      · exact .inl old
    · exact .inr (mem_cons_of_mem x later)

/-- Values of different keys stay as they are. -/
theorem putAll_distinct (distinct : (xs.map key).Nodup) : xs.foldl (put key) [] = xs := by
  induction xs using reverseRecOn with
  | nil => rfl
  | append_singleton xs x ih =>
    rw [map_append, nodup_append] at distinct
    rw [foldl_append, ih distinct.1]
    have absent : ∀ y ∈ xs, key y ≠ key x := fun y member =>
      distinct.2.2 (key y) (mem_map_of_mem member) (key x) (by simp)
    have appended := insert_absent (F := replacing key) absent
    rw [foldl_cons, foldl_nil, put, appended]
    simp [replacing]

end Put
end KeyedFold
