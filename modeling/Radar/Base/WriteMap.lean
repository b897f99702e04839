import Mathlib.Algebra.BigOperators.Group.List.Basic
import Mathlib.Data.List.Induction
import Mathlib.Data.List.Nodup

/- A map as the list of its entries, the entry written last in front. Nothing is said about the order
   in which a reader meets them. -/
namespace WriteMap
open List
variable {κ α : Type} [DecidableEq κ]

def set (m : List (κ × α)) (e : κ × α) : List (κ × α) := e :: m.filter fun d => d.1 ≠ e.1

def setAll (m : List (κ × α)) (entries : List (κ × α)) : List (κ × α) := entries.foldl set m

def Keyed (m : List (κ × α)) : Prop := (m.map Prod.fst).Nodup

variable {m : List (κ × α)} {k : κ}

theorem lookup_filter {keep : κ → Bool} (kept : keep k = true) :
    (m.filter fun d => keep d.1).lookup k = m.lookup k := by
  induction m with
  | nil => rfl
  | cons d rest ih =>
    obtain ⟨name, value⟩ := d
    by_cases here : k = name
    · rw [filter_cons_of_pos (here ▸ kept), lookup_cons, lookup_cons, beq_iff_eq.mpr here]
    · have other : (k == name) = false := beq_false_of_ne here
      cases keeps : keep name with
      | true =>
        rw [filter_cons_of_pos (by simpa using keeps), lookup_cons, lookup_cons, other, ih]
      | false =>
        rw [filter_cons_of_neg (by simp [keeps]), lookup_cons, other, ih]

theorem lookup_set (m : List (κ × α)) (e : κ × α) (k : κ) :
    (set m e).lookup k = if k = e.1 then some e.2 else m.lookup k := by
  obtain ⟨name, value⟩ := e
  rw [set, lookup_cons]
  by_cases here : k = name
  · rw [beq_iff_eq.mpr here, if_pos here]
  · rw [beq_false_of_ne here, if_neg here]
    exact @lookup_filter κ α _ m k (fun other => decide (other ≠ name)) (by simpa using here)

theorem mem_set {e d : κ × α} : d ∈ set m e ↔ d = e ∨ d ∈ m ∧ d.1 ≠ e.1 := by
  simp [set]

theorem set_keyed (keyed : Keyed m) (e : κ × α) : Keyed (set m e) := by
  rw [Keyed, set, map_cons, nodup_cons]
  constructor
  · simp
  · exact (keyed.sublist (List.Sublist.map _ filter_sublist))

theorem lookup_iff (keyed : Keyed m) {value : α} : m.lookup k = some value ↔ (k, value) ∈ m := by
  induction m with
  | nil => simp
  | cons d rest ih =>
    obtain ⟨name, held⟩ := d
    rw [Keyed, map_cons, nodup_cons] at keyed
    rw [lookup_cons, mem_cons]
    by_cases here : k = name
    · rw [beq_iff_eq.mpr here]
      constructor
      · intro same
        exact .inl (Prod.ext here (Option.some.inj same).symm)
      · intro either
        cases either with
        | inl same => exact congrArg some (congrArg Prod.snd same).symm
        | inr later =>
          have listed : k ∈ rest.map Prod.fst := mem_map.mpr ⟨_, later, rfl⟩
          exact absurd (here ▸ listed) keyed.1
    · rw [beq_false_of_ne here]
      constructor
      · exact fun found => .inr ((ih keyed.2).mp found)
      · intro either
        cases either with
        | inl same => exact absurd (congrArg Prod.fst same) here
        | inr later => exact (ih keyed.2).mpr later

/-- The entry of a key is the only one. -/
theorem filter_key (keyed : Keyed m) {value : α} (member : (k, value) ∈ m) :
    (m.filter fun d => d.1 = k) = [(k, value)] := by
  induction m with
  | nil => cases member
  | cons d rest ih =>
    rw [Keyed, map_cons, nodup_cons] at keyed
    cases mem_cons.mp member with
    | inl here =>
      subst here
      have none : (rest.filter fun d => decide (d.1 = k)) = [] := by
        rw [filter_eq_nil_iff]
        intro e later same
        have equal : e.1 = k := of_decide_eq_true same
        have listed : e.1 ∈ rest.map Prod.fst := mem_map_of_mem later
        exact keyed.1 (equal ▸ listed)
      rw [filter_cons_of_pos (by simp), none]
    | inr later =>
      have listed : k ∈ rest.map Prod.fst := mem_map.mpr ⟨_, later, rfl⟩
      have other : d.1 ≠ k := fun same => keyed.1 (same ▸ listed)
      rw [filter_cons_of_neg (by simp [other]), ih keyed.2 later]

/-- What many writes leave: what they make of an empty map, and the entries they do not touch. -/
theorem setAll_split (m entries : List (κ × α)) :
    setAll m entries = setAll [] entries ++ m.filter fun d => d.1 ∉ entries.map Prod.fst := by
  induction entries using reverseRecOn with
  | nil => simp [setAll]
  | append_singleton entries e ih =>
    have step : ∀ m : List (κ × α), setAll m (entries ++ [e]) = set (setAll m entries) e := by
      intro m
      simp [setAll, foldl_append]
    have both : ((m.filter fun d => d.1 ∉ entries.map Prod.fst).filter fun d => d.1 ≠ e.1) =
        m.filter fun d => d.1 ∉ (entries ++ [e]).map Prod.fst := by
      rw [filter_filter]
      apply filter_congr
      intro d _
      by_cases here : d.1 = e.1 <;> simp [here]
    rw [step, step, ih, set, set, filter_append, both, cons_append]

/-- Two maps that hold the same under every key have the same entries. -/
theorem perm_of_lookups {n : List (κ × α)} (keyed : Keyed m) (keyed' : Keyed n) (same : ∀ k, m.lookup k = n.lookup k) :
    m.Perm n := by
  apply (perm_ext_iff_of_nodup (List.Nodup.of_map Prod.fst keyed) (List.Nodup.of_map Prod.fst keyed')).mpr
  intro e
  rw [← lookup_iff keyed, ← lookup_iff keyed', same]

section Updates
variable {β : Type} {step : List (κ × α) → β → List (κ × α)} {key : β → κ} {value : Option α → β → α}

/-- One write for each of some keys: every key has what its write makes of what it held. -/
theorem lookup_updates (writes : ∀ m b, step m b = set m (key b, value (m.lookup (key b)) b)) (bs : List β)
    (distinct : (bs.map key).Nodup) (m : List (κ × α)) (k : κ) : (bs.foldl step m).lookup k =
      ((bs.find? fun b => key b = k).map fun b => value (m.lookup k) b).or (m.lookup k) := by
  induction bs generalizing m with
  | nil => rfl
  | cons b rest ih =>
    rw [map_cons, nodup_cons] at distinct
    rw [foldl_cons, ih distinct.2, writes, lookup_set]
    by_cases here : key b = k
    · have fresh : (rest.find? fun b => key b = k) = none := by
        rw [find?_eq_none]
        intro d later same
        exact distinct.1 (mem_map.mpr ⟨d, later, (of_decide_eq_true same).trans here.symm⟩)
      rw [fresh, if_pos here.symm, find?_cons_of_pos (by simpa using here), here]
      rfl
    · rw [if_neg (Ne.symm here), find?_cons_of_neg (by simpa using here)]

theorem updates_keyed (writes : ∀ m b, step m b = set m (key b, value (m.lookup (key b)) b)) (bs : List β)
    {m : List (κ × α)} (keyed : Keyed m) : Keyed (bs.foldl step m) := by
  induction bs generalizing m with
  | nil => exact keyed
  | cons b rest ih => exact ih (writes m b ▸ set_keyed keyed _)

theorem lookup_map (bs : List β) (row : β → α) (k : κ) :
    (bs.map fun b => (key b, row b)).lookup k = (bs.find? fun b => key b = k).map row := by
  induction bs with
  | nil => rfl
  | cons b rest ih =>
    rw [map_cons, lookup_cons]
    by_cases here : key b = k
    · rw [beq_iff_eq.mpr here.symm, find?_cons_of_pos (by simpa using here)]
      rfl
    · rw [beq_false_of_ne (Ne.symm here), find?_cons_of_neg (by simpa using here), ih]

end Updates

section Amounts
variable [AddCommMonoid α] {entries more : List (κ × α)}

def amount (m : List (κ × α)) (k : κ) : α := (m.lookup k).getD 0

/-- An amount more under a key, which may be a new one. -/
def add (m : List (κ × α)) (e : κ × α) : List (κ × α) := set m (e.1, amount m e.1 + e.2)

def addAll (m : List (κ × α)) (entries : List (κ × α)) : List (κ × α) := entries.foldl add m

/-- What the entries of a key add up to. -/
def total (entries : List (κ × α)) (k : κ) : α := ((entries.filter fun e => e.1 = k).map Prod.snd).sum

@[simp] theorem amount_nil (k : κ) : amount ([] : List (κ × α)) k = 0 := rfl

theorem amount_add (m : List (κ × α)) (e : κ × α) (k : κ) :
    amount (add m e) k = amount m k + if k = e.1 then e.2 else 0 := by
  rw [amount, add, lookup_set]
  by_cases here : k = e.1
  · rw [if_pos here, if_pos here, here]
    rfl
  · rw [if_neg here, if_neg here, add_zero]
    rfl

theorem total_cons (e : κ × α) (entries : List (κ × α)) (k : κ) :
    total (e :: entries) k = (if k = e.1 then e.2 else 0) + total entries k := by
  by_cases here : k = e.1
  · simp [total, here]
  · simp [total, Ne.symm here, here]

theorem total_append (entries more : List (κ × α)) (k : κ) :
    total (entries ++ more) k = total entries k + total more k := by
  simp [total]

theorem total_perm (perm : entries.Perm more) (k : κ) : total entries k = total more k :=
  ((perm.filter _).map Prod.snd).sum_eq

theorem amount_addAll (m entries : List (κ × α)) (k : κ) :
    amount (addAll m entries) k = amount m k + total entries k := by
  induction entries generalizing m with
  | nil => simp [addAll, total]
  | cons e rest ih =>
    have later := ih (add m e)
    unfold addAll at later ⊢
    rw [foldl_cons, later, amount_add, total_cons, add_assoc]

theorem addAll_append (m entries more : List (κ × α)) :
    addAll m (entries ++ more) = addAll (addAll m entries) more := foldl_append

/-- The keys of a map that only grew: its own, and those of what was added. -/
theorem known_addAll (m entries : List (κ × α)) (k : κ) :
    ((addAll m entries).lookup k).isSome ↔ (m.lookup k).isSome ∨ ∃ e ∈ entries, e.1 = k := by
  induction entries generalizing m with
  | nil => simp [addAll]
  | cons e rest ih =>
    have later := ih (add m e)
    unfold addAll at later ⊢
    rw [foldl_cons, later, add, lookup_set, exists_mem_cons_iff]
    by_cases here : k = e.1
    · simp [here]
    · rw [if_neg here]
      simp [Ne.symm here]

theorem addAll_keyed (m : List (κ × α)) (entries : List (κ × α)) (keyed : Keyed m) :
    Keyed (addAll m entries) := by
  induction entries generalizing m with
  | nil => exact keyed
  | cons e rest ih => exact ih _ (set_keyed keyed _)

/-- The amount of a key and what stands under the others. -/
theorem sum_without (keyed : Keyed m) (k : κ) :
    amount m k + ((m.filter fun d => d.1 ≠ k).map Prod.snd).sum = (m.map Prod.snd).sum := by
  induction m with
  | nil => simp
  | cons d rest ih =>
    obtain ⟨fresh, keyed'⟩ := nodup_cons.mp keyed
    rw [map_cons, sum_cons, ← ih keyed', amount, amount, lookup_cons]
    by_cases here : k = d.1
    · subst here
      have none_ : rest.lookup d.1 = none := lookup_eq_none_iff.mpr fun e member => by
        simpa using fun same : d.1 = e.1 => fresh (same ▸ mem_map_of_mem member)
      simp [none_]
    · simp [beq_false_of_ne here, Ne.symm here, add_left_comm]

/-- What is added under any keys is added to the sum. -/
theorem sum_addAll (keyed : Keyed m) (entries : List (κ × α)) :
    ((addAll m entries).map Prod.snd).sum = (m.map Prod.snd).sum + (entries.map Prod.snd).sum := by
  induction entries generalizing m with
  | nil => simp [addAll]
  | cons e rest ih =>
    rw [addAll, foldl_cons, map_cons, sum_cons, ← sum_without keyed e.1]
    exact (ih (set_keyed keyed _)).trans (by simp only [set, map_cons, sum_cons]; ac_rfl)

/-- What adding to an empty map leaves: every key with its total. -/
theorem lookup_addAll (entries : List (κ × α)) (k : κ) :
    (addAll [] entries).lookup k = if k ∈ entries.map Prod.fst then some (total entries k) else none := by
  have known := known_addAll ([] : List (κ × α)) entries k
  have counted := amount_addAll ([] : List (κ × α)) entries k
  rw [amount_nil, zero_add, amount] at counted
  simp only [lookup_nil, Option.isSome_none, Bool.false_eq_true, false_or] at known
  split
  · rename_i listed
    obtain ⟨value, found⟩ := Option.isSome_iff_exists.mp (known.mpr (mem_map.mp listed))
    rw [found] at counted ⊢
    exact congrArg some counted
  · rename_i missing
    rw [← Option.not_isSome_iff_eq_none, known]
    exact fun held => missing (mem_map.mpr held)

theorem mem_addAll {entries : List (κ × α)} {e : κ × α} :
    e ∈ addAll [] entries ↔ e.1 ∈ entries.map Prod.fst ∧ e.2 = total entries e.1 := by
  rw [← lookup_iff (addAll_keyed [] entries nodup_nil), lookup_addAll]
  split
  · rename_i listed
    rw [Option.some.injEq, eq_comm, and_iff_right listed]
  · rename_i missing
    exact ⟨fun held => (by cases held), fun held => absurd held.1 missing⟩

theorem total_mem {entries : List (κ × α)} {k : κ} (listed : k ∈ entries.map Prod.fst) :
    (k, total entries k) ∈ addAll [] entries := mem_addAll.mpr ⟨listed, rfl⟩

/-- In whichever order the entries are added, the map has the same ones. -/
theorem addAll_perm (perm : entries.Perm more) : (addAll [] entries).Perm (addAll [] more) := by
  have distinct : ∀ es : List (κ × α), (addAll [] es).Nodup := fun es =>
    List.Nodup.of_map Prod.fst (addAll_keyed [] es nodup_nil)
  refine (perm_ext_iff_of_nodup (distinct entries) (distinct more)).mpr fun e => ?_
  rw [mem_addAll, mem_addAll, total_perm perm, (perm.map Prod.fst).mem_iff]

end Amounts

end WriteMap
