import Mathlib.Data.List.AList

/- Maps from a key to a list of values, filled by appending: an absent key has the empty list. -/
namespace MultiMap
variable {κ β : Type} [DecidableEq κ]

abbrev Map (κ β : Type) := AList fun _ : κ => List β

def values (m : Map κ β) (k : κ) : List β := (m.lookup k).getD []

def push (m : Map κ β) (k : κ) (v : β) : Map κ β := m.insert k (values m k ++ [v])

@[simp] theorem values_empty (k : κ) : values (∅ : Map κ β) k = [] := by
  simp [values]

theorem values_push (m : Map κ β) (k : κ) (v : β) (k' : κ) :
    values (push m k v) k' = values m k' ++ if k = k' then [v] else [] := by
  unfold push values
  by_cases same : k = k'
  · subst same
    simp [AList.lookup_insert]
  · rw [AList.lookup_insert_ne (Ne.symm same), if_neg same, List.append_nil]

theorem mem_push (m : Map κ β) (k : κ) (v : β) (k' : κ) : k' ∈ push m k v ↔ k' = k ∨ k' ∈ m :=
  AList.mem_insert m

def pushAll (m : Map κ β) (items : List (κ × β)) : Map κ β := items.foldl (fun m i => push m i.1 i.2) m

theorem values_push_all (items : List (κ × β)) (m : Map κ β) (k : κ) : values (pushAll m items) k =
      values m k ++ (items.filter fun i => decide (i.1 = k)).map Prod.snd := by
  induction items generalizing m with
  | nil => simp [pushAll]
  | cons i rest ih =>
    have later := ih (push m i.1 i.2)
    unfold pushAll at later ⊢
    rw [List.foldl_cons, later, values_push, List.append_assoc]
    by_cases same : i.1 = k
    · simp [same]
    · simp [same]

theorem mem_push_all (items : List (κ × β)) (m : Map κ β) (k : κ) :
    k ∈ pushAll m items ↔ k ∈ m ∨ ∃ i ∈ items, i.1 = k := by
  induction items generalizing m with
  | nil => simp [pushAll]
  | cons i rest ih =>
    have later := ih (push m i.1 i.2)
    unfold pushAll at later ⊢
    rw [List.foldl_cons, later, mem_push, eq_comm, or_assoc, or_left_comm]
    simp only [List.mem_cons, exists_eq_or_imp]

theorem push_all_append (m : Map κ β) (items more : List (κ × β)) :
    pushAll m (items ++ more) = pushAll (pushAll m items) more := List.foldl_append

/-- A map from the key of each element to the element: of equal keys the last one stays. -/
def insertAll (key : β → κ) (m : AList fun _ : κ => β) (items : List β) : AList fun _ : κ => β :=
  items.foldl (fun m x => m.insert (key x) x) m

theorem lookup_insert_all {key : β → κ} {items : List β} (distinct : (items.map key).Nodup)
    (m : AList fun _ : κ => β) (k : κ) (x : β) : (insertAll key m items).lookup k = some x ↔
      (x ∈ items ∧ key x = k) ∨ ((∀ y ∈ items, key y ≠ k) ∧ m.lookup k = some x) := by
  induction items generalizing m with
  | nil => simp [insertAll]
  | cons first rest ih =>
    obtain ⟨fresh, later⟩ := List.nodup_cons.mp distinct
    have step := ih later (m.insert (key first) first)
    unfold insertAll at step ⊢
    rw [List.foldl_cons, step]
    have apart : ∀ y ∈ rest, key y ≠ key first := fun y member same =>
      fresh (same ▸ List.mem_map_of_mem member)
    by_cases own : key first = k
    · subst own
      rw [AList.lookup_insert]
      grind
    · rw [AList.lookup_insert_ne (Ne.symm own)]
      grind

end MultiMap
