import Mathlib.Data.List.Basic

/- url.QueryEscape: every byte that is not left alone becomes a plus or a percent escape. -/
namespace QueryEscape
open List

def unreserved (c : Char) : Bool := c.isAlphanum || c ∈ ['-', '_', '.', '~']

def hexDigit (n : Nat) : Char := if n < 10 then Char.ofNat (48 + n) else Char.ofNat (55 + n)

def escapeByte (n : Nat) : List Char := if unreserved (Char.ofNat n) then [Char.ofNat n]
  else if n = 32 then ['+']
  else ['%', hexDigit (n / 16), hexDigit (n % 16)]

def bytes (s : String) : List Nat := s.toByteArray.data.toList.map UInt8.toNat

def queryEscape (s : String) : String := String.ofList ((bytes s).flatMap escapeByte)

section Injective

/-- Inverse of the hexadecimal digits. -/
def hexValue (c : Char) : Nat := if c.toNat < 58 then c.toNat - 48 else c.toNat - 55

/-- The byte at the front of an escaped text, and the text behind it. -/
def firstByte : List Char → Nat × List Char
  | '+' :: rest => (32, rest)
  | '%' :: high :: low :: rest => (hexValue high * 16 + hexValue low, rest)
  | c :: rest => (c.toNat, rest)
  | [] => (0, [])

theorem bytes_bound {s : String} {n : Nat} (member : n ∈ bytes s) : n < 256 := by
  obtain ⟨b, -, rfl⟩ := mem_map.mp member
  exact b.toNat_lt

theorem escape_facts : ∀ n < 256, (unreserved (Char.ofNat n) = true →
      Char.ofNat n ≠ '+' ∧ Char.ofNat n ≠ '%' ∧ (Char.ofNat n).toNat = n) ∧
    hexValue (hexDigit (n / 16)) * 16 + hexValue (hexDigit (n % 16)) = n ∧
    (escapeByte n).all (fun c => c != '/' && c != '>') = true := by
  decide +kernel

theorem first_escaped {n : Nat} (bound : n < 256) (rest : List Char) :
    firstByte (escapeByte n ++ rest) = (n, rest) := by
  obtain ⟨plain, digits, -⟩ := escape_facts n bound
  unfold escapeByte
  split
  next left_alone =>
    obtain ⟨notPlus, notPercent, own⟩ := plain left_alone
    rw [singleton_append, firstByte]
    · rw [own]
    · exact fun same => absurd same notPlus
    · exact fun _ _ _ same _ => absurd same notPercent
  next =>
    split
    next space => rw [singleton_append, firstByte, space]
    next => rw [cons_append, cons_append, singleton_append, firstByte, digits]

theorem escape_nonempty (n : Nat) : escapeByte n ≠ [] := by
  unfold escapeByte
  split
  next => simp
  next => split <;> simp

theorem escaped_bytes_inj {xs ys : List Nat} (bound : ∀ n ∈ xs, n < 256) (bound' : ∀ n ∈ ys, n < 256)
    (same : xs.flatMap escapeByte = ys.flatMap escapeByte) : xs = ys := by
  induction xs generalizing ys with
  | nil =>
    cases ys with
    | nil => rfl
    | cons y ys =>
      have none_ := (append_eq_nil_iff.mp same.symm).1
      exact absurd none_ (escape_nonempty y)
  | cons x xs ih =>
    cases ys with
    | nil =>
      have none_ := (append_eq_nil_iff.mp same).1
      exact absurd none_ (escape_nonempty x)
    | cons y ys =>
      obtain ⟨first, later⟩ := forall_mem_cons.mp bound
      obtain ⟨first', later'⟩ := forall_mem_cons.mp bound'
      have fronts := congrArg firstByte same
      rw [flatMap_cons, flatMap_cons, first_escaped first, first_escaped first'] at fronts
      obtain ⟨heads, tails⟩ := Prod.mk.inj fronts
      rw [heads, ih later later' tails]

theorem escape_inj {s t : String} (same : queryEscape s = queryEscape t) : s = t := by
  have lists : bytes s = bytes t := escaped_bytes_inj (fun _ => bytes_bound) (fun _ => bytes_bound)
    (String.ofList_inj.mp same)
  have arrays : s.toByteArray.data = t.toByteArray.data :=
    Array.toList_inj.mp (map_injective_iff.mpr (fun _ _ => UInt8.toNat_inj.mp) lists)
  exact String.toByteArray_inj.mp (ByteArray.ext arrays)

/-- Neither a slash nor a greater-than sign is left alone. -/
theorem escape_plain (s : String) : '/' ∉ (queryEscape s).toList ∧ '>' ∉ (queryEscape s).toList := by
  have plain : ∀ c ∈ (queryEscape s).toList, c ≠ '/' ∧ c ≠ '>' := by
    intro c member
    rw [queryEscape, String.toList_ofList] at member
    obtain ⟨n, inside, made⟩ := mem_flatMap.mp member
    have letter := all_eq_true.mp (escape_facts n (bytes_bound inside)).2.2 c made
    simpa using letter
  exact ⟨fun member => (plain '/' member).1 rfl, fun member => (plain '>' member).2 rfl⟩

end Injective
end QueryEscape
