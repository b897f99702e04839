import Mathlib.Data.List.GetD
import Radar.Base.TextOrder
import Radar.K8s.QuantityParsers

/- packages/k8s-ui/src/utils/applications.ts: which of two versions is the newer one. A number that is
   never negative is a rational or, beyond the doubles, infinity. -/
namespace VersionOrder
open GoText Binary64 TextOrder List
variable {a b : Option String} {m n : Nat} {s t : List Char} {x y : List Nat} {s : List Char}

section Numbers

abbrev Double := WithTop ℚ

def toDouble (y : ℚ) : Double := if nearestMagnitude y < 2 ^ 1024 then (nearestMagnitude y : ℚ) else ⊤

def add : Double → Double → Double
  | (x : ℚ), (y : ℚ) => toDouble (x + y)
  | _, _ => ⊤

def scale (x : Double) (factor : Nat) : Double := match x with
  | (y : ℚ) => toDouble (y * factor)
  | ⊤ => ⊤

/-- The value of decimal digits, exactly. -/
def whole (digits : List Char) : Nat := (decimalValue digits).getD 0

/-- Number(digits), and parseInt(digits, 10). -/
def number (digits : List Char) : Double := toDouble (whole digits)

end Numbers

section Model

/-- The components of a version, digits each, where it has the form of one. -/
def components (v : List Char) : Option (List (List Char)) := let t := QuantityParsers.trim v
  let t := if t.head? = some 'v' ∨ t.head? = some 'V' then t.tail else t
  let parts := t.splitOn '.'
  if parts.all fun part => !part.isEmpty && part.all Char.isDigit then some parts else none

def parseVersion (v : Option String) : Option (List Double) := match v with
  | none => none
  | some v => if v = "" then none else (components v.toList).map fun parts => parts.map number

structure DateTag where
  prefix_ : List Char
  y : List Char
  mo : List Char
  d : List Char
  seq : Option (List Char)
  deriving DecidableEq

def takeOne (marks : List Char) : List Char → Option (List Char)
  | [] => none
  | c :: rest => if c ∈ marks then some rest else none

def takeDigits (n : Nat) (s : List Char) : Option (List Char × List Char) :=
  if (s.take n).length = n ∧ (s.take n).all Char.isDigit then some (s.take n, s.drop n) else none

/-- [-_](\d{4})[-_.](\d{2})[-_.](\d{2})(?:[-_.](\d+))?$ -/
def tagTail (prefix_ s : List Char) : Option DateTag := do
  let s ← takeOne ['-', '_'] s
  let (y, s) ← takeDigits 4 s
  let s ← takeOne ['-', '_', '.'] s
  let (mo, s) ← takeDigits 2 s
  let s ← takeOne ['-', '_', '.'] s
  let (d, s) ← takeDigits 2 s
  if s = [] then some ⟨prefix_, y, mo, d, none⟩
  else
    let seq ← takeOne ['-', '_', '.'] s
    if seq ≠ [] ∧ seq.all Char.isDigit then some ⟨prefix_, y, mo, d, some seq⟩ else none

/-- The shortest beginning of one line that a date ends. -/
def dateTagFrom (front : List Char) : List Char → Option DateTag
  | [] => none
  | c :: rest =>
    match tagTail front (c :: rest) with
    | some tag => some tag
    | none =>
      if c ∈ ['\n', '\r', '\u2028', '\u2029'] then none else dateTagFrom (front ++ [c]) rest

def DateTag.ord (tag : DateTag) : Double :=
  add (add (add (scale (number tag.y) 100000000) (scale (number tag.mo) 1000000))
    (scale (number tag.d) 10000)) (number (tag.seq.getD ['0']))

def parseDateTag (v : String) : Option DateTag := dateTagFrom [] v.toList

/-- The loop over the components: the first two that differ decide. -/
def compareParts (pa pb : List Double) : Int :=
  match (List.range (max pa.length pb.length)).find? fun i => pa.getD i 0 ≠ pb.getD i 0 with
  | some i => if pa.getD i 0 < pb.getD i 0 then -1 else 1
  | none => 0

def compareOrds (a b : Double) : Int := if a = b then 0 else if a < b then -1 else 1

/-- undefined and the empty text are neither. -/
def tagOf (v : Option String) : Option DateTag := v.bind fun v => if v = "" then none else parseDateTag v

def compareVersions (a b : Option String) : Option Int := match tagOf a, tagOf b with
  | some da, some db => if da.prefix_ ≠ db.prefix_ then none else some (compareOrds da.ord db.ord)
  | some _, none => none
  | none, some _ => none
  | none, none =>
    match parseVersion a, parseVersion b with
    | some pa, some pb => some (compareParts pa pb)
    | _, _ => none

end Model

section Claims

/-- The components of a version as they are written. -/
def numericComponents (v : Option String) : Option (List Nat) := match v with
  | none => none
  | some v => if v = "" then none else (components v.toList).map fun parts => parts.map whole

def DateTag.sequence (tag : DateTag) : Nat := (tag.seq.map whole).getD 0

/-- Year, month, day and sequence. -/
def DateTag.fields (tag : DateTag) : List Nat := [whole tag.y, whole tag.mo, whole tag.d, tag.sequence]

def sign : Ordering → Int
  | .lt => -1
  | .eq => 0
  | .gt => 1

/-- So many components, a missing one being zero. -/
def padded {α : Type} [Zero α] (n : Nat) (p : List α) : List α := (List.range n).map fun i => p.getD i 0

def lexicographic (x y : List Nat) : Int :=
  sign (lexCompare (padded (max x.length y.length) x) (padded (max x.length y.length) y))

/-- What is asked of the order at two versions. -/
structure Ordered (a b : Option String) : Prop where
  swapped : compareVersions b a = (compareVersions a b).map fun r => -r
  chained : ∀ c r s, compareVersions a b = some r → compareVersions b c = some s → r ≤ 0 → s ≤ 0 →
    compareVersions a c = some (min r s)
  numeric : ∀ x y, numericComponents a = some x → numericComponents b = some y →
    compareVersions a b = some (lexicographic x y)
  dated : ∀ s t, tagOf a = some s → tagOf b = some t → s.prefix_ = t.prefix_ →
    compareVersions a b = some (sign (lexCompare s.fields t.fields))

def doubles (x : List Nat) : List Double := x.map fun n : Nat => toDouble (n : ℚ)

/-- The first two components that are apart. -/
def firstApart (apart : Nat → Nat → Bool) (x y : List Nat) : Option (Nat × Nat) :=
  ((List.range (max x.length y.length)).map fun i => (x.getD i 0, y.getD i 0)).find? fun p => apart p.1 p.2

/-- Some components are apart as doubles, and the first of them are ordered as the first that differ. -/
def DoublesTell (x y : List Nat) : Prop := ∀ m n, firstApart (fun m n => m ≠ n) x y = some (m, n) →
    ∃ m' n', firstApart (fun m n => toDouble m ≠ toDouble n) x y = some (m', n') ∧ (m < n ↔ m' < n')

/-- The number a day is, with four digits left for the sequence. -/
def DateTag.day (tag : DateTag) : Nat :=
  whole tag.y * 100000000 + whole tag.mo * 1000000 + whole tag.d * 10000

/-- A day with a sequence added, in doubles. -/
def stamp (day sequence : Nat) : Double := add (day : ℚ) (toDouble sequence)

/-- Sequences of one day stay apart as doubles, and those of an earlier day below those of a later. -/
structure StampsTell (s t : DateTag) : Prop where
  sameDay : s.day = t.day → s.sequence ≠ t.sequence → stamp s.day s.sequence ≠ stamp t.day t.sequence
  before : s.day < t.day → stamp s.day s.sequence < stamp t.day t.sequence
  after : t.day < s.day → stamp t.day t.sequence < stamp s.day s.sequence

end Claims

section Doubles

theorem toDouble_mono {x y : ℚ} (nonneg : 0 ≤ x) (le : x ≤ y) : toDouble x ≤ toDouble y := by
  have rounded := nearestMagnitude_mono nonneg le
  unfold toDouble
  split
  · split
    · exact WithTop.coe_le_coe.mpr rounded
    · exact le_top
  · rename_i beyond
    rw [if_neg fun small => beyond (lt_of_le_of_lt rounded small)]

theorem toDouble_small (small : n < 2 ^ 53) : toDouble n = (n : ℚ) := by
  have exact_ := nearestMagnitude_natCast small
  rw [toDouble, exact_, if_pos]
  calc (n : ℚ) < 2 ^ 53 := by exact_mod_cast small
    _ < 2 ^ 1024 := pow_lt_pow_right₀ (by norm_num) (by norm_num)

theorem toDouble_zero : toDouble ((0 : Nat) : ℚ) = 0 := toDouble_small (by norm_num)

theorem lt_of_toDouble (apart : toDouble m ≠ toDouble n) : toDouble m < toDouble n ↔ m < n := by
  constructor
  · intro less
    by_contra more
    exact absurd (toDouble_mono (Nat.cast_nonneg n) (by exact_mod_cast not_lt.mp more)) (not_le.mpr less)
  · intro less
    exact lt_of_le_of_ne (toDouble_mono (Nat.cast_nonneg m) (by exact_mod_cast less.le)) apart

end Doubles

section Loop
variable {α : Type} [LinearOrder α]

theorem lex_map (l : List Nat) (f g : Nat → α) : lexCompare (l.map f) (l.map g) =
      match l.find? fun i => f i ≠ g i with
      | some i => cmp (f i) (g i)
      | none => .eq := by
  induction l with
  | nil => rfl
  | cons i rest ih =>
    rw [map_cons, map_cons, lex_cons, ih]
    by_cases same : f i = g i
    · rw [find?_cons_of_neg (by simpa using same), same, cmp_self_eq_eq, Ordering.eq_then]
    · rw [find?_cons_of_pos (by simpa using same)]
      change (cmp (f i) (g i)).then _ = cmp (f i) (g i)
      cases order : cmp (f i) (g i) with
      | lt => rw [Ordering.lt_then]
      | gt => rw [Ordering.gt_then]
      | eq => exact absurd ((cmp_eq_eq_iff _ _).mp order) same

theorem find_longer {p q : List α} [Zero α] (long : max p.length q.length ≤ n) :
    ((range n).find? fun i => p.getD i 0 ≠ q.getD i 0) =
      (range (max p.length q.length)).find? fun i => p.getD i 0 ≠ q.getD i 0 := by
  induction long with
  | refl => rfl
  | step more ih =>
    rename_i k
    have late : p.getD k 0 = q.getD k 0 := by
      rw [getD_eq_default _ _ ((le_max_left _ _).trans more),
        getD_eq_default _ _ ((le_max_right _ _).trans more)]
    rw [range_succ, find?_append, ih, find?_cons_of_neg (by simpa using late),
      find?_nil, Option.or_none]

theorem lex_padded {p q : List α} [Zero α] (long : max p.length q.length ≤ n) :
    lexCompare (padded n p) (padded n q) =
      lexCompare (padded (max p.length q.length) p) (padded (max p.length q.length) q) := by
  unfold padded
  rw [lex_map, lex_map, find_longer long]

theorem sign_cmp (x y : α) : sign (cmp x y) = if x = y then 0 else if x < y then -1 else 1 := by
  by_cases same : x = y
  · rw [if_pos same, (cmp_eq_eq_iff x y).mpr same]
    rfl
  · rw [if_neg same]
    by_cases less : x < y
    · rw [if_pos less, (cmp_eq_lt_iff x y).mpr less]
      rfl
    · rw [if_neg less, (cmp_eq_gt_iff x y).mpr (lt_of_le_of_ne (not_lt.mp less) (Ne.symm same))]
      rfl

theorem compareOrds_eq (a b : Double) : compareOrds a b = sign (cmp a b) := (sign_cmp a b).symm

theorem compareParts_eq {pa pb : List Double} (long : max pa.length pb.length ≤ n) :
    compareParts pa pb = sign (lexCompare (padded n pa) (padded n pb)) := by
  rw [lex_padded long, padded, padded, lex_map, compareParts]
  cases found : (range (max pa.length pb.length)).find? fun i => pa.getD i 0 ≠ pb.getD i 0 with
  | none => rfl
  | some i =>
    have apart : pa.getD i 0 ≠ pb.getD i 0 := by simpa using find?_some found
    exact ((sign_cmp _ _).trans (if_neg apart)).symm

end Loop

section Order

theorem sign_swap (o : Ordering) : sign o.swap = -sign o := by cases o <;> rfl

theorem sign_nonpos {o : Ordering} : sign o ≤ 0 ↔ o ≠ .gt := by cases o <;> decide

theorem lex_chain {α : Type} [LinearOrder α] {p q r : List α} (first : lexCompare p q ≠ .gt)
    (second : lexCompare q r ≠ .gt) :
    sign (lexCompare p r) = min (sign (lexCompare p q)) (sign (lexCompare q r)) := by
  have le := lex_le_trans first second
  cases before : lexCompare p q with
  | gt => exact absurd before first
  | eq =>
    rw [lex_eq_iff.mp before]
    exact (min_eq_right (sign_nonpos.mpr second)).symm
  | lt =>
    cases after : lexCompare q r with
    | gt => exact absurd after second
    | eq =>
      rw [← lex_eq_iff.mp after, before]
      rfl
    | lt =>
      cases whole_ : lexCompare p r with
      | lt => rfl
      | gt => exact absurd whole_ le
      | eq =>
        have same := lex_eq_iff.mp whole_
        rw [← same, ← lex_swap, before] at after
        cases after

theorem cmp_chain {x y z : Double} (first : cmp x y ≠ .gt) (second : cmp y z ≠ .gt) :
    sign (cmp x z) = min (sign (cmp x y)) (sign (cmp y z)) := by
  have single : ∀ a b : Double, cmp a b = lexCompare [a] [b] := by
    intro a b
    rw [lex_cons]
    cases cmp a b <;> rfl
  rw [single] at first second
  rw [single, single x y, single y z]
  exact lex_chain first second

/-- What a version is compared by. -/
inductive Key where
  | dated (prefix_ : List Char) (ord : Double)
  | parts (p : List Double)
  | none

def keyOf (v : Option String) : Key := match tagOf v with
  | some tag => .dated tag.prefix_ tag.ord
  | none =>
    match parseVersion v with
    | some p => .parts p
    | none => .none

def compareKeys : Key → Key → Option Int
  | .dated p x, .dated q y => if p ≠ q then none else some (sign (cmp x y))
  | .parts p, .parts q =>
    some (sign (lexCompare (padded (max p.length q.length) p) (padded (max p.length q.length) q)))
  | _, _ => none

theorem compare_keys (a b : Option String) : compareVersions a b = compareKeys (keyOf a) (keyOf b) := by
  unfold compareVersions keyOf
  cases tagOf a with
  | some s =>
    cases tagOf b with
    | some t =>
      rw [compareKeys, ← compareOrds_eq]
    | none => cases parseVersion b <;> rfl
  | none =>
    cases tagOf b with
    | some t => cases parseVersion a <;> rfl
    | none =>
      cases parseVersion a with
      | none => cases parseVersion b <;> rfl
      | some p =>
        cases parseVersion b with
        | none => rfl
        | some q =>
          simp only [compareKeys, compareParts_eq (le_refl _)]

theorem keys_swap (k l : Key) : compareKeys l k = (compareKeys k l).map fun r => -r := by
  cases k with
  | none => cases l <;> rfl
  | dated p x =>
    cases l with
    | dated q y =>
      by_cases same : p = q
      · rw [compareKeys, compareKeys, if_neg (not_not.mpr same.symm), if_neg (not_not.mpr same),
          Option.map_some, ← cmp_swap x y, sign_swap]
      · rw [compareKeys, compareKeys, if_pos (Ne.symm same), if_pos same]
        rfl
    | _ => rfl
  | parts p =>
    cases l with
    | parts q =>
      simp only [compareKeys, Option.map_some, ← sign_swap, lex_swap, max_comm]
    | _ => rfl

theorem dated_keys {p q : List Char} {x y : Double} {r : Int} :
    compareKeys (.dated p x) (.dated q y) = some r ↔ p = q ∧ sign (cmp x y) = r := by
  rw [compareKeys]
  by_cases same : p = q
  · rw [if_neg (not_not.mpr same), Option.some.injEq, and_iff_right same]
  · rw [if_pos same]
    exact ⟨fun impossible => (by cases impossible), fun both => absurd both.1 same⟩

theorem keys_chain {j k l : Key} {r s : Int} (first : compareKeys j k = some r)
    (second : compareKeys k l = some s) (le : r ≤ 0) (le' : s ≤ 0) :
    compareKeys j l = some (min r s) := by
  cases j with
  | none => cases first
  | dated p x =>
    cases k with
    | dated q y =>
      cases l with
      | dated w z =>
        rw [dated_keys] at first second ⊢
        refine ⟨first.1.trans second.1, ?_⟩
        rw [← first.2, sign_nonpos] at le
        rw [← second.2, sign_nonpos] at le'
        rw [← first.2, ← second.2]
        exact cmp_chain le le'
      | _ => cases second
    | _ => cases first
  | parts p =>
    cases k with
    | parts q =>
      cases l with
      | parts w =>
        let n := max p.length (max q.length w.length)
        have long : max p.length q.length ≤ n := by omega
        have long' : max q.length w.length ≤ n := by omega
        have long'' : max p.length w.length ≤ n := by omega
        simp only [compareKeys, Option.some.injEq] at first second ⊢
        rw [← lex_padded long] at first
        rw [← lex_padded long'] at second
        rw [← lex_padded long'', ← first, ← second]
        rw [← first, sign_nonpos] at le
        rw [← second, sign_nonpos] at le'
        exact lex_chain le le'
      | _ => cases second
    | _ => cases first

theorem swapped_sign {r : Int} (first : compareVersions a b = some r) :
    compareVersions b a = some (-r) := by
  rw [compare_keys] at first ⊢
  rw [keys_swap, first, Option.map_some]

theorem newer_trans {a b c : Option String} (first : compareVersions a b = some 1)
    (second : compareVersions b c = some 1) : compareVersions a c = some 1 := by
  have down := swapped_sign first
  have down' := swapped_sign second
  rw [compare_keys] at down down'
  have whole_ := keys_chain down' down (by omega) (by omega)
  rw [← compare_keys] at whole_
  exact swapped_sign whole_

theorem newer_asymm (first : compareVersions a b = some 1) : compareVersions b a ≠ some 1 := by
  rw [swapped_sign first]
  decide

end Order

section Numeric

theorem find_pairs (apart : Nat → Nat → Bool) (x y : List Nat) : firstApart apart x y =
    ((range (max x.length y.length)).find? fun i => apart (x.getD i 0) (y.getD i 0)).map
      fun i => (x.getD i 0, y.getD i 0) := by
  rw [firstApart, find?_map]
  rfl

theorem apart_spec {apart : Nat → Nat → Bool}
    (found : firstApart apart x y = some (m, n)) : apart m n = true := by
  unfold firstApart at found
  simpa using find?_some found

/-- Where nothing differs, nothing is apart as doubles. -/
theorem none_apart (none_ : firstApart (fun m n => m ≠ n) x y = none) :
    firstApart (fun m n => toDouble m ≠ toDouble n) x y = none := by
  rw [firstApart, find?_eq_none] at none_ ⊢
  intro p member differ
  apply none_ p member
  simp only [ne_eq, decide_not, Bool.not_eq_true', decide_eq_false_iff_not] at differ ⊢
  intro same
  exact differ (by rw [same])

theorem lexicographic_eq (x y : List Nat) : lexicographic x y = match firstApart (fun m n => m ≠ n) x y with
    | some p => sign (cmp p.1 p.2)
    | none => 0 := by
  rw [lexicographic, padded, padded, lex_map, find_pairs]
  cases (range (max x.length y.length)).find? fun i => x.getD i 0 ≠ y.getD i 0 with
  | none => rfl
  | some i => rfl

theorem doubles_at (x : List Nat) (i : Nat) : (doubles x).getD i 0 = toDouble (x.getD i 0 : Nat) := by
  rw [← toDouble_zero]
  exact getD_map x 0 fun n : Nat => toDouble (n : ℚ)

theorem doubles_eq (x y : List Nat) : compareParts (doubles x) (doubles y) =
      match firstApart (fun m n => toDouble m ≠ toDouble n) x y with
      | some p => sign (cmp (toDouble p.1) (toDouble p.2))
      | none => 0 := by
  have lengths : max (doubles x).length (doubles y).length = max x.length y.length := by
    rw [doubles, doubles, length_map, length_map]
  have rounded : (fun i => decide ((doubles x).getD i 0 ≠ (doubles y).getD i 0)) = fun i =>
      decide (toDouble ((x.getD i 0 : Nat) : ℚ) ≠ toDouble ((y.getD i 0 : Nat) : ℚ)) := by
    funext i
    rw [doubles_at, doubles_at]
  rw [compareParts_eq (le_refl _), padded, padded, lex_map, find_pairs, lengths, rounded]
  cases (range (max x.length y.length)).find? fun i =>
      toDouble ((x.getD i 0 : Nat) : ℚ) ≠ toDouble ((y.getD i 0 : Nat) : ℚ) with
  | none => rfl
  | some i =>
    change sign (cmp ((doubles x).getD i 0) ((doubles y).getD i 0)) = _
    rw [doubles_at, doubles_at]
    rfl

theorem sign_differ {α β : Type} [LinearOrder α] [LinearOrder β] {m n : α} {m' n' : β} (differ : m ≠ n)
    (differ' : m' ≠ n') : sign (cmp m' n') = sign (cmp m n) ↔ (m < n ↔ m' < n') := by
  rw [sign_cmp, sign_cmp, if_neg differ, if_neg differ']
  by_cases less : m < n <;> by_cases less' : m' < n' <;> simp [less, less']

theorem parts_iff (x y : List Nat) : compareParts (doubles x) (doubles y) = lexicographic x y ↔
      DoublesTell x y := by
  rw [doubles_eq, lexicographic_eq, DoublesTell]
  cases exact_ : firstApart (fun m n => m ≠ n) x y with
  | none =>
    rw [none_apart exact_]
    simp
  | some p =>
    obtain ⟨m, n⟩ := p
    have differ : m ≠ n := by simpa using apart_spec exact_
    cases rounded : firstApart (fun m n => toDouble m ≠ toDouble n) x y with
    | none =>
      have nonzero : sign (cmp m n) ≠ 0 := by
        rw [sign_cmp, if_neg differ]
        split <;> decide
      exact iff_of_false (Ne.symm nonzero) (by simp)
    | some p' =>
      obtain ⟨m', n'⟩ := p'
      have apart : toDouble (m' : ℚ) ≠ toDouble (n' : ℚ) := by simpa using apart_spec rounded
      change sign (cmp (toDouble (m' : ℚ)) (toDouble (n' : ℚ))) = sign (cmp m n) ↔ _
      rw [sign_differ differ apart, lt_of_toDouble apart]
      simp

end Numeric

section Dates
variable {tag : DateTag}

theorem whole_lt (digits : List Char) : whole digits < 10 ^ digits.length := by
  rw [whole, decimalValue]
  split
  · rename_i digital
    exact Quantities.decimal_lt (all_eq_true.mp digital.2)
  · exact Nat.pow_pos (by decide)

theorem takeDigits_length {s digits rest : List Char}
    (taken : takeDigits n s = some (digits, rest)) : digits.length = n := by
  rw [takeDigits] at taken
  split at taken
  · rename_i enough
    cases taken
    exact enough.1
  · cases taken

/-- The fields of a tag have their widths, and a dash or an underscore stands before them. -/
structure Widths (s : List Char) (tag : DateTag) : Prop where
  y : tag.y.length = 4
  mo : tag.mo.length = 2
  d : tag.d.length = 2
  mark : '-' ∈ s ∨ '_' ∈ s

theorem tagTail_widths {front s : List Char} (found : tagTail front s = some tag) : Widths s tag := by
  unfold tagTail at found
  obtain ⟨s₁, mark, found⟩ := Option.bind_eq_some_iff.mp found
  obtain ⟨⟨y, s₂⟩, year, found⟩ := Option.bind_eq_some_iff.mp found
  obtain ⟨s₃, _, found⟩ := Option.bind_eq_some_iff.mp found
  obtain ⟨⟨mo, s₄⟩, month, found⟩ := Option.bind_eq_some_iff.mp found
  obtain ⟨s₅, _, found⟩ := Option.bind_eq_some_iff.mp found
  obtain ⟨⟨d, s₆⟩, day, found⟩ := Option.bind_eq_some_iff.mp found
  have marked : '-' ∈ s ∨ '_' ∈ s := by
    cases s with
    | nil => cases mark
    | cons c rest =>
      rw [takeOne] at mark
      split at mark
      · rename_i one
        simp only [mem_cons, not_mem_nil, or_false] at one
        cases one with
        | inl dash => exact .inl (dash ▸ mem_cons_self)
        | inr low => exact .inr (low ▸ mem_cons_self)
      · cases mark
  have fields : tag.y = y ∧ tag.mo = mo ∧ tag.d = d := by
    simp only at found
    split at found
    · cases found
      exact ⟨rfl, rfl, rfl⟩
    · obtain ⟨seq, _, found⟩ := Option.bind_eq_some_iff.mp found
      split at found
      · cases found
        exact ⟨rfl, rfl, rfl⟩
      · cases found
  obtain ⟨rfl, rfl, rfl⟩ := fields
  exact ⟨takeDigits_length year, takeDigits_length month, takeDigits_length day, marked⟩

theorem dateTag_widths {front s : List Char} (found : dateTagFrom front s = some tag) : Widths s tag := by
  induction s generalizing front with
  | nil => cases found
  | cons c rest ih =>
    rw [dateTagFrom] at found
    split at found
    · rename_i here
      cases found
      exact tagTail_widths here
    · split at found
      · cases found
      · have later := ih found
        exact ⟨later.y, later.mo, later.d, later.mark.imp (mem_cons_of_mem c) (mem_cons_of_mem c)⟩

theorem tagOf_widths {v : Option String} (found : tagOf v = some tag) :
    ∃ s, v = some s ∧ Widths s.toList tag := by
  obtain ⟨s, rfl, parsed⟩ := Option.bind_eq_some_iff.mp found
  split at parsed
  · cases parsed
  · exact ⟨s, rfl, dateTag_widths parsed⟩

theorem number_small {digits : List Char} {w : Nat} (width : digits.length = w) (small : w ≤ 8) :
    number digits = (whole digits : ℚ) := by
  have bound := whole_lt digits
  have widest : (10 : Nat) ^ digits.length ≤ 10 ^ 8 := Nat.pow_le_pow_right (by decide) (by omega)
  exact toDouble_small (by omega)

theorem scale_small (small : m * n < 2 ^ 53) : scale ((m : ℚ) : Double) n = ((m * n : Nat) : ℚ) := by
  have exact_ := toDouble_small small
  push_cast at exact_ ⊢
  exact exact_

theorem add_small (small : m + n < 2 ^ 53) :
    add ((m : ℚ) : Double) ((n : ℚ) : Double) = ((m + n : Nat) : ℚ) := by
  have exact_ := toDouble_small small
  push_cast at exact_ ⊢
  exact exact_

/-- The days are exact; only the sequence may be rounded, and what it is added to. -/
theorem ord_eq (widths : Widths s tag) : tag.ord = stamp tag.day tag.sequence := by
  have y := whole_lt tag.y
  have mo := whole_lt tag.mo
  have d := whole_lt tag.d
  rw [widths.y] at y
  rw [widths.mo] at mo
  rw [widths.d] at d
  have seq : number (tag.seq.getD ['0']) = toDouble (tag.sequence : Nat) := by
    unfold number DateTag.sequence
    cases tag.seq with
    | none => rfl
    | some digits => rfl
  rw [DateTag.ord, seq, number_small widths.y (by decide), number_small widths.mo (by decide),
    number_small widths.d (by decide), scale_small (by omega), scale_small (by omega),
    scale_small (by omega), add_small (by omega), add_small (by omega)]
  rfl

theorem stamp_mono (day : Nat) (le : m ≤ n) : stamp day m ≤ stamp day n := by
  have seqs : toDouble (m : ℚ) ≤ toDouble (n : ℚ) :=
    toDouble_mono (Nat.cast_nonneg m) (by exact_mod_cast le)
  have low : (0 : Double) ≤ toDouble (m : ℚ) := by
    rw [← toDouble_zero]
    exact toDouble_mono (by norm_num) (by exact_mod_cast Nat.zero_le m)
  unfold stamp
  generalize toDouble (m : ℚ) = x at seqs low
  generalize toDouble (n : ℚ) = y at seqs
  cases y using WithTop.recTopCoe with
  | top => exact le_top
  | coe y =>
    cases x using WithTop.recTopCoe with
    | top => exact absurd seqs (by simp)
    | coe x =>
      have nonneg : (0 : ℚ) ≤ x := WithTop.coe_le_coe.mp low
      have day' : (0 : ℚ) ≤ day := Nat.cast_nonneg day
      have le := WithTop.coe_le_coe.mp seqs
      exact toDouble_mono (by linarith) (by linarith)

theorem fields_compare {a b : DateTag} (widths : Widths s a) (widths' : Widths t b) :
    lexCompare a.fields b.fields = (cmp a.day b.day).then (cmp a.sequence b.sequence) := by
  have mo := whole_lt a.mo
  have d := whole_lt a.d
  have mo' := whole_lt b.mo
  have d' := whole_lt b.d
  rw [widths.mo] at mo
  rw [widths.d] at d
  rw [widths'.mo] at mo'
  rw [widths'.d] at d'
  have days : cmp a.day b.day = (cmp (whole a.y) (whole b.y)).then
      ((cmp (whole a.mo) (whole b.mo)).then (cmp (whole a.d) (whole b.d))) := by
    unfold DateTag.day
    have low : (cmp (whole a.mo) (whole b.mo)).then (cmp (whole a.d) (whole b.d)) =
        cmp (whole a.mo * 1000000 + whole a.d * 10000) (whole b.mo * 1000000 + whole b.d * 10000) := by
      apply cmp_then
      · omega
      · omega
      · intro same
        apply cmp_congr <;> omega
    rw [low]
    symm
    apply cmp_then
    · omega
    · omega
    · intro same
      apply cmp_congr <;> omega
  rw [days, DateTag.fields, DateTag.fields, lex_cons, lex_cons, lex_cons, lex_cons, lex_self,
    Ordering.then_assoc, Ordering.then_assoc]
  cases cmp a.sequence b.sequence <;> rfl

theorem stamps_iff {a b : DateTag} (widths : Widths s a) (widths' : Widths t b) :
    compareOrds a.ord b.ord = sign (lexCompare a.fields b.fields) ↔ StampsTell a b := by
  rw [compareOrds_eq, ord_eq widths, ord_eq widths', fields_compare widths widths']
  rcases lt_trichotomy a.day b.day with before | same | after
  · rw [(cmp_eq_lt_iff a.day b.day).mpr before, Ordering.lt_then]
    constructor
    · intro told
      have less : stamp a.day a.sequence < stamp b.day b.sequence := by
        rw [sign_cmp] at told
        by_contra more
        rw [if_neg more] at told
        split at told <;> cases told
      exact ⟨fun equal => absurd equal before.ne, fun _ => less, fun less' => absurd before less'.not_gt⟩
    · intro tell
      rw [(cmp_eq_lt_iff _ _).mpr (tell.before before)]
  · rw [same, cmp_self_eq_eq, Ordering.eq_then]
    have monotone : ∀ m n, stamp b.day m ≠ stamp b.day n → (m < n ↔ stamp b.day m < stamp b.day n) := by
      intro m n apart
      constructor
      · intro less
        exact lt_of_le_of_ne (stamp_mono b.day less.le) apart
      · intro less
        by_contra more
        exact absurd (stamp_mono b.day (not_lt.mp more)) (not_le.mpr less)
    by_cases equal : a.sequence = b.sequence
    · rw [equal, cmp_self_eq_eq, cmp_self_eq_eq]
      refine iff_of_true rfl ⟨fun _ differ => absurd equal differ, fun less => ?_, fun less => ?_⟩
      · exact absurd same less.ne
      · exact absurd same.symm less.ne
    · by_cases level : stamp b.day a.sequence = stamp b.day b.sequence
      · refine iff_of_false (fun told => ?_) fun tell => ?_
        · rw [sign_cmp, sign_cmp, if_pos level, if_neg equal] at told
          split at told <;> cases told
        · apply tell.sameDay same equal
          rw [same]
          exact level
      · rw [sign_differ equal level]
        refine iff_of_true (monotone _ _ level) ⟨fun _ _ => ?_, fun less => ?_, fun less => ?_⟩
        · rw [same]
          exact level
        · exact absurd same less.ne
        · exact absurd same.symm less.ne
  · rw [(cmp_eq_gt_iff a.day b.day).mpr after, Ordering.gt_then]
    constructor
    · intro told
      have more : stamp b.day b.sequence < stamp a.day a.sequence := by
        rw [sign_cmp] at told
        by_contra less
        split at told
        · cases told
        · rename_i differ
          rw [if_pos (lt_of_le_of_ne (not_lt.mp less) differ)] at told
          cases told
      exact ⟨fun equal => absurd equal.symm after.ne, fun less => absurd after less.not_gt, fun _ => more⟩
    · intro tell
      rw [(cmp_eq_gt_iff _ _).mpr (tell.after after)]

end Dates

section Parsing

theorem mem_dropWhile {p : Char → Bool} {c : Char} (member : c ∈ s) (stays : p c = false) :
    c ∈ s.dropWhile p := by
  induction s with
  | nil => cases member
  | cons d rest ih =>
    rw [dropWhile_cons]
    split
    · rename_i dropped
      cases mem_cons.mp member with
      | inl same => rw [same, dropped] at stays; cases stays
      | inr later => exact ih later
    · exact member

theorem mem_trim {c : Char} (member : c ∈ s) (visible : QuantityParsers.isJsSpace c = false) :
    c ∈ QuantityParsers.trim s := by
  have front := mem_dropWhile member visible
  exact mem_reverse.mpr (mem_dropWhile (mem_reverse.mpr front) visible)

/-- All that a version holds beside white space, its letter and its points is digits. -/
theorem components_plain {v : List Char} {parts : List (List Char)} (formed : components v = some parts)
    {c : Char} (member : c ∈ v) (visible : QuantityParsers.isJsSpace c = false)
    (other : c ≠ 'v' ∧ c ≠ 'V' ∧ c ≠ '.') : c.isDigit = true := by
  unfold components at formed
  have trimmed := mem_trim member visible
  have left : c ∈ if (QuantityParsers.trim v).head? = some 'v' ∨ (QuantityParsers.trim v).head? = some 'V' then
      (QuantityParsers.trim v).tail else QuantityParsers.trim v := by
    split
    · rename_i letter
      cases shape : QuantityParsers.trim v with
      | nil => rw [shape] at trimmed; cases trimmed
      | cons d rest =>
        rw [shape] at trimmed letter
        simp only [head?_cons, Option.some.injEq] at letter
        cases mem_cons.mp trimmed with
        | inl same =>
          subst same
          exact absurd letter (not_or.mpr ⟨other.1, other.2.1⟩)
        | inr later => exact later
    · exact trimmed
  simp only at formed
  generalize (if (QuantityParsers.trim v).head? = some 'v' ∨ (QuantityParsers.trim v).head? = some 'V' then
    (QuantityParsers.trim v).tail else QuantityParsers.trim v) = t at formed left
  split at formed
  · rename_i digital
    by_contra strange
    have absent : ∀ part ∈ t.splitOn '.', c ∉ part := by
      intro part listed inside
      have all := all_eq_true.mp digital part listed
      rw [Bool.and_eq_true, all_eq_true] at all
      exact strange (all.2 c inside)
    have joined := join_lacks other.2.2 absent
    rw [join, intercalate_splitOn] at joined
    exact joined left
  · cases formed

theorem numeric_parsed {v : Option String} {x : List Nat} (numeric : numericComponents v = some x) :
    tagOf v = none ∧ parseVersion v = some (doubles x) := by
  cases v with
  | none => cases numeric
  | some s =>
    rw [numericComponents] at numeric
    split at numeric
    · cases numeric
    · rename_i some_
      obtain ⟨parts, formed, rfl⟩ := Option.map_eq_some_iff.mp numeric
      constructor
      · cases found : tagOf (some s) with
        | none => rfl
        | some tag =>
          obtain ⟨_, same, widths⟩ := tagOf_widths found
          cases same
          cases widths.mark with
          | inl dash => exact absurd (components_plain formed dash (by decide) (by decide)) (by decide)
          | inr low => exact absurd (components_plain formed low (by decide) (by decide)) (by decide)
      · rw [parseVersion, if_neg some_, formed, Option.map_some, doubles, map_map]
        rfl

theorem numeric_compare (first : numericComponents a = some x) (second : numericComponents b = some y) :
    compareVersions a b = some (compareParts (doubles x) (doubles y)) := by
  obtain ⟨tag, parsed⟩ := numeric_parsed first
  obtain ⟨tag', parsed'⟩ := numeric_parsed second
  rw [compareVersions, tag, tag', parsed, parsed']

theorem dated_compare {s t : DateTag} (first : tagOf a = some s)
    (second : tagOf b = some t) (same : s.prefix_ = t.prefix_) :
    compareVersions a b = some (compareOrds s.ord t.ord) := by
  rw [compareVersions, first, second]
  exact if_neg (not_not.mpr same)

end Parsing

/-- The order is right exactly where the doubles tell the components and the stamps apart. -/
theorem ordered_iff (a b : Option String) : Ordered a b ↔
    (∀ x y, numericComponents a = some x → numericComponents b = some y → DoublesTell x y) ∧
      ∀ s t, tagOf a = some s → tagOf b = some t → s.prefix_ = t.prefix_ → StampsTell s t := by
  constructor
  · intro ordered
    constructor
    · intro x y first second
      have told := ordered.numeric x y first second
      rw [numeric_compare first second, Option.some.injEq] at told
      exact (parts_iff x y).mp told
    · intro s t first second same
      have told := ordered.dated s t first second same
      obtain ⟨_, _, widths⟩ := tagOf_widths first
      obtain ⟨_, _, widths'⟩ := tagOf_widths second
      rw [dated_compare first second same, Option.some.injEq] at told
      exact (stamps_iff widths widths').mp told
  · rintro ⟨components_, stamps⟩
    constructor
    · rw [compare_keys, compare_keys a b]
      exact keys_swap _ _
    · intro c r s first second le le'
      rw [compare_keys] at first second ⊢
      exact keys_chain first second le le'
    · intro x y first second
      rw [numeric_compare first second]
      exact congrArg some ((parts_iff x y).mpr (components_ x y first second))
    · intro s t first second same
      obtain ⟨_, _, widths⟩ := tagOf_widths first
      obtain ⟨_, _, widths'⟩ := tagOf_widths second
      rw [dated_compare first second same]
      exact congrArg some ((stamps_iff widths widths').mpr (stamps s t first second same))

section Small

theorem stamp_small {day sequence : Nat} (small : day + sequence < 2 ^ 53) :
    stamp day sequence = ((day + sequence : Nat) : ℚ) := by
  rw [stamp, toDouble_small (by omega)]
  exact add_small small

/-- With four digits at most, sequences are told apart and do not reach the next day. -/
theorem short_sequences {a b : DateTag} (widths : Widths s a) (widths' : Widths t b)
    (short : a.sequence < 10000) (short' : b.sequence < 10000) : StampsTell a b := by
  have bound : ∀ {s : List Char} {c : DateTag}, Widths s c → c.day < 2 ^ 52 ∧ c.day % 10000 = 0 := by
    intro s c widths
    have y := whole_lt c.y
    have mo := whole_lt c.mo
    have d := whole_lt c.d
    rw [widths.y] at y
    rw [widths.mo] at mo
    rw [widths.d] at d
    unfold DateTag.day
    omega
  have days := bound widths
  have days' := bound widths'
  have exact_ := @stamp_small a.day a.sequence (by omega)
  have exact' := @stamp_small b.day b.sequence (by omega)
  constructor
  · intro same differ level
    rw [exact_, exact', WithTop.coe_inj, Nat.cast_inj] at level
    omega
  · intro before
    rw [exact_, exact', WithTop.coe_lt_coe, Nat.cast_lt]
    omega
  · intro after
    rw [exact_, exact', WithTop.coe_lt_coe, Nat.cast_lt]
    omega

end Small

section Example

def lateBuild : DateTag := ⟨"main".toList, "2026".toList, "03".toList, "26".toList, some "10000".toList⟩

def nextDay : DateTag := ⟨"main".toList, "2026".toList, "03".toList, "27".toList, none⟩

theorem earlier_build_before : StampsTell { lateBuild with seq := some "9999".toList } nextDay :=
  short_sequences (s := "-".toList) (t := "-".toList) ⟨by decide, by decide, by decide, by decide⟩
    ⟨by decide, by decide, by decide, by decide⟩ (by decide +kernel) (by decide +kernel)

/-- The ten thousandth build of a day counts as the next day's first. -/
theorem late_build_equal :
    compareVersions (some "main_2026-03-26_10000") (some "main_2026-03-27") = some 0 ∧
      ¬ Ordered (some "main_2026-03-26_10000") (some "main_2026-03-27") := by
  have late : tagOf (some "main_2026-03-26_10000") = some lateBuild := by decide +kernel
  have next : tagOf (some "main_2026-03-27") = some nextDay := by decide +kernel
  have ord : lateBuild.ord = nextDay.ord := by
    obtain ⟨_, _, widths⟩ := tagOf_widths late
    obtain ⟨_, _, widths'⟩ := tagOf_widths next
    have days : lateBuild.day = 202603260000 ∧ lateBuild.sequence = 10000 := by decide +kernel
    have days' : nextDay.day = 202603270000 ∧ nextDay.sequence = 0 := by decide +kernel
    rw [ord_eq widths, ord_eq widths', days.1, days.2, days'.1, days'.2, stamp_small (by norm_num),
      stamp_small (by norm_num)]
  have level : compareVersions (some "main_2026-03-26_10000") (some "main_2026-03-27") = some 0 := by
    rw [dated_compare late next rfl, compareOrds, if_pos ord]
  refine ⟨level, fun ordered => ?_⟩
  have told := ordered.dated lateBuild nextDay late next rfl
  rw [level] at told
  exact absurd told (by decide +kernel)

end Example

end VersionOrder
