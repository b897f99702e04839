import Radar.Timeline.MemoryStore
import Radar.Timeline.SqliteStore

/- What Cleanup and deleteOldestEvents delete, against the age of the events. -/
namespace Retention
open Timeline TextOrder Rfc3339 Arrange SqliteStore List

/-- The rows left are exactly those that are not older than the cutoff. -/
def DeletesOlder (cut : Time) (t left : Table) : Prop :=
  ∀ r ∈ t.rows, r ∈ left.rows ↔ ¬ r.event.timestamp.ns < cut.ns

/-- So many rows are deleted, and none while an older one is left. -/
def DeletesOldest (n : Nat) (t left : Table) : Prop := left.rows.length = t.rows.length - n ∧
    ∀ r ∈ t.rows, r ∉ left.rows → ∀ s ∈ left.rows, r.event.timestamp.ns ≤ s.event.timestamp.ns

theorem cleanup_exact_iff (zone : Int → Int) (now maxAge : Int) (t : Table) :
    DeletesOlder (cutoff zone now maxAge) t (cleanup zone now maxAge t) ↔
      ∀ r ∈ t.rows, KeepsBefore r.event.timestamp (cutoff zone now maxAge) := by
  apply forall₂_congr
  intro r present
  rw [← keeps_before_iff, cleanup, mem_delete_where, Row.timestamp]
  simp only [present, true_and, beq_eq_false_iff_ne, ne_eq, not_iff_not]

theorem oldest_first_total (x y : Row) : oldestFirst x y ∨ oldestFirst y x := by
  unfold oldestFirst
  rw [← lex_swap x.timestamp, ← cmp_swap x.createdAt]
  cases lexCompare x.timestamp y.timestamp <;> cases cmp x.createdAt y.createdAt <;> simp

theorem oldest_first_iff (x y : Row) : oldestFirst x y ↔ lexCompare x.timestamp y.timestamp ≠ .gt ∧
      (lexCompare x.timestamp y.timestamp = .eq → x.createdAt ≤ y.createdAt) := by
  unfold oldestFirst
  rw [ne_eq, Ordering.then_eq_gt, not_or, not_and, cmp_eq_gt_iff, not_lt]

theorem oldest_first_trans {x y z : Row} (first : oldestFirst x y) (second : oldestFirst y z) :
    oldestFirst x z := by
  rw [oldest_first_iff] at *
  refine ⟨lex_le_trans first.1 second.1, ?_⟩
  intro same
  have alike : x.timestamp = z.timestamp := lex_eq_iff.mp same
  have middle : x.timestamp = y.timestamp := lex_le_antisymm first.1 (alike ▸ second.1)
  exact (first.2 (lex_eq_iff.mpr middle)).trans (second.2 (lex_eq_iff.mpr (middle ▸ alike)))

/-- A row may be taken before an older one unless its text or, of one text, its second of creation
   puts it after that. -/
theorem taken_before_iff (x y : Row) : ¬ oldestFirst y x ↔ lexCompare x.timestamp y.timestamp = .lt ∨
      lexCompare x.timestamp y.timestamp = .eq ∧ x.createdAt < y.createdAt := by
  rw [oldest_first_iff, ← lex_swap x.timestamp]
  cases lexCompare x.timestamp y.timestamp <;> simp

theorem chosen_rows {t left : Table} {front back : List Row} (perm : (front ++ back).Perm t.rows)
    (deleted : left = t.deleteWhere fun r => (front.map Row.id).contains r.id) (r : Row) :
    r ∈ left.rows ↔ r ∈ back := by
  have distinct : ((front ++ back).map Row.id).Nodup := (perm.map Row.id).nodup_iff.mpr t.keyed
  rw [map_append, nodup_append] at distinct
  rw [deleted, mem_delete_where, ← perm.mem_iff, mem_append]
  simp only [contains_eq_mem, decide_eq_false_iff_not]
  constructor
  · rintro ⟨mine | rest, kept⟩
    · exact absurd (mem_map_of_mem mine) kept
    · exact rest
  · intro rest
    refine ⟨Or.inr rest, ?_⟩
    intro mine
    exact distinct.2.2 _ mine _ (mem_map_of_mem rest) rfl

theorem chosen_count {t left : Table} {front back : List Row} (perm : (front ++ back).Perm t.rows)
    (deleted : left = t.deleteWhere fun r => (front.map Row.id).contains r.id) :
    left.rows.length = back.length := by
  have distinct : (front ++ back).Nodup := perm.nodup_iff.mpr (table_nodup t)
  apply List.Perm.length_eq
  rw [perm_ext_iff_of_nodup (table_nodup left) (nodup_append.mp distinct).2.1]
  exact chosen_rows perm deleted

/-- The rows a limit takes off an arrangement, and the ones it leaves. -/
theorem delete_oldest_iff (n : Nat) (t left : Table) : deleteOldestEvents n t left ↔
    ∃ front back, Arranged oldestFirst t.rows (front ++ back) ∧ front.length = min n t.rows.length ∧
      left = t.deleteWhere fun r => (front.map Row.id).contains r.id := by
  have limited : ¬ (n : Int) < 0 := by omega
  constructor
  · rintro ⟨rows, arranged, deleted⟩
    rw [if_neg limited, Int.toNat_natCast] at deleted
    refine ⟨rows.take n, rows.drop n, ?_, ?_, deleted⟩
    · rw [take_append_drop]
      exact arranged
    · rw [length_take, arranged.perm.length_eq]
  · rintro ⟨front, back, arranged, count, deleted⟩
    refine ⟨front ++ back, arranged, ?_⟩
    have total := arranged.perm.length_eq
    rw [length_append] at total
    have taken : (front ++ back).take n = front := by
      by_cases few : n ≤ t.rows.length
      · have exactly : front.length = n := by omega
        rw [← exactly, take_left]
      · have all : back = [] := length_eq_zero_iff.mp (by omega)
        rw [all, append_nil, take_of_length_le (by omega)]
    rw [if_neg limited, Int.toNat_natCast, taken]
    exact deleted

theorem oldest_deleted_iff (t : Table) :
    (∀ (n : Nat) (left : Table), deleteOldestEvents n t left → DeletesOldest n t left) ↔
      ∀ x ∈ t.rows, ∀ y ∈ t.rows, x.event.timestamp.ns < y.event.timestamp.ns → ¬ oldestFirst y x := by
  constructor
  · intro right x present y present' older reversed
    have differ : y ≠ x := fun same => (same ▸ older).ne rfl
    obtain ⟨front, back, arranged, mine, rest⟩ := arrange_cut oldest_first_total
      oldest_first_trans present' present differ reversed
    have total := arranged.perm.length_eq
    rw [length_append] at total
    have exact_ := right front.length _ ((delete_oldest_iff _ _ _).mpr
      ⟨front, back, arranged, by omega, rfl⟩)
    have distinct : (front ++ back).Nodup := arranged.perm.nodup_iff.mpr (table_nodup t)
    have apart := (nodup_append.mp distinct).2.2
    have gone := exact_.2 y present' ((chosen_rows arranged.perm rfl y).not.mpr
      fun stays => apart y mine y stays rfl) x ((chosen_rows arranged.perm rfl x).mpr rest)
    omega
  · intro ordered n left deleted
    obtain ⟨front, back, arranged, count, deleted⟩ := (delete_oldest_iff n t left).mp deleted
    have total := arranged.perm.length_eq
    rw [length_append] at total
    constructor
    · rw [chosen_count arranged.perm deleted]
      omega
    · intro r present gone s stays
      have rest := (chosen_rows arranged.perm deleted s).mp stays
      have mine : r ∈ front := by
        rcases mem_append.mp (arranged.perm.mem_iff.mpr present) with mine | rest'
        · exact mine
        · exact absurd ((chosen_rows arranged.perm deleted r).mpr rest') gone
      by_contra newer
      have before := (pairwise_append.mp arranged.ordered).2.2 r mine s rest
      exact ordered s (arranged.perm.mem_iff.mp (mem_append_right _ rest)) r present
        (by omega) before

/-- Texts keep the order of time for exactly the pairs of times that KeepsOrder describes; Cleanup is
   exact if and only if the rows keep it against the cutoff, and deleteOldestEvents always takes the
   oldest rows if and only if all of them keep it against each other. -/
theorem text_time_order_iff (t u : Time) (zone : Int → Int) (now maxAge : Int) (table : Table) :
    (lexCompare (formatRFC3339Nano t) (formatRFC3339Nano u) = cmp t.ns u.ns ↔ KeepsOrder t u) ∧
    (DeletesOlder (cutoff zone now maxAge) table (cleanup zone now maxAge table) ↔
      ∀ r ∈ table.rows, KeepsBefore r.event.timestamp (cutoff zone now maxAge)) ∧
    ((∀ (n : Nat) (left : Table), deleteOldestEvents n table left → DeletesOldest n table left) ↔
      ∀ x ∈ table.rows, ∀ y ∈ table.rows, x.event.timestamp.ns < y.event.timestamp.ns →
        KeepsOrder x.event.timestamp y.event.timestamp ∨
          SameText x.event.timestamp y.event.timestamp ∧ x.createdAt < y.createdAt) := by
  refine ⟨keeps_order_iff t u, cleanup_exact_iff zone now maxAge table, ?_⟩
  rw [oldest_deleted_iff]
  apply forall₂_congr
  intro x _
  apply forall₂_congr
  intro y _
  apply imp_congr_right
  intro older
  rw [taken_before_iff, ← keeps_order_iff, ← same_text_iff, (cmp_eq_lt_iff _ _).mpr older]
  rfl

/-- Noon of January 1, 2024 in UTC, and half a second later. -/
def noon : Time := ⟨63839707200000000000, 0⟩

def noonAndHalf : Time := ⟨63839707200500000000, 0⟩

def logRow (id : String) (timestamp : Time) : Row where
  event := { MemoryStore.zeroEvent with id := id, timestamp := timestamp }
  createdAt := 0

def noonTable : Table := ⟨[logRow "old" noon, logRow "new" noonAndHalf], by decide⟩

/-- The point of a fraction is before the Z of a whole second: the later text is the smaller one, a
   cleanup at noon deletes the event half a second after it, and the oldest event deleted is the newer
   of the two. -/
theorem fraction_before_whole_second : noon.ns < noonAndHalf.ns ∧
    lexCompare (formatRFC3339Nano noonAndHalf) (formatRFC3339Nano noon) = .lt ∧
    ¬ DeletesOlder (cutoff (fun _ => 0) noon.ns 0) noonTable
      (cleanup (fun _ => 0) noon.ns 0 noonTable) ∧
    ∃ left, deleteOldestEvents 1 noonTable left ∧ ¬ DeletesOldest 1 noonTable left := by
  have reversed : lexCompare (formatRFC3339Nano noonAndHalf) (formatRFC3339Nano noon) = .lt := by
    decide +kernel
  refine ⟨by decide, reversed, ?_, ?_⟩
  · intro right
    have kept := (right (logRow "new" noonAndHalf) (by decide)).mpr (by decide)
    rw [cleanup, mem_delete_where] at kept
    revert kept
    decide +kernel
  · let front := [logRow "new" noonAndHalf]
    let left := noonTable.deleteWhere fun r => (front.map Row.id).contains r.id
    have arranged : Arranged oldestFirst noonTable.rows (front ++ [logRow "old" noon]) := by
      constructor
      · exact List.Perm.swap _ _ []
      · simp only [front, List.singleton_append, List.pairwise_pair, oldest_first_iff,
          Row.timestamp, logRow, reversed]
        decide
    refine ⟨left, (delete_oldest_iff 1 _ _).mpr ⟨front, _, arranged, rfl, rfl⟩, ?_⟩
    intro right
    have older := right.2 (logRow "new" noonAndHalf) (by decide) (by decide)
      (logRow "old" noon) (by decide)
    revert older
    decide

end Retention
