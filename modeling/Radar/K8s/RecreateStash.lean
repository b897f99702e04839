import Mathlib.Data.List.AList
import Radar.Base.GoText
import Radar.Base.Runs

/- internal/k8s/recreate_stash.go: the last-seen objects of deleted resources, kept for a while so that
   an add under the same name can be compared with what it replaces. Each operation holds the lock. -/
namespace RecreateStash
open GoText Runs List
variable {Obj : Type}

def recreateJoinTTL : Int := 15 * 60 * 1000000000

def recreateStashCap : Nat := 2048

def recreateStashKinds : List String :=
  ["ConfigMap", "Deployment", "StatefulSet", "DaemonSet", "Service", "Ingress",
    "HorizontalPodAutoscaler", "CronJob", "ResourceQuota", "LimitRange", "Application",
    "Kustomization", "HelmRelease", "GitRepository", "OCIRepository", "HelmRepository",
    "MutatingWebhookConfiguration", "ValidatingWebhookConfiguration"]

def recreateJoinKind (kind : String) : Bool := recreateStashKinds.contains kind

structure RecreateEntry (Obj : Type) where
  obj : Obj
  uid : String
  deletedAt : Int

abbrev Stash (Obj : Type) := AList fun _ : String => RecreateEntry Obj

variable {stash : Stash Obj}

abbrev Item (Obj : Type) := Sigma fun _ : String => RecreateEntry Obj

/-- The order in which a range visits a map, which is any. -/
structure Visiting (α : Type) where
  order : List α → List α
  perm : ∀ xs, (order xs).Perm xs

def recreateKey (kind namespace_ name : String) : String := kind ++ "/" ++ namespace_ ++ "/" ++ name

def expired (now : Int) (item : Item Obj) : Bool := decide (recreateJoinTTL < now - item.2.deletedAt)

def eraseAll (keys : List String) (stash : Stash Obj) : Stash Obj :=
  keys.foldl (fun stash key => stash.erase key) stash

def dropExpired (now : Int) (stash : Stash Obj) : Stash Obj :=
  eraseAll ((stash.entries.filter (expired now)).map Sigma.fst) stash

/-- One turn of the search for the oldest entry; the empty key means that none is held yet. -/
def older (held : String × Int) (item : Item Obj) : String × Int :=
  if held.1 = "" ∨ item.2.deletedAt < held.2 then (item.1, item.2.deletedAt) else held

def oldestKey (visited : List (Item Obj)) : String := (visited.foldl older ("", 0)).1

def target : Nat := recreateStashCap - recreateStashCap / 4

/-- The second loop, `none` where it is still going after so many rounds. -/
def evictOldest (visiting : Visiting (Item Obj)) : Nat → Stash Obj → Option (Stash Obj)
  | rounds, stash =>
    if stash.entries.length ≤ target then some stash
    else match rounds with
    | 0 => none
    | rounds + 1 =>
      evictOldest visiting rounds (stash.erase (oldestKey (visiting.order stash.entries)))

def evictRecreateStashLocked (visiting : Visiting (Item Obj)) (now : Int) (stash : Stash Obj) :
    Option (Stash Obj) :=
  evictOldest visiting stash.entries.length (dropExpired now stash)

/-- The clock is read once for the eviction and once for the entry. -/
def stashDeletedForRecreate (visiting : Visiting (Item Obj)) (evictedAt now : Int)
    (kind namespace_ name uid : String) (obj : Option Obj) (stash : Stash Obj) :
    Option (Stash Obj) :=
  match obj with
  | none => some stash
  | some obj =>
    if ¬ recreateJoinKind kind then some stash
    else
      let roomy := if recreateStashCap ≤ stash.entries.length then
        evictRecreateStashLocked visiting evictedAt stash else some stash
      roomy.map fun stash => stash.insert (recreateKey kind namespace_ name) ⟨obj, uid, now⟩

/-- What is returned, and the stash behind it. -/
def takeRecreateMatch (now : Int) (kind namespace_ name newUID : String) (stash : Stash Obj) :
    Option Obj × Stash Obj :=
  if ¬ recreateJoinKind kind then (none, stash)
  else
    let key := recreateKey kind namespace_ name
    match stash.lookup key with
    | none => (none, stash)
    | some entry =>
      if recreateJoinTTL < now - entry.deletedAt then (none, stash.erase key)
      else if newUID ≠ "" ∧ entry.uid = newUID then (none, stash.erase key)
      else (some entry.obj, stash.erase key)

inductive Op (Obj : Type) where
  | stash (visiting : Visiting (Item Obj)) (evictedAt now : Int) (kind namespace_ name uid : String)
      (obj : Option Obj)
  | take (now : Int) (kind namespace_ name newUID : String)
  | reset

/-- The stash, and what each operation so far has returned. -/
structure State (Obj : Type) where
  stash : Stash Obj
  answers : List (Option Obj)

def initial : State Obj := ⟨∅, []⟩

def step (s : State Obj) : Op Obj → Option (State Obj)
  | .stash visiting evictedAt now kind namespace_ name uid obj =>
    (stashDeletedForRecreate visiting evictedAt now kind namespace_ name uid obj s.stash).map
      fun stash => ⟨stash, s.answers ++ [none]⟩
  | .take now kind namespace_ name newUID =>
    let taken := takeRecreateMatch now kind namespace_ name newUID s.stash
    some ⟨taken.2, s.answers ++ [taken.1]⟩
  | .reset => some ⟨∅, s.answers ++ [none]⟩

/-- Every entry of the first stash is in the second one. -/
def Within (stash whole : Stash Obj) : Prop :=
  ∀ key entry, stash.lookup key = some entry → whole.lookup key = some entry

theorem within_erase (key : String) (stash : Stash Obj) : Within (stash.erase key) stash := by
  intro other entry held
  by_cases same : other = key
  · rw [same, AList.lookup_erase] at held
    exact absurd held (by simp)
  · rwa [AList.lookup_erase_ne same] at held

theorem within_trans {a b c : Stash Obj} (ab : Within a b) (bc : Within b c) : Within a c :=
  fun key entry held => bc key entry (ab key entry held)

theorem within_erase_all (keys : List String) (stash : Stash Obj) : Within (eraseAll keys stash) stash := by
  induction keys generalizing stash with
  | nil => exact fun _ _ held => held
  | cons key rest ih => exact within_trans (ih (stash.erase key)) (within_erase key stash)

theorem length_keys (stash : Stash Obj) : stash.entries.length = stash.keys.length :=
  (length_map _).symm

theorem erase_length_le (key : String) (stash : Stash Obj) :
    (stash.erase key).entries.length ≤ stash.entries.length := by
  rw [length_keys, length_keys, AList.keys_erase]
  exact length_erase_le

theorem erase_length {key : String} (held : key ∈ stash) :
    (stash.erase key).entries.length + 1 = stash.entries.length := by
  rw [length_keys, length_keys, AList.keys_erase]
  have some := length_pos_of_mem (AList.mem_keys.mp held)
  rw [length_erase_of_mem (AList.mem_keys.mp held)]
  omega

theorem erase_all_length (keys : List String) (stash : Stash Obj) :
    (eraseAll keys stash).entries.length ≤ stash.entries.length := by
  induction keys generalizing stash with
  | nil => exact Nat.le_refl _
  | cons key rest ih => exact Nat.le_trans (ih (stash.erase key)) (erase_length_le key stash)

theorem insert_length (key : String) (entry : RecreateEntry Obj) (stash : Stash Obj) :
    (stash.insert key entry).entries.length ≤ stash.entries.length + 1 := by
  rw [length_keys, length_keys, AList.keys_insert, length_cons]
  exact Nat.add_le_add_right length_erase_le 1

theorem older_mem (visited : List (Item Obj)) (held : String × Int) :
    (visited.foldl older held).1 = held.1 ∨ ∃ item ∈ visited, (visited.foldl older held).1 = item.1 := by
  induction visited generalizing held with
  | nil => exact Or.inl rfl
  | cons item rest ih =>
    rw [foldl_cons]
    rcases ih (older held item) with kept | ⟨found, member, same⟩
    · rw [kept, older]
      split
      · exact Or.inr ⟨item, mem_cons_self, rfl⟩
      · exact Or.inl rfl
    · exact Or.inr ⟨found, mem_cons_of_mem item member, same⟩

theorem oldest_mem {visited : List (Item Obj)} (some : visited ≠ []) :
    ∃ item ∈ visited, oldestKey visited = item.1 := by
  cases visited with
  | nil => exact absurd rfl some
  | cons first rest =>
    have start : older ("", 0) first = (first.1, first.2.deletedAt) := if_pos (Or.inl rfl)
    rw [oldestKey, foldl_cons, start]
    rcases older_mem rest (first.1, first.2.deletedAt) with kept | ⟨found, member, same⟩
    · exact ⟨first, mem_cons_self, kept⟩
    · exact ⟨found, mem_cons_of_mem first member, same⟩

/-- Each round takes one entry out, so there are no more rounds than entries. -/
theorem evict_oldest_ends (visiting : Visiting (Item Obj)) {rounds : Nat}
    (enough : stash.entries.length ≤ rounds) :
    ∃ kept, evictOldest visiting rounds stash = some kept ∧ kept.entries.length ≤ target ∧
      Within kept stash := by
  induction rounds generalizing stash with
  | zero =>
    have empty : stash.entries.length ≤ target := by omega
    exact ⟨stash, by rw [evictOldest, if_pos empty], empty, fun _ _ held => held⟩
  | succ rounds ih =>
    rw [evictOldest]
    by_cases roomy : stash.entries.length ≤ target
    · exact ⟨stash, by rw [if_pos roomy], roomy, fun _ _ held => held⟩
    · rw [if_neg roomy]
      have some_ : visiting.order stash.entries ≠ [] := by
        intro none_
        have same := (visiting.perm stash.entries).length_eq
        rw [none_, length_nil] at same
        omega
      obtain ⟨item, visited, oldest⟩ := oldest_mem some_
      have present : item ∈ stash.entries := (visiting.perm stash.entries).mem_iff.mp visited
      have held : oldestKey (visiting.order stash.entries) ∈ stash := by
        rw [oldest, AList.mem_keys]
        exact mem_map_of_mem present
      have less := erase_length held
      obtain ⟨kept, ended, bound, within⟩ :=
        @ih (stash.erase (oldestKey (visiting.order stash.entries))) (by omega)
      exact ⟨kept, ended, bound, within_trans within (within_erase _ stash)⟩

theorem evict_ends (visiting : Visiting (Item Obj)) (now : Int) (stash : Stash Obj) :
    ∃ kept, evictRecreateStashLocked visiting now stash = some kept ∧
      kept.entries.length ≤ target ∧ Within kept stash := by
  have fewer := erase_all_length ((stash.entries.filter (expired now)).map Sigma.fst) stash
  obtain ⟨kept, ended, bound, within⟩ := evict_oldest_ends visiting fewer
  exact ⟨kept, ended, bound, within_trans within (within_erase_all _ stash)⟩

section Spec
variable {kind namespace_ name : String}

theorem stash_skipped (visiting : Visiting (Item Obj)) (evictedAt now : Int)
    (namespace_ name uid : String)
    {obj : Option Obj} (skipped : obj = none ∨ recreateJoinKind kind = false) (stash : Stash Obj) :
    stashDeletedForRecreate visiting evictedAt now kind namespace_ name uid obj stash = some stash := by
  unfold stashDeletedForRecreate
  cases obj with
  | none => rfl
  | some obj =>
    obtain other := skipped.resolve_left (by simp)
    simp [other]

theorem stash_recorded (visiting : Visiting (Item Obj)) (evictedAt now : Int)
    (namespace_ name uid : String) (obj : Obj) (joins : recreateJoinKind kind = true)
    (bounded : stash.entries.length ≤ recreateStashCap) :
    ∃ kept, stashDeletedForRecreate visiting evictedAt now kind namespace_ name uid (some obj) stash =
        some (kept.insert (recreateKey kind namespace_ name) ⟨obj, uid, now⟩) ∧
      Within kept stash ∧
      (kept.insert (recreateKey kind namespace_ name) ⟨obj, uid, now⟩).entries.length ≤
        recreateStashCap := by
  have room : target < recreateStashCap := by decide
  simp only [stashDeletedForRecreate, joins, not_true_eq_false, if_false]
  by_cases full : recreateStashCap ≤ stash.entries.length
  · obtain ⟨kept, ended, bound, within⟩ := evict_ends visiting evictedAt stash
    have grown := insert_length (recreateKey kind namespace_ name) ⟨obj, uid, now⟩ kept
    exact ⟨kept, by rw [if_pos full, ended, Option.map_some], within, by omega⟩
  · have grown := insert_length (recreateKey kind namespace_ name) ⟨obj, uid, now⟩ stash
    exact ⟨stash, by rw [if_neg full, Option.map_some], fun _ _ held => held, by omega⟩

theorem take_skipped (now : Int) (newUID : String) (other : recreateJoinKind kind = false)
    (stash : Stash Obj) :
    takeRecreateMatch now kind namespace_ name newUID stash = (none, stash) := by
  simp [takeRecreateMatch, other]

/-- Whatever the answer, there is no entry of that key afterwards. -/
theorem take_consumes (now : Int) (namespace_ name newUID : String) (joins : recreateJoinKind kind = true)
    (stash : Stash Obj) :
    Within (takeRecreateMatch now kind namespace_ name newUID stash).2 stash ∧
      (takeRecreateMatch now kind namespace_ name newUID stash).2.entries.length ≤ stash.entries.length ∧
      (takeRecreateMatch now kind namespace_ name newUID stash).2.lookup
        (recreateKey kind namespace_ name) = none := by
  simp only [takeRecreateMatch, joins, not_true_eq_false, if_false]
  cases held : stash.lookup (recreateKey kind namespace_ name) with
  | none => exact ⟨fun _ _ same => same, Nat.le_refl _, held⟩
  | some entry =>
    have erased : Within (stash.erase (recreateKey kind namespace_ name)) stash ∧
        (stash.erase (recreateKey kind namespace_ name)).entries.length ≤ stash.entries.length ∧
        (stash.erase (recreateKey kind namespace_ name)).lookup (recreateKey kind namespace_ name) = none :=
      ⟨within_erase _ stash, erase_length_le _ stash, AList.lookup_erase _ stash⟩
    dsimp only
    split
    · exact erased
    · split
      · exact erased
      · exact erased

theorem take_answers {now : Int} {newUID : String} {obj : Obj}
    (answered : (takeRecreateMatch now kind namespace_ name newUID stash).1 = some obj) :
    recreateJoinKind kind = true ∧
      ∃ entry, stash.lookup (recreateKey kind namespace_ name) = some entry ∧ entry.obj = obj ∧
        now - entry.deletedAt ≤ recreateJoinTTL ∧ (newUID = "" ∨ entry.uid ≠ newUID) := by
  unfold takeRecreateMatch at answered
  split at answered
  next => exact absurd answered (by simp)
  next joins =>
    refine ⟨by simpa using joins, ?_⟩
    cases held : stash.lookup (recreateKey kind namespace_ name) with
    | none => simp [held] at answered
    | some entry =>
      simp only [held] at answered
      split at answered
      next => exact absurd answered (by simp)
      next fresh =>
        split at answered
        next => exact absurd answered (by simp)
        next differ =>
          obtain rfl := Option.some.inj answered
          refine ⟨entry, rfl, rfl, by omega, ?_⟩
          by_cases unknown : newUID = ""
          · exact Or.inl unknown
          · exact Or.inr fun same => differ ⟨unknown, same⟩

end Spec

/-- The key whose entry an operation replaces or takes out. -/
def Op.touches : Op Obj → Option String
  | .stash _ _ _ _ _ _ _ none => none
  | .stash _ _ _ kind namespace_ name _ (some _) | .take _ kind namespace_ name _ =>
    if recreateJoinKind kind then some (recreateKey kind namespace_ name) else none
  | .reset => none

/-- A namespace that holds no slash, as none does, is told from the name behind it. -/
structure SameResource (kind namespace_ name kind' namespace' name' : String) : Prop where
  kind : kind = kind'
  path : namespace_ ++ "/" ++ name = namespace' ++ "/" ++ name'
  parts : '/' ∉ namespace_.toList → '/' ∉ namespace'.toList → namespace_ = namespace' ∧ name = name'

/-- Operation j stashed the deletion that the match i returned: it was the last before i that touched
    this key, no longer ago than the TTL, and the new UID, if there is one, is another. -/
def Consumes (ops : List (Op Obj)) (i j : Nat) (obj : Obj) : Prop :=
  ∃ visiting evictedAt deletedAt now kind namespace_ name uid kind' namespace' name' newUID,
    ops[j]? = some (Op.stash visiting evictedAt deletedAt kind namespace_ name uid (some obj)) ∧
    ops[i]? = some (Op.take now kind' namespace' name' newUID) ∧ j < i ∧
    recreateJoinKind kind = true ∧ SameResource kind namespace_ name kind' namespace' name' ∧
    now - deletedAt ≤ recreateJoinTTL ∧ (newUID = "" ∨ uid ≠ newUID) ∧
    ∀ k, j < k → k < i → (ops[k]?.bind Op.touches) ≠ some (recreateKey kind namespace_ name)

/-- Every entry is that of the last operation that touched its key. -/
def Traced (ops : List (Op Obj)) (stash : Stash Obj) : Prop := ∀ key entry, stash.lookup key = some entry →
    ∃ j : Nat, ∃ visiting evictedAt kind namespace_ name,
      ops[j]? = some (Op.stash visiting evictedAt entry.deletedAt kind namespace_ name entry.uid
        (some entry.obj)) ∧
      recreateJoinKind kind = true ∧ recreateKey kind namespace_ name = key ∧
      ∀ k, j < k → (ops[k]?.bind Op.touches) ≠ some key

structure Sound (ops : List (Op Obj)) (s : State Obj) : Prop where
  bounded : s.stash.entries.length ≤ recreateStashCap
  traced : Traced ops s.stash
  answered : s.answers.length = ops.length
  consumed : ∀ i obj, s.answers[i]? = some (some obj) → ∃ j, Consumes ops i j obj

section Run
variable {ops : List (Op Obj)} {op : Op Obj} {kind namespace_ name kind' namespace' name' : String}

theorem kind_plain {kind : String} (joins : recreateJoinKind kind = true) : '/' ∉ kind.toList := by
  have plain : ∀ k ∈ recreateStashKinds, ('/' ∈ k.toList) = False := by
    simp [recreateStashKinds]
  have member : kind ∈ recreateStashKinds := by simpa [recreateJoinKind] using joins
  rw [plain kind member]
  exact not_false

theorem key_same (joins : recreateJoinKind kind = true) (joins' : recreateJoinKind kind' = true)
    (same : recreateKey kind namespace_ name = recreateKey kind' namespace' name') :
    SameResource kind namespace_ name kind' namespace' name' := by
  have chars := congrArg String.toList same
  simp only [recreateKey, String.toList_append, append_assoc, String.reduceToList,
    singleton_append] at chars
  obtain ⟨kinds, rest⟩ := sep_inj (kind_plain joins) (kind_plain joins') chars
  refine ⟨String.toList_inj.mp kinds, ?_, fun plain plain' => ?_⟩
  · apply String.toList_inj.mp
    simpa using rest
  · obtain ⟨namespaces, names⟩ := sep_inj plain plain' rest
    exact ⟨String.toList_inj.mp namespaces, String.toList_inj.mp names⟩

theorem traced_within {stash kept : Stash Obj} (traced : Traced ops stash) (within : Within kept stash)
    (cleared : ∀ key, op.touches = some key → kept.lookup key = none) :
    Traced (ops ++ [op]) kept := by
  intro key entry held
  obtain ⟨j, visiting, evictedAt, kind, namespace_, name, recorded, joins, keyed, last⟩ :=
    traced key entry (within key entry held)
  have before : j < ops.length := (List.getElem?_eq_some_iff.mp recorded).1
  refine ⟨j, visiting, evictedAt, kind, namespace_, name, ?_, joins, keyed, fun k after touched => ?_⟩
  · rw [getElem?_append_left before]
    exact recorded
  · rw [getElem?_append] at touched
    split at touched
    · exact last k after touched
    · rw [getElem?_singleton] at touched
      split at touched
      · rw [cleared key touched] at held
        exact absurd held (by simp)
      · exact absurd touched (by simp)

theorem traced_insert (visiting : Visiting (Item Obj)) (evictedAt now : Int)
    {kind : String} (namespace_ name uid : String) (obj : Obj) (joins : recreateJoinKind kind = true)
    (traced : Traced ops stash) :
    Traced (ops ++ [.stash visiting evictedAt now kind namespace_ name uid (some obj)])
      (stash.insert (recreateKey kind namespace_ name) ⟨obj, uid, now⟩) := by
  intro key entry held
  by_cases same : key = recreateKey kind namespace_ name
  · subst same
    rw [AList.lookup_insert, Option.some.injEq] at held
    subst held
    refine ⟨ops.length, visiting, evictedAt, kind, namespace_, name, ?_, joins, rfl, ?_⟩
    · exact getElem?_concat_length
    · intro k after
      rw [getElem?_eq_none (by rw [length_append, length_singleton]; omega)]
      simp
  · have older : (stash.erase (recreateKey kind namespace_ name)).lookup key = some entry := by
      rw [AList.lookup_erase_ne same]
      rwa [AList.lookup_insert_ne same] at held
    apply traced_within traced (within_erase (recreateKey kind namespace_ name) stash) ?_ key entry older
    intro touched touches
    simp only [Op.touches, joins, if_true, Option.some.injEq] at touches
    rw [← touches, AList.lookup_erase]

theorem consumes_concat {i j : Nat} {obj : Obj} (consumes : Consumes ops i j obj) :
    Consumes (ops ++ [op]) i j obj := by
  obtain ⟨visiting, evictedAt, deletedAt, now, kind, namespace_, name, uid, kind', namespace', name',
    newUID, recorded, taken, before, joins, same, fresh, differ, last⟩ := consumes
  have inside : i < ops.length := (List.getElem?_eq_some_iff.mp taken).1
  refine ⟨visiting, evictedAt, deletedAt, now, kind, namespace_, name, uid, kind', namespace', name',
    newUID, ?_, ?_, before, joins, same, fresh, differ, fun k after until_ => ?_⟩
  · rwa [getElem?_append_left (by omega)]
  · rwa [getElem?_append_left inside]
  · rw [getElem?_append_left (by omega)]
    exact last k after until_

/-- An answer that returns nothing leaves the older answers as they are explained. -/
theorem consumed_concat {answers : List (Option Obj)} {answer : Option Obj}
    (length : answers.length = ops.length)
    (consumed : ∀ i obj, answers[i]? = some (some obj) → ∃ j, Consumes ops i j obj)
    (latest : ∀ obj, answer = some obj → ∃ j, Consumes (ops ++ [op]) ops.length j obj)
    (i : Nat) (obj : Obj) (answered : (answers ++ [answer])[i]? = some (some obj)) :
    ∃ j, Consumes (ops ++ [op]) i j obj := by
  rw [getElem?_append] at answered
  split at answered
  · exact (consumed i obj answered).imp fun j consumes => consumes_concat consumes
  · rw [getElem?_singleton] at answered
    split at answered
    · obtain rfl : i = ops.length := by omega
      exact latest obj (Option.some.inj answered)
    · exact absurd answered (by simp)

theorem take_consumes_last {now : Int} {kind namespace_ name newUID : String}
    (traced : Traced ops stash) {obj : Obj}
    (answered : (takeRecreateMatch now kind namespace_ name newUID stash).1 = some obj) :
    ∃ j, Consumes (ops ++ [.take now kind namespace_ name newUID]) ops.length j obj := by
  obtain ⟨joins, entry, held, rfl, fresh, differ⟩ := take_answers answered
  obtain ⟨j, visiting, evictedAt, kind', namespace', name', recorded, joins', keyed, last⟩ :=
    traced _ entry held
  have before : j < ops.length := (List.getElem?_eq_some_iff.mp recorded).1
  refine ⟨j, visiting, evictedAt, entry.deletedAt, now, kind', namespace', name', entry.uid, kind,
    namespace_, name, newUID, ?_, getElem?_concat_length, before, joins',
    key_same joins' joins keyed, fresh, differ, fun k after until_ => ?_⟩
  · rwa [getElem?_append_left before]
  · rw [getElem?_append_left until_, keyed]
    exact last k after

/-- Taking leaves what was there, no more of it, and nothing under the key it names. -/
theorem take_leaves (now : Int) (kind namespace_ name newUID : String) (stash : Stash Obj) :
    Within (takeRecreateMatch now kind namespace_ name newUID stash).2 stash ∧
    (takeRecreateMatch now kind namespace_ name newUID stash).2.entries.length ≤ stash.entries.length ∧
    ∀ key, (Op.take now kind namespace_ name newUID : Op Obj).touches = some key →
      (takeRecreateMatch now kind namespace_ name newUID stash).2.lookup key = none := by
  cases joins : recreateJoinKind kind with
  | false =>
    rw [take_skipped now newUID joins]
    refine ⟨fun _ _ held => held, Nat.le_refl _, fun key touched => ?_⟩
    simp [Op.touches, joins] at touched
  | true =>
    obtain ⟨within, fewer, gone⟩ := take_consumes now namespace_ name newUID joins stash
    refine ⟨within, fewer, fun key touched => ?_⟩
    simp only [Op.touches, joins, if_true, Option.some.injEq] at touched
    rwa [← touched]

theorem sound_step {s : State Obj} (op : Op Obj) (sound : Sound ops s) :
    ∃ t, step s op = some t ∧ Sound (ops ++ [op]) t := by
  have length : ∀ answer, (s.answers ++ [answer]).length = (ops ++ [op]).length := by
    intro answer
    simp [sound.answered]
  have quiet := @consumed_concat _ ops op s.answers none sound.answered sound.consumed
    (fun obj none_ => absurd none_ (by simp))
  cases op with
  | reset =>
    refine ⟨_, rfl, Nat.zero_le _, fun key entry held => ?_, length none, quiet⟩
    exact absurd held (by simp)
  | stash visiting evictedAt now kind namespace_ name uid obj =>
    by_cases skipped : obj = none ∨ recreateJoinKind kind = false
    · have same := stash_skipped visiting evictedAt now namespace_ name uid skipped s.stash
      refine ⟨⟨s.stash, s.answers ++ [none]⟩, by rw [step, same, Option.map_some], sound.bounded, ?_,
        length none, quiet⟩
      apply traced_within sound.traced (fun _ _ held => held)
      intro key touched
      rcases skipped with rfl | other
      · simp [Op.touches] at touched
      · cases obj with
        | none => simp [Op.touches] at touched
        | some obj => simp [Op.touches, other] at touched
    · obtain ⟨obj, rfl⟩ : ∃ o, obj = some o := by
        cases obj with
        | none => exact absurd (Or.inl rfl) skipped
        | some o => exact ⟨o, rfl⟩
      have joins : recreateJoinKind kind = true := by
        simpa using fun other => skipped (Or.inr other)
      obtain ⟨kept, recorded, within, bounded⟩ := stash_recorded visiting evictedAt now
        namespace_ name uid obj joins sound.bounded
      refine ⟨⟨kept.insert (recreateKey kind namespace_ name) ⟨obj, uid, now⟩, s.answers ++ [none]⟩,
        by rw [step, recorded, Option.map_some], bounded, ?_, length none, quiet⟩
      apply traced_insert visiting evictedAt now namespace_ name uid obj joins
      exact fun key entry held => sound.traced key entry (within key entry held)
  | take now kind namespace_ name newUID =>
    obtain ⟨within, fewer, gone⟩ := take_leaves now kind namespace_ name newUID s.stash
    refine ⟨_, rfl, Nat.le_trans fewer sound.bounded, ?_, length _, ?_⟩
    · exact traced_within sound.traced within gone
    · exact consumed_concat sound.answered sound.consumed fun obj answered =>
        take_consumes_last sound.traced answered

theorem same_key (same : SameResource kind namespace_ name kind' namespace' name') :
    recreateKey kind' namespace' name' = recreateKey kind namespace_ name := by
  apply String.toList_inj.mp
  have path := congrArg String.toList same.path
  simp only [String.toList_append] at path
  simp only [recreateKey, String.toList_append, append_assoc, same.kind] at path ⊢
  rw [path]

/-- A match is itself an operation that touches the key. -/
theorem consumed_before {i i' j : Nat} {obj obj' : Obj} (first : Consumes ops i j obj)
    (second : Consumes ops i' j obj') : i' ≤ i := by
  obtain ⟨_, _, _, now, kind, namespace_, name, _, kind', namespace', name', newUID, recorded, taken,
    before, joins, same, _⟩ := first
  obtain ⟨_, _, _, _, _, _, _, _, _, _, _, _, recorded', _, _, _, _, _, _, last⟩ := second
  rw [recorded, Option.some.injEq, Op.stash.injEq] at recorded'
  obtain ⟨_, _, _, rfl, rfl, rfl, _⟩ := recorded'
  by_contra later
  refine last i before (by omega) ?_
  rw [taken, Option.bind_some, Op.touches, ← same.kind, if_pos joins, ← same_key same, same.kind]

theorem consumed_once {i i' j : Nat} {obj obj' : Obj} (first : Consumes ops i j obj)
    (second : Consumes ops i' j obj') : i = i' :=
  Nat.le_antisymm (consumed_before second first) (consumed_before first second)

/-- Every run of the stash gets through, within the cap; each match that returns something consumes a
    deletion stashed before it, and no two matches the same. -/
theorem recreate_stash_sound (ops : List (Op Obj)) :
    ∃ s, exec step initial ops = some s ∧ s.stash.entries.length ≤ recreateStashCap ∧
      s.answers.length = ops.length ∧
      (∀ i obj, s.answers[i]? = some (some obj) → ∃ j, Consumes ops i j obj) ∧
      ∀ i i' j obj obj', Consumes ops i j obj → Consumes ops i' j obj' → i = i' := by
  have start : Sound [] (initial : State Obj) := by
    refine ⟨Nat.zero_le _, fun key entry held => ?_, rfl, fun i obj answered => ?_⟩
    · exact absurd held (by simp [initial])
    · exact absurd answered (by simp [initial])
  obtain ⟨s, run, sound⟩ := exec_total start (fun _ _ op sound => sound_step op sound) ops
  exact ⟨s, run, sound.bounded, sound.answered, sound.consumed, fun i i' j obj obj' => consumed_once⟩

end Run

/-- An object without a UID, deleted and added again without one: the UIDs are the same. -/
def unnamedReplay : List (Op String) :=
  [.stash ⟨id, List.Perm.refl⟩ 0 0 "ConfigMap" "shop" "settings" "" (some "before"),
    .take 1 "ConfigMap" "shop" "settings" ""]

theorem unnamed_replay_matched :
    (∃ s, exec step initial unnamedReplay = some s ∧ s.answers = [none, some "before"]) ∧
      ∀ visiting evictedAt now kind namespace_ name uid obj,
        Op.stash visiting evictedAt now kind namespace_ name uid obj ∈ unnamedReplay → uid = "" := by
  refine ⟨⟨_, rfl, rfl⟩, ?_⟩
  intro visiting evictedAt now kind namespace_ name uid obj member
  rcases List.mem_cons.mp member with first | second
  · exact (Op.stash.inj first).2.2.2.2.2.2.1
  · exact absurd (List.mem_singleton.mp second) (by simp)

end RecreateStash
