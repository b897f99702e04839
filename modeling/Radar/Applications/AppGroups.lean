import Mathlib.Data.Prod.Lex
import Radar.Applications.VersionOrder
import Radar.Base.Arrange
import Radar.Base.KeyedFold
import Radar.Base.LockStep
import Radar.Base.MultiMap
import Radar.Base.WriteMap

/- packages/k8s-ui/src/utils/applications.ts: the rows of the list of applications, those of one
   identity folded into a group. Counts are whole numbers. -/
namespace AppGroups
open GoText VersionOrder List
variable {env : String}

section Model

inductive AppHealth where
  | unhealthy | degraded | healthy | unknown
  deriving DecidableEq

def healthRank : AppHealth → Nat
  | .unhealthy => 3
  | .degraded => 2
  | .healthy => 1
  | .unknown => 0

inductive AppWorkloadClass where
  | service | worker | job | mixed | unknown
  deriving DecidableEq

def classOrder : List AppWorkloadClass := [.service, .worker, .job, .unknown]

structure AppIdentity where
  key : String
  env : String
  confidence : String
  portable : Bool
  pathKey : Option String
  deriving DecidableEq

/-- What the fold needs of an entry; `host` is the rest of it, which the caller's functions read. -/
structure Entry (η : Type) where
  rowKey : String
  identity : Option AppIdentity
  appVersion : Option String
  health : AppHealth
  versions : List String
  ready : Int
  desired : Int
  kinds : List (String × Int)
  classComposition : List (AppWorkloadClass × Int)
  host : η

structure Slice where
  env : String
  health : AppHealth

structure FoldOptions (η : Type) where
  localScope : Option (η → Option String)
  envsOf : Option (η → List Slice)

structure EnvCell where
  env : String
  health : AppHealth
  version : Option String
  count : Nat
  firstKey : String
  deriving DecidableEq

structure Group (η : Type) where
  key : String
  label : String
  members : List (Entry η)
  expanded : Bool
  cells : List EnvCell
  lag : Option String
  health : AppHealth
  ready : Int
  desired : Int
  kinds : List (String × Int)
  classComposition : List (AppWorkloadClass × Int)
  workloadClass : AppWorkloadClass
  confidence : String

inductive Row (η : Type) where
  | group (g : Group η)
  | instance_ (entry : Entry η) (child : Bool)

/-- How texts are compared and lowered: localeCompare by the keys the collation gives them. -/
structure Locale (κ : Type) where
  sortKey : String → κ
  lowering : Lowering

variable {η κ : Type} [LinearOrder κ] (l : Locale κ)

def envRank (env : String) : Option Nat :=
  if env = "" then none else [("dev", 0), ("staging", 1), ("prod", 2)].lookup (l.lowering.toLower env)

/-- The comparison of orderEnvs is negative. -/
def envBefore (a b : String) : Bool := match envRank l a, envRank l b with
  | some ra, some rb => decide (ra < rb)
  | some _, none => true
  | none, some _ => false
  | none, none => decide (l.sortKey a < l.sortKey b)

def orderEnvs (envs : List String) : List String := Arrange.sortStable (envBefore l) envs

def lagFrom : List (EnvCell × Nat) → Option String
  | [] => none
  | c :: rest =>
    match rest.find? fun d => c.2 < d.2 ∧ compareVersions c.1.version d.1.version = some 1 with
    | some d => some (d.1.env ++ " is behind " ++ c.1.env)
    | none => lagFrom rest

/-- undefined and the empty text are both no version. -/
def truthy (v : Option String) : Option String := v.filter (· ≠ "")

def appGroupLagMessage (cells : List EnvCell) : Option String :=
  let ranked := cells.filterMap fun c =>
    if (truthy c.version).isSome then (envRank l c.env).map fun rank => (c, rank) else none
  lagFrom (Arrange.sortStable (fun a b => a.2 < b.2) ranked)

/-- A version takes the place of none, and of one it is newer than. -/
def newer (v : String) (best : Option String) : Bool :=
  (truthy best).isNone || compareVersions (some v) best = some 1

def newest (e : Entry η) : Option String :=
  match e.versions.foldl (fun best v => if newer v best then some v else best) none with
  | some best => some best
  | none => e.appVersion

variable (options : FoldOptions η)

def groupKey (e : Entry η) : Option String := e.identity.map fun id =>
    match truthy ((options.localScope.map fun scope => scope e.host).getD none) with
    | none => id.key
    | some scope =>
      if id.portable then
        "portable:" ++ id.key ++ ((truthy id.pathKey).map fun path => ":" ++ path).getD ""
      else "local:" ++ scope ++ ":" ++ id.key

/-- The key under which an entry can be grouped. -/
def keyed (e : Entry η) : Option String := truthy (groupKey options e)

def byGroup (entries : List (Entry η)) : MultiMap.Map String (Entry η) :=
  MultiMap.pushAll ∅ (entries.filterMap fun e => (keyed options e).map fun k => (k, e))

def slicesOf (m : Entry η) : List Slice := match options.envsOf with
  | some envsOf => envsOf m.host
  | none => m.identity.toList.map fun id => ⟨id.env, m.health⟩

/-- A slice of a member with the member's version. -/
structure Hit where
  env : String
  health : AppHealth
  version : Option String
  rowKey : String

def hitsOf (m : Entry η) : List Hit :=
  (slicesOf options m).map fun slice => ⟨slice.env, slice.health, newest m, m.rowKey⟩

def worse (a b : AppHealth) : AppHealth := if healthRank b < healthRank a then a else b

/-- A cell starts with the slice that it then takes up as it does all others. -/
def cellFolding : KeyedFold.Folding Hit EnvCell String where
  keyOf := Hit.env
  key := EnvCell.env
  start := fun h => ⟨h.env, h.health, h.version, 0, h.rowKey⟩
  add := fun c h =>
    { c with
      count := c.count + 1
      health := worse h.health c.health
      version := match truthy h.version with
        | some v => if newer v c.version then some v else c.version
        | none => c.version }
  key_start := fun _ => rfl
  key_add := fun _ _ => rfl

def cellMap (members : List (Entry η)) : List EnvCell :=
  cellFolding.gather (members.flatMap (hitsOf options))

def envCells (members : List (Entry η)) : List EnvCell :=
  (orderEnvs l ((cellMap options members).map EnvCell.env)).filterMap fun env =>
    (cellMap options members).find? fun c => c.env = env

def kindsOf (members : List (Entry η)) : List (String × Int) :=
  members.foldl (fun kinds m => WriteMap.addAll kinds m.kinds) []

def compMap (members : List (Entry η)) : List (AppWorkloadClass × Int) :=
  members.foldl (fun comp m => WriteMap.addAll comp m.classComposition) []

def compositionOf (members : List (Entry η)) : List (AppWorkloadClass × Int) :=
  classOrder.filterMap fun c => ((compMap members).lookup c).map fun count => (c, count)

def workloadClassOf (composition : List (AppWorkloadClass × Int)) : AppWorkloadClass :=
  let known := (composition.map Prod.fst).filter fun c => c ≠ .unknown
  if known = [] then .unknown
  else if AppWorkloadClass.service ∈ known ∧ AppWorkloadClass.job ∉ known then .service
  else match known with
    | [c] => c
    | _ => .mixed

def foldGroup (key label : String) (members : List (Entry η)) (expanded : Bool) : Group η where
  key := key
  label := label
  members := members
  expanded := expanded
  cells := envCells l options members
  lag := appGroupLagMessage l (envCells l options members)
  health := members.foldl (fun health m => worse m.health health) .unknown
  ready := (members.map Entry.ready).sum
  desired := (members.map Entry.desired).sum
  kinds := kindsOf members
  classComposition := compositionOf members
  workloadClass := workloadClassOf (compositionOf members)
  confidence :=
    if members.any fun m => m.identity.any fun id => id.confidence = "high" then "high" else "medium"

variable (expandedKeys : List String) (autoExpand : Bool)

def groupRows (key label : String) (members : List (Entry η)) : List (Row η) :=
  let expanded := autoExpand || key ∈ expandedKeys
  .group (foldGroup l options key label members expanded) ::
    if expanded then members.map fun m => .instance_ m true else []

/-- The second pass: `all` are the entries the groups were made of, `emitted` the keys done with. -/
def foldRows (all : List (Entry η)) (emitted : List String) : List (Entry η) → List (Row η)
  | [] => []
  | e :: rest =>
    match e.identity, keyed options e with
    | some id, some k =>
      let members := MultiMap.values (byGroup options all) k
      if members.length < 2 then .instance_ e false :: foldRows all emitted rest
      else if k ∈ emitted then foldRows all emitted rest
      else groupRows l options expandedKeys autoExpand k id.key members ++ foldRows all (k :: emitted) rest
    | _, _ => .instance_ e false :: foldRows all emitted rest

def foldAppGroups (entries : List (Entry η)) : List (Row η) :=
  foldRows l options expandedKeys autoExpand entries [] entries

end Model

section Claims
variable {η κ : Type} [LinearOrder κ] (l : Locale κ) (options : FoldOptions η)

/-- The entries a row stands for: a group for its members, a child for none of its own. -/
def represents : Row η → List (Entry η)
  | .group g => g.members
  | .instance_ entry child => if child then [] else [entry]

def groupsOf (rows : List (Row η)) : List (Group η) := rows.filterMap fun row => match row with
    | .group g => some g
    | .instance_ _ _ => none

structure Sums (g : Group η) : Prop where
  ready : g.ready = (g.members.map Entry.ready).sum
  desired : g.desired = (g.members.map Entry.desired).sum
  kinds : ∀ kind, WriteMap.amount g.kinds kind = (g.members.map fun m => WriteMap.total m.kinds kind).sum
  classes : ∀ cls ≠ .mixed, WriteMap.total g.classComposition cls =
    (g.members.map fun m => WriteMap.total m.classComposition cls).sum

structure Conserved (entries : List (Entry η)) (rows : List (Row η)) : Prop where
  represented : (rows.flatMap represents).Perm entries
  together : ∀ a ∈ entries, ∀ b ∈ entries, a ≠ b → ((∃ g ∈ groupsOf rows, a ∈ g.members ∧ b ∈ g.members) ↔
      ∃ k ≠ "", groupKey options a = some k ∧ groupKey options b = some k)
  once : ((groupsOf rows).map Group.key).Nodup
  sums : ∀ g ∈ groupsOf rows, Sums g

/-- The entry with its versions in another order. -/
def Shuffled (e e' : Entry η) : Prop := ∃ vs : List String, vs.Perm e.versions ∧ e' = { e with versions := vs }

def Reordered (xs ys : List (Entry η)) : Prop := ∃ zs, zs.Perm xs ∧ List.Forall₂ Shuffled zs ys

/-- The versions an entry has, empty ones aside: its application's where it lists none. -/
def candidates (m : Entry η) : List String :=
  (if m.versions = [] then m.appVersion.toList else m.versions).filter (· ≠ "")

def inEnv (env : String) (m : Entry η) : Bool := (slicesOf options m).any fun slice => slice.env = env

def candidatesAt (members : List (Entry η)) (env : String) : List String :=
  (members.filter (inEnv options env)).flatMap candidates

/-- One version is newer than every other one; or there is none at all. -/
def Settled (vs : List String) : Prop :=
  vs = [] ∨ ∃ x ∈ vs, ∀ y ∈ vs, y = x ∨ compareVersions (some x) (some y) = some 1

def face (c : EnvCell) : String × AppHealth × Nat := (c.env, c.health, c.count)

def shown (c : EnvCell) : String × AppHealth × Option String × Nat :=
  (c.env, c.health, truthy c.version, c.count)

/-- What orderEnvs sorts by. -/
def envOrder (env : String) : Nat ×ₗ WithBot κ := match envRank l env with
  | some rank => toLex (rank, ⊥)
  | none => toLex (3, (l.sortKey env : WithBot κ))

/-- No two environments stand in the same place. -/
def Apart (envs : List String) : Prop := ∀ e ∈ envs, ∀ e' ∈ envs, envOrder l e = envOrder l e' → e = e'

def ranked (cells : List EnvCell) : List EnvCell := cells.filter fun c => (envRank l c.env).isSome

variable (expandedKeys : List String) (autoExpand : Bool) (entries : List (Entry η))

/-- The group of a key, in one order of the entries and in another. -/
def Twins (ys : List (Entry η)) (g g' : Group η) : Prop :=
  Reordered entries ys ∧ g' ∈ groupsOf (foldAppGroups l options expandedKeys autoExpand ys) ∧ g'.key = g.key

/-- What the order of the entries and of their versions does not change, and when it does not. -/
structure OrderFree (g : Group η) : Prop where
  there : ∀ ys, Reordered entries ys → ∃ g', Twins l options expandedKeys autoExpand entries ys g g'
  level : ∀ ys g', Twins l options expandedKeys autoExpand entries ys g g' →
    g'.health = g.health ∧ (g'.cells.map face).Perm (g.cells.map face)
  version : ∀ c ∈ g.cells, (∀ ys g', Twins l options expandedKeys autoExpand entries ys g g' →
      ∀ c' ∈ g'.cells, c'.env = c.env → truthy c'.version = truthy c.version) ↔
    Settled (candidatesAt options g.members c.env)
  cells : (∀ c ∈ g.cells, Settled (candidatesAt options g.members c.env)) →
    Apart l (g.cells.map EnvCell.env) →
      ∀ ys g', Twins l options expandedKeys autoExpand entries ys g g' → g'.cells.map shown = g.cells.map shown
  lag : (∀ c ∈ ranked l g.cells, Settled (candidatesAt options g.members c.env)) →
    Apart l ((ranked l g.cells).map EnvCell.env) →
      ∀ ys g', Twins l options expandedKeys autoExpand entries ys g g' → g'.lag = g.lag

end Claims

section Conservation
variable {η κ : Type} [LinearOrder κ] {l : Locale κ} {options : FoldOptions η}
  {expandedKeys : List String} {autoExpand : Bool} {entries : List (Entry η)}

theorem keyed_iff {e : Entry η} {k : String} :
    keyed options e = some k ↔ k ≠ "" ∧ groupKey options e = some k := by
  rw [keyed, truthy, Option.filter_eq_some_iff, and_comm]
  simp

theorem members_eq (entries : List (Entry η)) (k : String) :
    MultiMap.values (byGroup options entries) k = entries.filter fun e => keyed options e = some k := by
  rw [byGroup, MultiMap.values_push_all, MultiMap.values_empty, nil_append]
  induction entries with
  | nil => rfl
  | cons e rest ih =>
    rw [filterMap_cons]
    cases key : keyed options e with
    | none =>
      rw [filter_cons_of_neg (by simp [key])]
      exact ih
    | some k' =>
      simp only [Option.map_some]
      by_cases own : k' = k
      · rw [filter_cons_of_pos (by simp [own]), filter_cons_of_pos (by simp [key, own]),
          map_cons, ih]
      · rw [filter_cons_of_neg (by simp [own]), filter_cons_of_neg (by simp [key, own]), ih]

/-- An entry's key, where more than one has it. -/
def foldedKey (options : FoldOptions η) (all : List (Entry η)) (e : Entry η) : Option String :=
  (keyed options e).filter fun k => decide (2 ≤ (all.filter fun e => keyed options e = some k).length)

/-- The keys of the groups in the order of their first members. -/
def freshKeys (options : FoldOptions η) (all : List (Entry η)) (emitted : List String) :
    List (Entry η) → List String
  | [] => []
  | e :: rest =>
    match foldedKey options all e with
    | some k =>
      if k ∈ emitted then freshKeys options all emitted rest
      else k :: freshKeys options all (k :: emitted) rest
    | none => freshKeys options all emitted rest

theorem mem_freshKeys {all es : List (Entry η)} {emitted : List String} {k : String} :
    k ∈ freshKeys options all emitted es ↔ k ∉ emitted ∧ ∃ e ∈ es, foldedKey options all e = some k := by
  induction es generalizing emitted with
  | nil => simp [freshKeys]
  | cons e rest ih =>
    rw [freshKeys, exists_mem_cons_iff]
    cases key : foldedKey options all e with
    | none => simp [ih]
    | some k' =>
      by_cases known : k' ∈ emitted
      · simp only [if_pos known, ih, Option.some.injEq]
        constructor
        · exact fun later => ⟨later.1, .inr later.2⟩
        · rintro ⟨fresh, rfl | later⟩
          · exact absurd known fresh
          · exact ⟨fresh, later⟩
      · simp only [if_neg known, mem_cons, ih, Option.some.injEq, not_or]
        constructor
        · rintro (rfl | ⟨⟨_, fresh⟩, later⟩)
          · exact ⟨known, .inl rfl⟩
          · exact ⟨fresh, .inr later⟩
        · rintro ⟨fresh, rfl | later⟩
          · exact .inl rfl
          · by_cases same : k = k'
            · exact .inl same
            · exact .inr ⟨⟨same, fresh⟩, later⟩

theorem freshKeys_nodup (all es : List (Entry η)) (emitted : List String) :
    (freshKeys options all emitted es).Nodup := by
  induction es generalizing emitted with
  | nil => exact nodup_nil
  | cons e rest ih =>
    rw [freshKeys]
    split
    · split
      · exact ih emitted
      · rename_i k _ _
        refine nodup_cons.mpr ⟨fun again => ?_, ih _⟩
        exact (mem_freshKeys.mp again).1 mem_cons_self
    · exact ih emitted

theorem foldRows_cons (all rest : List (Entry η)) (emitted : List String) (e : Entry η) :
    (foldedKey options all e = none ∧ foldRows l options expandedKeys autoExpand all emitted (e :: rest) =
          .instance_ e false :: foldRows l options expandedKeys autoExpand all emitted rest) ∨
      ∃ k, foldedKey options all e = some k ∧
        ((k ∈ emitted ∧ foldRows l options expandedKeys autoExpand all emitted (e :: rest) =
            foldRows l options expandedKeys autoExpand all emitted rest) ∨
          k ∉ emitted ∧ ∃ label, foldRows l options expandedKeys autoExpand all emitted (e :: rest) =
            groupRows l options expandedKeys autoExpand k label
                (all.filter fun e => keyed options e = some k) ++
              foldRows l options expandedKeys autoExpand all (k :: emitted) rest) := by
  rw [foldRows]
  cases key : keyed options e with
  | none => exact .inl ⟨by rw [foldedKey, key]; rfl, by cases e.identity <;> rfl⟩
  | some k =>
    cases identity : e.identity with
    | none =>
      rw [keyed, groupKey, identity] at key
      cases key
    | some id =>
      simp only [members_eq]
      by_cases few : (all.filter fun e => keyed options e = some k).length < 2
      · refine .inl ⟨?_, if_pos few⟩
        rw [foldedKey, key, Option.filter_some, if_neg (by rw [decide_eq_true_eq]; omega)]
      · rw [if_neg few]
        refine .inr ⟨k, ?_, ?_⟩
        · rw [foldedKey, key, Option.filter_some, if_pos (by rw [decide_eq_true_eq]; omega)]
        by_cases known : k ∈ emitted
        · exact .inl ⟨known, if_pos known⟩
        · exact .inr ⟨known, id.key, if_neg known⟩

theorem groupRows_represent (k label : String) (members : List (Entry η)) :
    (groupRows l options expandedKeys autoExpand k label members).flatMap represents = members := by
  rw [groupRows, flatMap_cons]
  split
  · simp [represents, foldGroup, flatMap_map]
  · simp [represents, foldGroup]

theorem groupRows_group (k label : String) (members : List (Entry η)) :
    groupsOf (groupRows l options expandedKeys autoExpand k label members) =
      [foldGroup l options k label members (autoExpand || k ∈ expandedKeys)] := by
  rw [groupRows, groupsOf]
  split
  · simp [filterMap_map]
  · simp

theorem foldRows_represent (all es : List (Entry η)) (emitted : List String) :
    ((foldRows l options expandedKeys autoExpand all emitted es).flatMap represents).Perm
      ((es.filter fun e => (foldedKey options all e).isNone) ++
        (freshKeys options all emitted es).flatMap fun k => all.filter fun e => keyed options e = some k) := by
  induction es generalizing emitted with
  | nil => simp [foldRows, freshKeys]
  | cons e rest ih =>
    rw [freshKeys]
    rcases @foldRows_cons _ _ _ l options expandedKeys autoExpand all rest emitted e with
      ⟨single, rows⟩ | ⟨k, key, ⟨known, rows⟩ | ⟨fresh, label, rows⟩⟩
    · rw [rows, filter_cons_of_pos (by simp [single]), single, flatMap_cons]
      exact (ih emitted).cons e
    · rw [rows, filter_cons_of_neg (by simp [key]), key]
      simp only [if_pos known]
      exact ih emitted
    · rw [rows, filter_cons_of_neg (by simp [key]), key, flatMap_append, groupRows_represent]
      simp only [if_neg fresh, flatMap_cons]
      exact ((ih (k :: emitted)).append_left _).trans (perm_append_comm_assoc _ _ _)

theorem groupsOf_append (xs ys : List (Row η)) : groupsOf (xs ++ ys) = groupsOf xs ++ groupsOf ys :=
  filterMap_append

theorem foldRows_keys (all es : List (Entry η)) (emitted : List String) :
    (groupsOf (foldRows l options expandedKeys autoExpand all emitted es)).map Group.key =
      freshKeys options all emitted es := by
  induction es generalizing emitted with
  | nil => rfl
  | cons e rest ih =>
    rw [freshKeys]
    rcases @foldRows_cons _ _ _ l options expandedKeys autoExpand all rest emitted e with
      ⟨single, rows⟩ | ⟨k, key, ⟨known, rows⟩ | ⟨fresh, label, rows⟩⟩
    · rw [rows, single]
      exact ih emitted
    · rw [rows, key]
      simp only [if_pos known]
      exact ih emitted
    · rw [rows, key, groupsOf_append, groupRows_group]
      simp only [if_neg fresh]
      exact congrArg (cons k) (ih (k :: emitted))

/-- Each group is made of all the entries of its key. -/
theorem foldRows_made (all es : List (Entry η)) (emitted : List String) {g : Group η}
    (member : g ∈ groupsOf (foldRows l options expandedKeys autoExpand all emitted es)) :
    ∃ label, g = foldGroup l options g.key label (all.filter fun e => keyed options e = some g.key)
      (autoExpand || g.key ∈ expandedKeys) := by
  induction es generalizing emitted with
  | nil => cases member
  | cons e rest ih =>
    rcases @foldRows_cons _ _ _ l options expandedKeys autoExpand all rest emitted e with
      ⟨single, rows⟩ | ⟨k, key, ⟨known, rows⟩ | ⟨fresh, label, rows⟩⟩
    · rw [rows] at member
      exact ih emitted member
    · rw [rows] at member
      exact ih emitted member
    · rw [rows, groupsOf_append, groupRows_group] at member
      cases mem_append.mp member with
      | inl own =>
        rw [mem_singleton.mp own]
        exact ⟨label, rfl⟩
      | inr later => exact ih (k :: emitted) later

end Conservation

section Kept
variable {η κ : Type} [LinearOrder κ] {l : Locale κ} {options : FoldOptions η}
  {expandedKeys : List String} {autoExpand : Bool} {entries : List (Entry η)}

theorem foldedKey_spec {all : List (Entry η)} {e : Entry η} {k : String} :
    foldedKey options all e = some k ↔
      keyed options e = some k ∧ 2 ≤ (all.filter fun e => keyed options e = some k).length := by
  rw [foldedKey, Option.filter_eq_some_iff]
  simp

/-- A group of the rows, all the entries of its key. -/
theorem group_spec {g : Group η} (member : g ∈ groupsOf (foldAppGroups l options expandedKeys autoExpand entries)) :
    (∃ label, g = foldGroup l options g.key label (entries.filter fun e => keyed options e = some g.key)
        (autoExpand || g.key ∈ expandedKeys)) ∧
      ∃ e ∈ entries, foldedKey options entries e = some g.key := by
  have listed : g.key ∈ freshKeys options entries [] entries := by
    rw [← @foldRows_keys _ _ _ l options expandedKeys autoExpand]
    exact mem_map_of_mem member
  exact ⟨foldRows_made entries entries [] member, (mem_freshKeys.mp listed).2⟩

theorem group_of_key {k : String} {e : Entry η} (member : e ∈ entries)
    (folded : foldedKey options entries e = some k) :
    ∃ g ∈ groupsOf (foldAppGroups l options expandedKeys autoExpand entries), g.key = k := by
  have listed : k ∈ freshKeys options entries [] entries :=
    mem_freshKeys.mpr ⟨not_mem_nil, e, member, folded⟩
  rw [← @foldRows_keys _ _ _ l options expandedKeys autoExpand] at listed
  exact mem_map.mp listed

theorem groups_once :
    ((groupsOf (foldAppGroups l options expandedKeys autoExpand entries)).map Group.key).Nodup := by
  rw [foldAppGroups, foldRows_keys]
  exact freshKeys_nodup entries entries []

theorem rows_represent :
    ((foldAppGroups l options expandedKeys autoExpand entries).flatMap represents).Perm entries := by
  have keys : ∀ k ∈ freshKeys options entries [] entries,
      (entries.filter fun e => keyed options e = some k) =
        (entries.filter fun e => (foldedKey options entries e).isSome).filter fun e =>
          foldedKey options entries e = some k := by
    intro k listed
    obtain ⟨_, e, _, folded⟩ := mem_freshKeys.mp listed
    have many := (foldedKey_spec.mp folded).2
    rw [filter_filter]
    apply filter_congr
    intro e' _
    by_cases own : keyed options e' = some k
    · have folded' := foldedKey_spec.mpr ⟨own, many⟩
      simp [own, folded']
    · have other : foldedKey options entries e' ≠ some k := fun same => own (foldedKey_spec.mp same).1
      simp [own, other]
  have blocks : (((freshKeys options entries [] entries).map some).map fun k =>
      (entries.filter fun e => (foldedKey options entries e).isSome).filter fun e =>
        decide (foldedKey options entries e = k)).flatten.Perm
      (entries.filter fun e => (foldedKey options entries e).isSome) := by
    apply Partition.sorted_by_key_perm
    · exact (freshKeys_nodup entries entries []).map (Option.some_injective _)
    · intro e member
      obtain ⟨inside, some_⟩ := mem_filter.mp member
      obtain ⟨k, folded⟩ := Option.isSome_iff_exists.mp some_
      rw [folded]
      exact mem_map_of_mem (mem_freshKeys.mpr ⟨not_mem_nil, e, inside, folded⟩)
  have joined : ((freshKeys options entries [] entries).flatMap fun k =>
      entries.filter fun e => keyed options e = some k).Perm
      (entries.filter fun e => (foldedKey options entries e).isSome) := by
    rw [map_map] at blocks
    rw [flatMap_def, map_congr_left keys]
    exact blocks
  refine (foldRows_represent entries entries []).trans ((joined.append_left _).trans ?_)
  have parts := filter_append_perm (fun e => (foldedKey options entries e).isNone) entries
  simpa using parts

theorem tally_members {κ' : Type} [DecidableEq κ'] (part : Entry η → List (κ' × Int)) (members : List (Entry η))
    (start : List (κ' × Int)) (k : κ') :
    WriteMap.amount (members.foldl (fun m e => WriteMap.addAll m (part e)) start) k =
      WriteMap.amount start k + (members.map fun m => WriteMap.total (part m) k).sum := by
  induction members generalizing start with
  | nil => simp
  | cons m rest ih =>
    rw [foldl_cons, ih, WriteMap.amount_addAll, map_cons, sum_cons, add_assoc]

theorem composition_total (members : List (Entry η)) {cls : AppWorkloadClass} (listed : cls ≠ .mixed) :
    WriteMap.total (compositionOf members) cls = WriteMap.amount (compMap members) cls := by
  have single : ∀ c : AppWorkloadClass, WriteMap.total (((compMap members).lookup c).map fun count => (c, count)).toList
      cls = if cls = c then WriteMap.amount (compMap members) c else 0 := by
    intro c
    unfold WriteMap.amount
    cases (compMap members).lookup c with
    | none => simp [WriteMap.total]
    | some count =>
      rw [Option.map_some, Option.toList_some, WriteMap.total_cons]
      simp [WriteMap.total]
  have whole : compositionOf members = classOrder.flatMap fun c =>
      (((compMap members).lookup c).map fun count => (c, count)).toList :=
    filterMap_eq_flatMap_toList _ _
  rw [whole, classOrder]
  simp only [flatMap_cons, flatMap_nil, WriteMap.total_append, single]
  cases cls with
  | mixed => exact absurd rfl listed
  | _ => simp [WriteMap.total]

theorem foldGroup_sums (k label : String) (members : List (Entry η)) (expanded : Bool) :
    Sums (foldGroup l options k label members expanded) where
  ready := rfl
  desired := rfl
  kinds := by
    intro kind
    have counted := tally_members Entry.kinds members [] kind
    rwa [WriteMap.amount_nil, zero_add] at counted
  classes := by
    intro cls listed
    have counted := tally_members Entry.classComposition members [] cls
    rw [WriteMap.amount_nil, zero_add] at counted
    exact (composition_total members listed).trans counted

/-- Every entry is in the rows once, with those of its key. -/
theorem fold_conserves (entries : List (Entry η)) :
    Conserved options entries (foldAppGroups l options expandedKeys autoExpand entries) where
  represented := rows_represent
  once := groups_once
  sums := by
    intro g member
    obtain ⟨⟨label, made⟩, _⟩ := group_spec member
    rw [made]
    exact foldGroup_sums _ _ _ _
  together := by
    intro a first b second differ
    constructor
    · rintro ⟨g, member, inside, inside'⟩
      obtain ⟨⟨label, made⟩, _⟩ := group_spec member
      rw [made] at inside inside'
      have own := keyed_iff.mp (of_decide_eq_true (mem_filter.mp inside).2)
      have own' := keyed_iff.mp (of_decide_eq_true (mem_filter.mp inside').2)
      exact ⟨g.key, own.1, own.2, own'.2⟩
    · rintro ⟨k, some_, key, key'⟩
      have own := keyed_iff.mpr ⟨some_, key⟩
      have own' := keyed_iff.mpr ⟨some_, key'⟩
      have both : ∀ e ∈ [a, b], e ∈ entries.filter fun e => keyed options e = some k := by
        intro e listed
        simp only [mem_cons, not_mem_nil, or_false] at listed
        rcases listed with rfl | rfl
        · exact mem_filter.mpr ⟨first, decide_eq_true own⟩
        · exact mem_filter.mpr ⟨second, decide_eq_true own'⟩
      have distinct : [a, b].Nodup := by simp [differ]
      have many := (distinct.subperm both).length_le
      obtain ⟨g, member, rfl⟩ := @group_of_key _ _ _ l options expandedKeys autoExpand entries k a first
        (foldedKey_spec.mpr ⟨own, many⟩)
      obtain ⟨⟨label, made⟩, _⟩ := group_spec member
      refine ⟨g, member, ?_⟩
      rw [made]
      exact ⟨both a (by simp), both b (by simp)⟩

end Kept

section Leaders
variable {η : Type}

def newerThan (a b : String) : Bool := compareVersions (some a) (some b) = some 1

theorem newer_strict : Selection.Strict newerThan where
  asymm := by
    intro x y first
    exact decide_eq_false (newer_asymm (of_decide_eq_true first))
  trans := by
    intro x y z first second
    exact decide_eq_true (newer_trans (of_decide_eq_true first) (of_decide_eq_true second))

theorem newer_irrefl (x : String) : newerThan x x = false := by
  rw [Bool.eq_false_iff]
  intro itself
  have other := newer_strict.asymm x x itself
  rw [itself] at other
  cases other

/-- The first version that no later one is newer than, as the loops come by it. -/
def leader (vs : List String) : Option String := Selection.winner newerThan id vs

theorem settled_iff (vs : List String) : Settled vs ↔ vs = [] ∨ ∃ x, Selection.Top newerThan vs x := by
  simp only [Settled, Selection.Top, newerThan, decide_eq_true_eq]

theorem empty_older (best : Option String) : compareVersions (some "") best ≠ some 1 := by
  rw [compare_keys]
  intro more
  change compareKeys Key.none (keyOf best) = some 1 at more
  cases held : keyOf best with
  | none => rw [held] at more; cases more
  | dated _ _ => rw [held] at more; cases more
  | parts _ => rw [held] at more; cases more

theorem truthy_some {v : String} (some_ : v ≠ "") : truthy (some v) = some v := by
  rw [truthy, Option.filter_some, if_pos (decide_eq_true some_)]

theorem truthy_spec {v : Option String} {x : String} : truthy v = some x ↔ v = some x ∧ x ≠ "" := by
  rw [truthy, Option.filter_eq_some_iff]
  simp

theorem leader_concat (vs : List String) (v : String) :
    leader (vs ++ [v]) = some ((leader vs).elim v fun held => if newerThan v held then v else held) :=
  Selection.winner_concat newerThan vs v

/-- A loop that takes a version for the held one, where it is a version and newer. -/
theorem step_leads {best : Option String} {vs : List String} {v : String} (held : truthy best = leader vs)
    (some_ : v ≠ "") : truthy (if newer v best then some v else best) = leader (vs ++ [v]) := by
  rw [leader_concat, ← held, newer]
  cases now : truthy best with
  | none => exact truthy_some some_
  | some b =>
    obtain ⟨rfl, some_'⟩ := truthy_spec.mp now
    by_cases more : compareVersions (some v) (some b) = some 1
    · simp [more, newerThan, truthy_some some_]
    · simp [more, newerThan, truthy_some some_']

theorem empty_skipped (best : Option String) :
    truthy (if newer "" best then some "" else best) = truthy best := by
  unfold newer
  cases now : truthy best with
  | none => rfl
  | some b =>
    rw [if_neg (by simp [empty_older])]
    exact now

theorem fold_leads {best : Option String} {held : List String} (now : truthy best = leader held)
    (vs : List String) : truthy (vs.foldl (fun best v => if newer v best then some v else best) best) =
      leader (held ++ vs.filter (· ≠ "")) := by
  induction vs generalizing best held with
  | nil =>
    rw [filter_nil, append_nil]
    exact now
  | cons v rest ih =>
    rw [foldl_cons]
    by_cases some_ : v = ""
    · subst some_
      exact ih ((empty_skipped best).trans now)
    · rw [filter_cons_of_pos (by simpa using some_), append_cons]
      exact ih (step_leads now some_)

theorem fold_some (vs : List String) {best : Option String} (held : best.isSome) :
    (vs.foldl (fun best v => if newer v best then some v else best) best).isSome := by
  induction vs generalizing best with
  | nil => exact held
  | cons v rest ih =>
    rw [foldl_cons]
    apply ih
    split
    · rfl
    · exact held

theorem newest_leads (e : Entry η) : truthy (newest e) = leader (candidates e) := by
  have led := @fold_leads none [] rfl e.versions
  unfold newest candidates
  cases versions : e.versions with
  | nil =>
    cases app : e.appVersion with
    | none => rfl
    | some v =>
      by_cases some_ : v = ""
      · subst some_
        rfl
      · simp [truthy_some some_, leader, Selection.winner, Selection.select, some_]
  | cons v rest =>
    rw [versions] at led
    have some_ := @fold_some rest (if newer v none then some v else none) rfl
    obtain ⟨best, found⟩ := Option.isSome_iff_exists.mp some_
    rw [foldl_cons, found] at led ⊢
    exact led

theorem leader_mem {vs : List String} {x : String} (leads : leader vs = some x) : x ∈ vs :=
  Selection.winner_mem leads

theorem leader_twice (v : String) (vs : List String) : leader (v :: v :: vs) = leader (v :: vs) := by
  simp [leader, Selection.winner, Selection.select, newer_irrefl]

end Leaders

section Cells
variable {η κ : Type} [LinearOrder κ] {l : Locale κ} {options : FoldOptions η}

def worst (hs : List AppHealth) : AppHealth := hs.foldl (fun held h => worse h held) .unknown

def levelsAt (options : FoldOptions η) (members : List (Entry η)) (env : String) : List AppHealth :=
  members.flatMap fun m => ((slicesOf options m).filter fun slice => slice.env = env).map Slice.health

def versionsAt (options : FoldOptions η) (members : List (Entry η)) (env : String) : List String :=
  members.flatMap fun m =>
    ((slicesOf options m).filter fun slice => slice.env = env).filterMap fun _ => leader (candidates m)

theorem worse_self (h : AppHealth) : worse h h = h := by cases h <;> rfl

theorem worse_unknown (h : AppHealth) : worse h .unknown = h := by cases h <;> rfl

theorem worse_assoc (a b c : AppHealth) : worse a (worse b c) = worse b (worse a c) := by
  cases a <;> cases b <;> cases c <;> rfl

theorem worst_perm {hs hs' : List AppHealth} (perm : hs.Perm hs') : worst hs = worst hs' := by
  have comm : RightCommutative fun held h : AppHealth => worse h held := ⟨fun a b c => worse_assoc c b a⟩
  exact perm.foldl_eq _

theorem fold_counts (hs : List Hit) (c : EnvCell) :
    (hs.foldl cellFolding.add c).count = c.count + hs.length := by
  induction hs generalizing c with
  | nil => rfl
  | cons h rest ih =>
    rw [foldl_cons, ih, length_cons]
    change c.count + 1 + rest.length = _
    omega

theorem fold_levels (hs : List Hit) (c : EnvCell) : (hs.foldl cellFolding.add c).health =
    (hs.map Hit.health).foldl (fun held h => worse h held) c.health := by
  induction hs generalizing c with
  | nil => rfl
  | cons h rest ih =>
    rw [foldl_cons, ih]
    rfl

theorem fold_versions (hs : List Hit) {c : EnvCell} {held : List String} (now : truthy c.version = leader held) :
    truthy (hs.foldl cellFolding.add c).version =
      leader (held ++ hs.filterMap fun h => truthy h.version) := by
  induction hs generalizing c held with
  | nil =>
    rw [filterMap_nil, append_nil]
    exact now
  | cons h rest ih =>
    rw [foldl_cons, filterMap_cons]
    cases version : truthy h.version with
    | none =>
      apply ih
      simp only [cellFolding, version]
      exact now
    | some v =>
      simp only
      rw [append_cons]
      apply ih
      simp only [cellFolding, version]
      exact step_leads now (truthy_spec.mp version).2

theorem hits_levels (members : List (Entry η)) (env : String) :
    ((members.flatMap (hitsOf options)).filter fun h => h.env = env).map Hit.health =
      levelsAt options members env := by
  rw [filter_flatMap, map_flatMap, levelsAt]
  simp only [hitsOf, filter_map, map_map]
  rfl

theorem hits_versions (members : List (Entry η)) (env : String) :
    ((members.flatMap (hitsOf options)).filter fun h => h.env = env).filterMap (fun h => truthy h.version) =
      versionsAt options members env := by
  rw [filter_flatMap, filterMap_flatMap, versionsAt]
  simp only [hitsOf, filter_map, filterMap_map]
  apply flatMap_congr
  intro m _
  apply filterMap_congr
  intro slice _
  exact newest_leads m

/-- A cell is what the slices of its environment come to. -/
theorem cell_spec {members : List (Entry η)} {c : EnvCell} (member : c ∈ cellMap options members) :
    shown c = (c.env, worst (levelsAt options members c.env), leader (versionsAt options members c.env),
      (levelsAt options members c.env).length) := by
  obtain ⟨h, rest, listed, made⟩ := (KeyedFold.gather_spec (F := cellFolding) _).2.2 c member
  change (flatMap (hitsOf options) members).filter (fun h => h.env = c.env) = h :: rest at listed
  change c = ((flatMap (hitsOf options) members).filter fun h => h.env = c.env).foldl cellFolding.add
    (cellFolding.start h) at made
  rw [← hits_levels, ← hits_versions, length_map, listed]
  rw [listed] at made
  have count : c.count = (h :: rest).length := by
    rw [made, fold_counts]
    exact Nat.zero_add _
  have health : c.health = worst ((h :: rest).map Hit.health) := by
    rw [made, fold_levels, worst, map_cons, foldl_cons, foldl_cons, worse_unknown]
    exact congrArg (fun held => (rest.map Hit.health).foldl (fun held h => worse h held) held)
      (worse_self h.health)
  have version : truthy c.version = leader ((h :: rest).filterMap fun h => truthy h.version) := by
    cases first : truthy h.version with
    | none =>
      rw [made]
      exact @fold_versions (h :: rest) (cellFolding.start h) [] first
    | some v =>
      have led : truthy (cellFolding.start h).version = leader [v] := first
      rw [congrArg EnvCell.version made, fold_versions _ led, filterMap_cons, first]
      exact leader_twice v _
  rw [shown, count, health, version]

theorem envs_nodup (members : List (Entry η)) : ((cellMap options members).map EnvCell.env).Nodup :=
  (KeyedFold.gather_spec (F := cellFolding) _).1

theorem mem_envs {members : List (Entry η)} :
    env ∈ (cellMap options members).map EnvCell.env ↔ ∃ m ∈ members, inEnv options env m := by
  have keys := (KeyedFold.gather_spec (F := cellFolding) (members.flatMap (hitsOf options))).2.1 env
  refine Iff.trans keys ?_
  simp [cellFolding, hitsOf, inEnv, and_assoc]

theorem envCells_perm (members : List (Entry η)) : (envCells l options members).Perm (cellMap options members) := by
  have whole : ((cellMap options members).map EnvCell.env).filterMap
      (fun env => (cellMap options members).find? fun c => c.env = env) = cellMap options members := by
    have found : ∀ c ∈ cellMap options members,
        ((cellMap options members).find? fun d => d.env = c.env) = some c := by
      intro c member
      apply find?_eq_some_iff_append.mpr
      refine ⟨by simp, ?_⟩
      obtain ⟨front, back, split⟩ := append_of_mem member
      refine ⟨front, back, split, fun d inside => ?_⟩
      have distinct := @envs_nodup _ options members
      rw [split, map_append, nodup_append] at distinct
      simpa using distinct.2.2 d.env (mem_map_of_mem inside) c.env (by simp)
    rw [filterMap_map]
    exact (filterMap_congr found).trans filterMap_some
  have sorted := (Arrange.sort_perm (envBefore l) ((cellMap options members).map EnvCell.env)).filterMap
    fun env => (cellMap options members).find? fun c => c.env = env
  rw [whole] at sorted
  exact sorted

theorem envCells_envs (members : List (Entry η)) : (envCells l options members).map EnvCell.env =
    orderEnvs l ((cellMap options members).map EnvCell.env) := by
  have found : ∀ env ∈ orderEnvs l ((cellMap options members).map EnvCell.env),
      ((cellMap options members).find? fun c => c.env = env).map EnvCell.env = some env := by
    intro env member
    have listed := (Arrange.sort_perm (envBefore l) _).mem_iff.mp member
    obtain ⟨c, inside, own⟩ := mem_map.mp listed
    cases found : (cellMap options members).find? fun c => c.env = env with
    | none => exact absurd own (by simpa using find?_eq_none.mp found c inside)
    | some d => simpa using find?_some found
  rw [envCells, map_filterMap]
  exact (filterMap_congr found).trans filterMap_some

omit [LinearOrder κ] in
theorem envRank_lt {r : Nat} (ranked_ : envRank l env = some r) : r < 3 := by
  unfold envRank at ranked_
  split at ranked_
  · cases ranked_
  · simp only [lookup_cons] at ranked_
    repeat' split at ranked_
    all_goals cases ranked_
    all_goals omega

theorem env_ranks : Selection.Ranks (envBefore l) (envOrder l) := by
  intro a b
  unfold envBefore envOrder
  cases rank : envRank l a with
  | some ra =>
    have small := envRank_lt rank
    cases rank' : envRank l b with
    | some rb => simp [Prod.Lex.toLex_lt_toLex]
    | none => simp [Prod.Lex.toLex_lt_toLex, small]
  | none =>
    cases rank' : envRank l b with
    | some rb =>
      have small := envRank_lt rank'
      simp only [Prod.Lex.toLex_lt_toLex, Bool.false_eq_true, false_iff]
      omega
    | none => simp [Prod.Lex.toLex_lt_toLex]

theorem envCells_ordered (members : List (Entry η)) :
    ((envCells l options members).map EnvCell.env).Pairwise fun a b => envOrder l a ≤ envOrder l b := by
  rw [envCells_envs]
  exact Arrange.sort_ordered env_ranks _

end Cells

section Reordering
variable {η κ : Type} [LinearOrder κ] {l : Locale κ} {options : FoldOptions η} {xs ys : List (Entry η)}
variable {e e' : Entry η}

theorem shuffled_refl (e : Entry η) : Shuffled e e := ⟨e.versions, List.Perm.refl _, rfl⟩

theorem shuffled_slices (shuffled : Shuffled e e') : slicesOf options e' = slicesOf options e := by
  obtain ⟨vs, _, rfl⟩ := shuffled
  rfl

theorem shuffled_keyed (shuffled : Shuffled e e') : keyed options e' = keyed options e := by
  obtain ⟨vs, _, rfl⟩ := shuffled
  rfl

theorem shuffled_candidates (shuffled : Shuffled e e') : (candidates e').Perm (candidates e) := by
  obtain ⟨vs, perm, rfl⟩ := shuffled
  unfold candidates
  have empty : vs = [] ↔ e.versions = [] :=
    ⟨fun none => nil_perm.mp (none ▸ perm), fun none => perm_nil.mp (none ▸ perm)⟩
  by_cases none : e.versions = []
  · rw [if_pos none, if_pos (empty.mpr none)]
  · rw [if_neg none, if_neg fun none' => none (empty.mp none')]
    exact perm.filter _

/-- What is read of the entries one by one comes in another order. -/
theorem reordered_flatMap {β : Type} (reordered : Reordered xs ys) {f : Entry η → List β}
    (kept : ∀ e e', Shuffled e e' → (f e').Perm (f e)) : (ys.flatMap f).Perm (xs.flatMap f) := by
  obtain ⟨zs, perm, all⟩ := reordered
  refine List.Perm.trans ?_ (perm.flatMap_right f)
  clear perm
  induction all with
  | nil => exact List.Perm.refl _
  | cons first _ ih => exact (kept _ _ first).append ih

theorem reordered_filter (reordered : Reordered xs ys) {p : Entry η → Bool}
    (kept : ∀ e e', Shuffled e e' → p e' = p e) : Reordered (xs.filter p) (ys.filter p) := by
  obtain ⟨zs, perm, all⟩ := reordered
  refine ⟨zs.filter p, perm.filter p, ?_⟩
  clear perm
  induction all with
  | nil => exact .nil
  | @cons e e' _ _ first _ ih =>
    rw [filter_cons, filter_cons, kept e e' first]
    split
    · exact .cons first ih
    · exact ih

theorem reordered_length (reordered : Reordered xs ys) : ys.length = xs.length := by
  obtain ⟨zs, perm, all⟩ := reordered
  exact all.length_eq.symm.trans perm.length_eq

/-- One entry first, with one of its versions first. -/
theorem reordered_front {m : Entry η} (member : m ∈ xs) {y : String} (candidate : y ∈ candidates m) :
    ∃ m' rest more, Shuffled m m' ∧ candidates m' = y :: more ∧ Reordered xs (m' :: rest) := by
  obtain ⟨rest, perm⟩ := Selection.exists_front member
  have same : List.Forall₂ Shuffled rest rest := forall₂_same.mpr fun e _ => shuffled_refl e
  have inside := (mem_filter.mp candidate).1
  have some_ : y ≠ "" := of_decide_eq_true (mem_filter.mp candidate).2
  by_cases none : m.versions = []
  · rw [if_pos none] at inside
    have app := Option.mem_toList.mp inside
    refine ⟨m, rest, [], shuffled_refl m, ?_, m :: rest, perm, .cons (shuffled_refl m) same⟩
    rw [candidates, if_pos none, app, Option.toList_some]
    exact filter_cons_of_pos (decide_eq_true some_)
  · rw [if_neg none] at inside
    obtain ⟨others, perm'⟩ := Selection.exists_front inside
    have shuffled : Shuffled m { m with versions := y :: others } := ⟨_, perm', rfl⟩
    refine ⟨_, rest, others.filter (· ≠ ""), shuffled, ?_, m :: rest, perm, .cons shuffled same⟩
    rw [candidates, if_neg (cons_ne_nil y others)]
    exact filter_cons_of_pos (decide_eq_true some_)

theorem levels_perm (reordered : Reordered xs ys) (env : String) :
    (levelsAt options ys env).Perm (levelsAt options xs env) := by
  apply reordered_flatMap reordered
  intro e e' shuffled
  rw [shuffled_slices shuffled]

theorem candidates_perm (reordered : Reordered xs ys) (env : String) :
    (candidatesAt options ys env).Perm (candidatesAt options xs env) := by
  have inside := reordered_filter reordered (p := inEnv options env) fun e e' shuffled => by
    rw [inEnv, shuffled_slices shuffled, inEnv]
  exact reordered_flatMap inside fun e e' => shuffled_candidates

theorem envs_perm (reordered : Reordered xs ys) :
    ((cellMap options ys).map EnvCell.env).Perm ((cellMap options xs).map EnvCell.env) := by
  refine (perm_ext_iff_of_nodup (envs_nodup ys) (envs_nodup xs)).mpr fun env => ?_
  have all := reordered_flatMap reordered (f := fun m => (slicesOf options m).map Slice.env)
    fun e e' shuffled => by rw [shuffled_slices shuffled]
  rw [mem_envs, mem_envs]
  simpa [inEnv] using all.mem_iff (a := env)

/-- The newest version is a candidate's, in whichever environment. -/
theorem mem_versions {members : List (Entry η)} {env v : String} :
    v ∈ versionsAt options members env ↔ ∃ m ∈ members, inEnv options env m ∧ leader (candidates m) = some v := by
  simp only [versionsAt, mem_flatMap, mem_filterMap, mem_filter, decide_eq_true_eq, inEnv,
    any_eq_true]
  constructor
  · rintro ⟨m, member, slice, inside, leads⟩
    exact ⟨m, member, ⟨slice, inside⟩, leads⟩
  · rintro ⟨m, member, ⟨slice, inside⟩, leads⟩
    exact ⟨m, member, slice, inside, leads⟩

theorem mem_candidates {members : List (Entry η)} {env v : String} :
    v ∈ candidatesAt options members env ↔ ∃ m ∈ members, inEnv options env m ∧ v ∈ candidates m := by
  simp [candidatesAt, and_assoc]

/-- Of a version newer than all others nothing is missed. -/
theorem leads_top {members : List (Entry η)} {env x : String}
    (top : Selection.Top newerThan (candidatesAt options members env) x) :
    leader (versionsAt options members env) = some x := by
  obtain ⟨m, member, inside, own⟩ := mem_candidates.mp top.1
  have led : leader (candidates m) = some x := Selection.winner_top newer_strict ⟨own, fun y other =>
      top.2 y (mem_candidates.mpr ⟨m, member, inside, other⟩)⟩
  apply Selection.winner_top newer_strict
  refine ⟨mem_versions.mpr ⟨m, member, inside, led⟩, fun y other => ?_⟩
  obtain ⟨m', member', inside', led'⟩ := mem_versions.mp other
  exact top.2 y (mem_candidates.mpr ⟨m', member', inside', leader_mem led'⟩)

theorem leads_none {members : List (Entry η)} (none : candidatesAt options members env = []) :
    leader (versionsAt options members env) = Option.none := by
  have empty : versionsAt options members env = [] := by
    apply eq_nil_iff_forall_not_mem.mpr
    intro v listed
    obtain ⟨m, member, inside, led⟩ := mem_versions.mp listed
    have candidate := mem_candidates.mpr ⟨m, member, inside, leader_mem led⟩
    rw [none] at candidate
    exact not_mem_nil candidate
  rw [empty]
  rfl

theorem leads_settled (reordered : Reordered xs ys) (settled : Settled (candidatesAt options xs env)) :
    leader (versionsAt options ys env) = leader (versionsAt options xs env) := by
  have perm := @candidates_perm _ options _ _ reordered env
  rcases (settled_iff _).mp settled with none | ⟨x, top⟩
  · rw [leads_none none, leads_none (perm_nil.mp (none ▸ perm))]
  · have top' : Selection.Top newerThan (candidatesAt options ys env) x :=
      ⟨perm.mem_iff.mpr top.1, fun y other => top.2 y (perm.mem_iff.mp other)⟩
    rw [leads_top top, leads_top top']

end Reordering

section Twin
variable {η κ : Type} [LinearOrder κ] {l : Locale κ} {options : FoldOptions η}
  {xs ys : List (Entry η)}

/-- What a cell shows, by its environment. -/
def shownAt (options : FoldOptions η) (members : List (Entry η)) (env : String) :
    String × AppHealth × Option String × Nat :=
  (env, worst (levelsAt options members env), leader (versionsAt options members env),
    (levelsAt options members env).length)

theorem cells_shown {members : List (Entry η)} {c : EnvCell} (member : c ∈ envCells l options members) :
    shown c = shownAt options members c.env := cell_spec ((envCells_perm members).mem_iff.mp member)

theorem cells_face (reordered : Reordered xs ys) :
    ((envCells l options ys).map face).Perm ((envCells l options xs).map face) := by
  have faces : ∀ members : List (Entry η), (envCells l options members).map face =
      ((envCells l options members).map EnvCell.env).map fun env =>
        (env, worst (levelsAt options members env), (levelsAt options members env).length) := by
    intro members
    rw [map_map]
    apply map_congr_left
    intro c member
    have spec := cells_shown member
    simp only [shown, shownAt, Prod.mk.injEq] at spec
    simp [face, spec]
  have same : ∀ env, (env, worst (levelsAt options ys env), (levelsAt options ys env).length) =
      (env, worst (levelsAt options xs env), (levelsAt options xs env).length) := by
    intro env
    have perm := @levels_perm _ options _ _ reordered env
    rw [worst_perm perm, perm.length_eq]
  have envs : ∀ members : List (Entry η), ((envCells l options members).map EnvCell.env).Perm
      ((cellMap options members).map EnvCell.env) := fun members => (envCells_perm members).map _
  rw [faces, faces]
  simp only [same]
  exact ((envs ys).trans ((envs_perm reordered).trans (envs xs).symm)).map _

/-- Cells of environments apart from each other come in one order, with settled versions alike. -/
theorem cells_alike (reordered : Reordered xs ys) (p : String → Bool)
    (settled : ∀ c ∈ (envCells l options xs).filter fun c => p c.env, Settled (candidatesAt options xs c.env))
    (apart : Apart l (((envCells l options xs).filter fun c => p c.env).map EnvCell.env)) :
    ((envCells l options ys).filter fun c => p c.env).map shown =
      ((envCells l options xs).filter fun c => p c.env).map shown := by
  have filtered : ∀ cells : List EnvCell, (cells.filter fun c => p c.env).map EnvCell.env =
      (cells.map EnvCell.env).filter p := by
    intro cells
    rw [filter_map]
    rfl
  have perm : ((envCells l options ys).map EnvCell.env).Perm ((envCells l options xs).map EnvCell.env) :=
    ((envCells_perm ys).map _).trans ((envs_perm reordered).trans ((envCells_perm xs).map _).symm)
  have envs : ((envCells l options ys).filter fun c => p c.env).map EnvCell.env =
      ((envCells l options xs).filter fun c => p c.env).map EnvCell.env := by
    rw [filtered] at apart
    rw [filtered, filtered]
    have first : Arrange.Arranged (fun a b => envOrder l a ≤ envOrder l b)
        (((envCells l options xs).map EnvCell.env).filter p)
        (((envCells l options xs).map EnvCell.env).filter p) :=
      ⟨List.Perm.refl _, (envCells_ordered xs).filter p⟩
    have second : Arrange.Arranged (fun a b => envOrder l a ≤ envOrder l b)
        (((envCells l options xs).map EnvCell.env).filter p)
        (((envCells l options ys).map EnvCell.env).filter p) :=
      ⟨perm.filter p, (envCells_ordered ys).filter p⟩
    apply Arrange.arranged_unique _ second first
    intro a member b member' le le'
    exact apart a member b member' (le_antisymm le le')
  have faces : ∀ members : List (Entry η), ((envCells l options members).filter fun c => p c.env).map shown =
      (((envCells l options members).filter fun c => p c.env).map EnvCell.env).map
        (shownAt options members) := by
    intro members
    rw [map_map]
    apply map_congr_left
    intro c member
    exact cells_shown (mem_of_mem_filter member)
  rw [faces, faces, envs]
  apply map_congr_left
  intro env member
  obtain ⟨c, inside, rfl⟩ := mem_map.mp member
  have perm := @levels_perm _ options _ _ reordered c.env
  rw [shownAt, shownAt, worst_perm perm, perm.length_eq, leads_settled reordered (settled c inside)]

/-- A cell of environments with a rank, without the row it leads to. -/
def plain (p : EnvCell × Nat) : EnvCell × Nat := ({ p.1 with firstKey := "" }, p.2)

theorem lagFrom_plain (ps : List (EnvCell × Nat)) : lagFrom (ps.map plain) = lagFrom ps := by
  induction ps with
  | nil => rfl
  | cons p rest ih =>
    rw [map_cons, lagFrom, lagFrom, ih, find?_map]
    have alike : ((fun d : EnvCell × Nat => decide ((plain p).2 < d.2 ∧
        compareVersions (plain p).1.version d.1.version = some 1)) ∘ plain) =
        fun d : EnvCell × Nat => decide (p.2 < d.2 ∧ compareVersions p.1.version d.1.version = some 1) := rfl
    rw [alike]
    cases rest.find? fun d : EnvCell × Nat =>
      decide (p.2 < d.2 ∧ compareVersions p.1.version d.1.version = some 1) <;> rfl

def rankOf (l : Locale κ) (c : String × AppHealth × Option String × Nat) : Option (EnvCell × Nat) :=
  if c.2.2.1.isSome then (envRank l c.1).map fun rank => (⟨c.1, c.2.1, c.2.2.1, c.2.2.2, ""⟩, rank) else none

omit [LinearOrder κ] in
theorem ranked_plain (cells : List EnvCell) :
    (cells.filterMap fun c => if (truthy c.version).isSome then (envRank l c.env).map fun rank => (c, rank)
      else none).map plain = ((ranked l cells).map shown).filterMap (rankOf l) := by
  rw [map_filterMap, ranked, filterMap_map, filterMap_filter]
  apply filterMap_congr
  intro c _
  cases rank : envRank l c.env with
  | none => simp
  | some r =>
    cases version : truthy c.version with
    | none => simp [rankOf, shown, version]
    | some v =>
      have whole := (truthy_spec.mp version).1
      rw [whole] at version
      simp [rankOf, shown, plain, version, rank, whole]

omit [LinearOrder κ] in
/-- The message is told by what the ranked cells show. -/
theorem lag_shown {cells cells' : List EnvCell}
    (same : (ranked l cells).map shown = (ranked l cells').map shown) :
    appGroupLagMessage l cells = appGroupLagMessage l cells' := by
  have sorted : ∀ ps : List (EnvCell × Nat), (Arrange.sortStable (fun a b => a.2 < b.2) ps).map plain =
      Arrange.sortStable (fun a b => a.2 < b.2) (ps.map plain) := fun ps =>
    map_insertionSort _ _ plain ps fun a _ b _ => Iff.rfl
  unfold appGroupLagMessage
  simp only
  rw [← lagFrom_plain, sorted, ranked_plain, same, ← ranked_plain, ← sorted, lagFrom_plain]

end Twin

section Free
variable {η κ : Type} [LinearOrder κ] {l : Locale κ} {options : FoldOptions η}
  {expandedKeys : List String} {autoExpand : Bool} {entries : List (Entry η)}

/-- A twin is made of the same entries. -/
theorem twin_made {ys : List (Entry η)} {g g' : Group η}
    (member : g ∈ groupsOf (foldAppGroups l options expandedKeys autoExpand entries))
    (twins : Twins l options expandedKeys autoExpand entries ys g g') :
    ∃ members members', Reordered members members' ∧ g.members = members ∧
      members' = (ys.filter fun e => keyed options e = some g.key) ∧
      ∃ label label' expanded expanded', g = foldGroup l options g.key label members expanded ∧
        g' = foldGroup l options g.key label' members' expanded' := by
  obtain ⟨reordered, member', same⟩ := twins
  obtain ⟨⟨label, made⟩, _⟩ := group_spec member
  obtain ⟨⟨label', made'⟩, _⟩ := group_spec member'
  rw [same] at made'
  have inside := reordered_filter reordered (p := fun e => decide (keyed options e = some g.key))
    fun e e' shuffled => by rw [shuffled_keyed shuffled]
  exact ⟨_, _, inside, congrArg Group.members made, rfl, label, label', _, _, made, made'⟩

theorem twin_there {ys : List (Entry η)} {g : Group η}
    (member : g ∈ groupsOf (foldAppGroups l options expandedKeys autoExpand entries))
    (reordered : Reordered entries ys) : ∃ g', Twins l options expandedKeys autoExpand entries ys g g' := by
  obtain ⟨_, e, _, folded⟩ := group_spec member
  have many := (foldedKey_spec.mp folded).2
  have inside := reordered_filter reordered (p := fun e => decide (keyed options e = some g.key))
    fun e e' shuffled => by rw [shuffled_keyed shuffled]
  have length := reordered_length inside
  obtain ⟨e', listed⟩ : ∃ e', e' ∈ ys.filter fun e => decide (keyed options e = some g.key) :=
    exists_mem_of_length_pos (by omega)
  have key := of_decide_eq_true (mem_filter.mp listed).2
  obtain ⟨g', member', own⟩ := @group_of_key _ _ _ l options expandedKeys autoExpand ys g.key e'
    (mem_of_mem_filter listed) (foldedKey_spec.mpr ⟨key, by omega⟩)
  exact ⟨g', reordered, member', own⟩

theorem health_free {xs ys : List (Entry η)} (reordered : Reordered xs ys) :
    ys.foldl (fun health m => worse m.health health) .unknown =
      xs.foldl (fun health m => worse m.health health) .unknown := by
  have levels : ∀ members : List (Entry η), members.foldl (fun health m => worse m.health health) .unknown =
      worst (members.flatMap fun m => [m.health]) := by
    intro members
    rw [worst, ← map_eq_flatMap, foldl_map]
  rw [levels, levels]
  apply worst_perm
  apply reordered_flatMap reordered
  rintro e e' ⟨vs, _, rfl⟩
  exact List.Perm.refl _

/-- Where no version is newer than all others, one that the winner is not newer than can come first. -/
theorem unsettled_changes {members : List (Entry η)} (free : ∀ members', Reordered members members' →
      leader (versionsAt options members' env) = leader (versionsAt options members env)) :
    Settled (candidatesAt options members env) := by
  by_cases none : candidatesAt options members env = []
  · exact .inl none
  rw [settled_iff]
  obtain ⟨v, candidate⟩ := exists_mem_of_ne_nil _ none
  obtain ⟨m, member, inside, own⟩ := mem_candidates.mp candidate
  obtain ⟨w, led⟩ := @Selection.winner_some _ newerThan _ _ own
  obtain ⟨r, leads⟩ := @Selection.winner_some _ newerThan _ _
    (mem_versions.mpr ⟨m, member, inside, led⟩)
  have listed : r ∈ candidatesAt options members env := by
    obtain ⟨m', member', inside', led'⟩ := mem_versions.mp (leader_mem leads)
    exact mem_candidates.mpr ⟨m', member', inside', leader_mem led'⟩
  refine .inr ⟨r, listed, fun y other => ?_⟩
  obtain ⟨m', member', inside', own'⟩ := mem_candidates.mp other
  obtain ⟨e, rest, more, shuffled, first, reordered⟩ := reordered_front member' own'
  have same := free (e :: rest) reordered
  obtain ⟨t, led', beats⟩ := Selection.winner_first newer_strict y more
  have placed : ∃ later, versionsAt options (e :: rest) env = t :: later := by
    rw [inEnv, ← shuffled_slices shuffled, any_eq_true] at inside'
    obtain ⟨slice, at_, envs⟩ := inside'
    have kept : slice ∈ (slicesOf options e).filter fun slice => slice.env = env :=
      mem_filter.mpr ⟨at_, envs⟩
    obtain ⟨head, tail, split⟩ := exists_cons_of_ne_nil (ne_nil_of_mem kept)
    rw [← first] at led'
    change leader (candidates e) = some t at led'
    rw [versionsAt, flatMap_cons, split, filterMap_cons, led']
    exact ⟨_, rfl⟩
  obtain ⟨later, placed⟩ := placed
  obtain ⟨r', leads', beats'⟩ := Selection.winner_first newer_strict t later
  rw [placed] at same
  obtain rfl : r' = r := Option.some.inj (leads'.symm.trans (same.trans leads))
  cases beats with
  | inl own => exact own ▸ beats'.imp Eq.symm id
  | inr beats =>
    cases beats' with
    | inl own' => exact .inr (own' ▸ beats)
    | inr beats' => exact .inr (newer_strict.trans _ _ _ beats' beats)

end Free

section Settled
variable {η κ : Type} [LinearOrder κ] {l : Locale κ} {options : FoldOptions η}
  {expandedKeys : List String} {autoExpand : Bool} {entries : List (Entry η)}

/-- The entries in another order, those of a group among them, the rest as it was. -/
theorem reordered_part {p : Entry η → Bool} {zs : List (Entry η)} (part : Reordered (entries.filter p) zs)
    (kept : ∀ e e', Shuffled e e' → p e' = p e) :
    ∃ ys, Reordered entries ys ∧ ys.filter p = zs := by
  obtain ⟨ws, perm, all⟩ := part
  have inside : ∀ e ∈ zs, p e = true := by
    intro e member
    obtain ⟨e', member', shuffled⟩ := LockStep.partner_left all member
    rw [kept e' e shuffled]
    exact (mem_filter.mp (perm.mem_iff.mp member')).2
  have others : List.Forall₂ Shuffled (entries.filter fun e => !p e) (entries.filter fun e => !p e) :=
    forall₂_same.mpr fun e _ => shuffled_refl e
  refine ⟨zs ++ entries.filter fun e => !p e, ⟨ws ++ entries.filter fun e => !p e, ?_, ?_⟩, ?_⟩
  · exact (perm.append_right _).trans (filter_append_perm p entries)
  · exact rel_append all others
  · rw [filter_append, filter_eq_self.mpr inside, filter_filter]
    simp

theorem group_free {g : Group η}
    (member : g ∈ groupsOf (foldAppGroups l options expandedKeys autoExpand entries)) :
    OrderFree l options expandedKeys autoExpand entries g where
  there := fun ys reordered => twin_there member reordered
  level := by
    intro ys g' twins
    obtain ⟨members, members', reordered, _, _, label, label', _, _, made, made'⟩ := twin_made member twins
    rw [made, made']
    exact ⟨health_free reordered, cells_face reordered⟩
  version := by
    intro c inside
    obtain ⟨⟨label, made⟩, _⟩ := group_spec member
    constructor
    · intro free
      rw [congrArg Group.members made]
      apply unsettled_changes
      intro members' reordered
      obtain ⟨ys, whole, part⟩ := reordered_part reordered fun e e' shuffled => by
        rw [shuffled_keyed shuffled]
      obtain ⟨g', twins⟩ := twin_there member whole
      have alike := free ys g' twins
      obtain ⟨_, _, _, own, own', _, label', _, expanded', _, made'⟩ := twin_made member twins
      rw [own', part] at made'
      rw [congrArg Group.cells made'] at alike
      rw [congrArg Group.cells made] at inside
      obtain ⟨c', inside', same⟩ := mem_map.mp
        ((@cells_face _ _ _ l options _ _ reordered).mem_iff.mpr (mem_map_of_mem inside))
      have env : c'.env = c.env := congrArg Prod.fst same
      have version := alike c' inside' env
      have first := congrArg (fun p => p.2.2.1) (cells_shown inside)
      have second := congrArg (fun p => p.2.2.1) (cells_shown inside')
      rw [env] at second
      exact second.symm.trans (version.trans first)
    · intro settled ys g' twins c' inside' env
      obtain ⟨members, members', reordered, own, _, _, _, _, _, made, made'⟩ := twin_made member twins
      rw [congrArg Group.cells made] at inside
      rw [congrArg Group.cells made'] at inside'
      rw [own] at settled
      have first := congrArg (fun p => p.2.2.1) (cells_shown inside)
      have second := congrArg (fun p => p.2.2.1) (cells_shown inside')
      rw [env] at second
      exact second.trans ((leads_settled reordered settled).trans first.symm)
  cells := by
    intro settled apart ys g' twins
    obtain ⟨members, members', reordered, own, _, _, _, _, _, made, made'⟩ := twin_made member twins
    rw [congrArg Group.cells made] at settled apart
    rw [congrArg Group.cells made, congrArg Group.cells made']
    rw [own] at settled
    have alike := @cells_alike _ _ _ l options _ _ reordered (fun _ => true)
    simp only [filter_true] at alike
    exact alike settled apart
  lag := by
    intro settled apart ys g' twins
    obtain ⟨members, members', reordered, own, _, _, _, _, _, made, made'⟩ := twin_made member twins
    rw [congrArg Group.cells made] at settled apart
    rw [congrArg Group.lag made, congrArg Group.lag made']
    rw [own] at settled
    exact lag_shown (cells_alike reordered (fun env => (envRank l env).isSome) settled apart)

/-- What the fold keeps of its entries, and what it does not change with their order. -/
theorem fold_settled (l : Locale κ) (options : FoldOptions η) (expandedKeys : List String) (autoExpand : Bool)
    (entries : List (Entry η)) :
    Conserved options entries (foldAppGroups l options expandedKeys autoExpand entries) ∧
      ∀ g ∈ groupsOf (foldAppGroups l options expandedKeys autoExpand entries),
        OrderFree l options expandedKeys autoExpand entries g :=
  ⟨fold_conserves entries, fun _ member => group_free member⟩

end Settled

section Example

def plainLocale : Locale Nat where
  sortKey := fun _ => 0
  lowering := ⟨Char.toLower, toLower_ascii⟩

def deployed (rowKey version : String) : Entry Unit where
  rowKey := rowKey
  identity := some ⟨"shop", "prod", "high", false, none⟩
  appVersion := none
  health := .healthy
  versions := [version]
  ready := 1
  desired := 1
  kinds := [("Deployment", 1)]
  classComposition := [(.service, 1)]
  host := ()

def plainOptions : FoldOptions Unit := ⟨none, none⟩

def shopRows (entries : List (Entry Unit)) : List (String × List (Option String)) :=
  (groupsOf (foldAppGroups plainLocale plainOptions [] false entries)).map fun g =>
    (g.key, g.cells.map fun c => truthy c.version)

/-- Of two versions that do not compare the first to come is shown. -/
theorem first_version_shown : ¬ ∀ ys, Reordered [deployed "a" "main", deployed "b" "feature"] ys →
      ∀ g ∈ groupsOf (foldAppGroups plainLocale plainOptions [] false
        [deployed "a" "main", deployed "b" "feature"]),
      ∀ g', Twins plainLocale plainOptions [] false [deployed "a" "main", deployed "b" "feature"] ys g g' →
        g'.cells.map shown = g.cells.map shown := by
  intro all
  have first : shopRows [deployed "a" "main", deployed "b" "feature"] =
      [("shop", [some "main"])] := by decide +kernel
  have second : shopRows [deployed "b" "feature", deployed "a" "main"] =
      [("shop", [some "feature"])] := by decide +kernel
  obtain ⟨g, groups, row⟩ := map_eq_singleton_iff.mp first
  obtain ⟨g', groups', row'⟩ := map_eq_singleton_iff.mp second
  have swapped : Reordered [deployed "a" "main", deployed "b" "feature"]
      [deployed "b" "feature", deployed "a" "main"] :=
    ⟨_, List.Perm.swap _ _ _, forall₂_same.mpr fun e _ => shuffled_refl e⟩
  have key : g'.key = g.key := (congrArg Prod.fst row').trans (congrArg Prod.fst row).symm
  have same := all _ swapped g (by rw [groups]; simp) g' ⟨swapped, by rw [groups']; simp, key⟩
  have versions := congrArg (map fun p => p.2.2.1) same
  rw [map_map, map_map] at versions
  have told : [some "feature"] = [some "main"] :=
    (congrArg Prod.snd row').symm.trans (versions.trans (congrArg Prod.snd row))
  exact absurd told (by decide)

end Example

end AppGroups
