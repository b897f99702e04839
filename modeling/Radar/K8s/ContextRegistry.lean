import Mathlib.Data.Finset.Card
import Mathlib.Data.List.AList
import Radar.Base.GoText
import Std.Data.String.ToNat

/- internal/k8s/context_registry.go: contexts of several kubeconfig files under unique names. -/
namespace ContextRegistry
open GoText

structure ContextEntry where
  sourceFile : String
  inFileName : String
  deriving DecidableEq

/-- What the registry reads of a parsed kubeconfig: the names of its contexts. -/
structure Config where
  contexts : List String
  distinct : contexts.Nodup

/-- A path on disk: what stat says of it and, where it parses, what it holds. -/
inductive FileState where
  | missing
  | present (mtime : Int) (config : Option Config)

abbrev Disk := String → FileState

def Disk.loadFromFile (disk : Disk) (path : String) : Option Config := match disk path with
  | .missing => none
  | .present _ config => config

def Disk.stat (disk : Disk) (path : String) : Option Int := match disk path with
  | .missing => none
  | .present mtime _ => some mtime

abbrev Registry := AList fun _ : String => ContextEntry

abbrev FileConfigs := AList fun _ : String => Config

abbrev FileMtimes := AList fun _ : String => Int

section Label

/-- filepath.Base. -/
def base (path : List Char) : List Char := if path = [] then ['.']
  else
    match path.reverse.dropWhile fun c => c == '/' with
    | [] => ['/']
    | last => (last.takeWhile fun c => c != '/').reverse

/-- filepath.Ext. -/
def ext (path : List Char) : List Char := let last := path.reverse.takeWhile fun c => c != '/'
  if '.' ∈ last then '.' :: (last.takeWhile fun c => c != '.').reverse else []

def cleanStep (rooted : Bool) (stack : List (List Char)) (part : List Char) : List (List Char) :=
  if part = [] ∨ part = ['.'] then stack
  else if part = ['.', '.'] then
    match stack with
    | [] => if rooted then [] else [part]
    | top :: below => if top = ['.', '.'] then part :: stack else below
  else part :: stack

/-- filepath.Clean. -/
def clean (path : List Char) : List Char := let rooted := path.head? == some '/'
  let parts := ((path.splitOn '/').foldl (cleanStep rooted) []).reverse
  if rooted then '/' :: join '/' parts
  else if parts = [] then ['.']
  else join '/' parts

/-- filepath.Dir. -/
def dir (path : List Char) : List Char := clean (path.reverse.dropWhile fun c => c != '/').reverse

def trimSuffix (text suffix : List Char) : List Char :=
  if suffix.isSuffixOf text then text.take (text.length - suffix.length) else text

def trimPrefix (text : List Char) (lead : List Char) : List Char :=
  if lead.isPrefixOf text then text.drop lead.length else text

def kubeconfigSourceLabel (path : String) : String :=
  let name := trimSuffix (base path.toList) (ext path.toList)
  let parent := base (dir path.toList)
  if (name = "config".toList ∨ name = "kubeconfig".toList) ∧
      ¬ (parent = [] ∨ parent = ['.'] ∨ parent = ['/']) then
    String.ofList (trimPrefix parent ['.'])
  else String.ofList name

example : kubeconfigSourceLabel "/home/u/.kube-cluster-paris/config" = "kube-cluster-paris" := by
  decide +kernel

end Label

section Qualify

def numbered (name label : String) (i : Nat) : String := name ++ " (" ++ label ++ " #" ++ i.repr ++ ")"

/-- The loop over the numbers from `i` on, for so many rounds. -/
def qualifyFrom (registry : Registry) (name label : String) : Nat → Nat → Option String
  | 0, _ => none
  | rounds + 1, i =>
    if numbered name label i ∈ registry then qualifyFrom registry name label rounds (i + 1)
    else some (numbered name label i)

/-- The loop needs no more rounds than there are names in use, and one. -/
def qualifyContextName (registry : Registry) (name path : String) : String := if name ∉ registry then name
  else
    let label := kubeconfigSourceLabel path
    let qualified := name ++ " (" ++ label ++ ")"
    if qualified ∉ registry then qualified
    else (qualifyFrom registry name label (registry.keys.length + 1) 2).getD ""

end Qualify

/-- In which order one refresh ranges over the maps: over the files, over the names in use and over
    a file's contexts. -/
structure Visit where
  files : List String → List String
  names : List String → List String
  contexts : String → List String → List String
  allFiles : ∀ paths, (files paths).Perm paths
  allNames : ∀ names_, (names names_).Perm names_
  allContexts : ∀ path names_, (contexts path names_).Perm names_

structure State where
  registry : Registry
  fileConfigs : FileConfigs
  fileMtimes : FileMtimes

def addContext (path : String) (registry : Registry) (name : String) : Registry :=
  registry.insert (qualifyContextName registry name path) ⟨path, name⟩

def buildFile (disk : Disk) (visit : Visit) (built : Registry × FileConfigs) (path : String) :
    Registry × FileConfigs :=
  match disk.loadFromFile path with
  | none => built
  | some cfg =>
    ((visit.contexts path cfg.contexts).foldl (addContext path) built.1, built.2.insert path cfg)

def buildContextRegistry (disk : Disk) (visit : Visit) (paths : List String) : Registry × FileConfigs :=
  paths.foldl (buildFile disk visit) (∅, ∅)

def seedMtime (disk : Disk) (mtimes : FileMtimes) (path : String) : FileMtimes := match disk.stat path with
  | none => mtimes
  | some mtime => mtimes.insert path mtime

/-- No state without a context. -/
def setupIsolatedLoad (disk : Disk) (visit : Visit) (paths : List String) : Option State :=
  let built := buildContextRegistry disk visit paths
  if built.1.keys = [] then none
  else some ⟨built.1, built.2, paths.foldl (seedMtime disk) ∅⟩

/-- The names in use for a file. -/
def State.qNames (st : State) (visit : Visit) (path : String) : List String :=
  (visit.names st.registry.keys).filter fun qName =>
    (st.registry.lookup qName).any fun entry => decide (entry.sourceFile = path)

/-- The files some name stands for, and those stat was asked about. -/
def State.byFile (st : State) : List String :=
  (st.registry.entries.map (fun e => e.2.sourceFile) ++ st.fileMtimes.keys).dedup

def dropDead (live : List String) (registry : Registry) (qName : String) : Registry :=
  if ((registry.lookup qName).map ContextEntry.inFileName).getD "" ∈ live then registry
  else registry.erase qName

def addMissing (path : String) (qNames : List String) (registry : Registry) (name : String) : Registry :=
  if qNames.any fun qName => registry.lookup qName = some ⟨path, name⟩ then registry
  else addContext path registry name

/-- One file of a refresh, with the state at its beginning and the one so far; the flag says
    whether anything changed. -/
def refreshFile (old : State) (disk : Disk) (visit : Visit) (now : State × Bool) (path : String) :
    State × Bool :=
  let qNames := old.qNames visit path
  match disk.stat path with
  | none =>
    (⟨qNames.foldl (fun registry qName => registry.erase qName) now.1.registry,
      now.1.fileConfigs.erase path, now.1.fileMtimes.erase path⟩, true)
  | some mtime =>
    if old.fileMtimes.lookup path = some mtime then now
    else
      match disk.loadFromFile path with
      | none => now
      | some cfg =>
        let living := qNames.foldl (dropDead cfg.contexts) now.1.registry
        (⟨(visit.contexts path cfg.contexts).foldl (addMissing path qNames) living,
          now.1.fileConfigs.insert path cfg, now.1.fileMtimes.insert path mtime⟩, true)

def refreshContextRegistry (st : State) (disk : Disk) (visit : Visit) : State × Bool :=
  (visit.files st.byFile).foldl (refreshFile st disk visit) (st, false)

/-- GetAvailableContexts publishes what changed. -/
def State.refresh (st : State) (disk : Disk) (visit : Visit) : State :=
  let refreshed := refreshContextRegistry st disk visit
  if refreshed.2 then refreshed.1 else st

def run (st : State) (steps : List (Disk × Visit)) : State :=
  steps.foldl (fun st step => st.refresh step.1 step.2) st

section Fresh
variable {name label : String}

theorem numbered_inj : Function.Injective (numbered name label) := by
  intro i j same
  have chars := congrArg String.toList same
  simp only [numbered, String.toList_append, List.append_cancel_left_eq,
    List.append_cancel_right_eq] at chars
  exact Nat.repr_inj.mp (String.toList_inj.mp chars)

theorem qualify_from_free {registry : Registry} {rounds i : Nat}
    {qName : String} (found : qualifyFrom registry name label rounds i = some qName) :
    qName ∉ registry := by
  induction rounds generalizing i with
  | zero => exact absurd found (by simp [qualifyFrom])
  | succ rounds ih =>
    rw [qualifyFrom] at found
    by_cases taken : numbered name label i ∈ registry
    · rw [if_pos taken] at found
      exact ih found
    · rw [if_neg taken, Option.some.injEq] at found
      exact found ▸ taken

theorem qualify_from_none {registry : Registry} {rounds i : Nat}
    (stuck : qualifyFrom registry name label rounds i = none) :
    ∀ k < rounds, numbered name label (i + k) ∈ registry := by
  induction rounds generalizing i with
  | zero => simp
  | succ rounds ih =>
    rw [qualifyFrom] at stuck
    by_cases taken : numbered name label i ∈ registry
    · rw [if_pos taken] at stuck
      intro k below
      cases k with
      | zero => exact taken
      | succ k =>
        have later := ih stuck k (by omega)
        rwa [show i + 1 + k = i + (k + 1) by omega] at later
    · rw [if_neg taken] at stuck
      exact absurd stuck (by simp)

/-- More numbered names than names in use cannot all be taken. -/
theorem qualify_from_ends (registry : Registry) (name label : String) (i : Nat) :
    ∃ qName, qualifyFrom registry name label (registry.keys.length + 1) i = some qName := by
  cases ended : qualifyFrom registry name label (registry.keys.length + 1) i with
  | some qName => exact ⟨qName, rfl⟩
  | none =>
    have taken := qualify_from_none ended
    have injective : Function.Injective fun k => numbered name label (i + k) :=
      fun j k same => Nat.add_left_cancel (numbered_inj same)
    have inside : (Finset.range (registry.keys.length + 1)).image
        (fun k => numbered name label (i + k)) ⊆ registry.keys.toFinset := by
      intro text member
      obtain ⟨k, below, rfl⟩ := Finset.mem_image.mp member
      rw [List.mem_toFinset, ← AList.mem_keys]
      exact taken k (Finset.mem_range.mp below)
    have bound := Finset.card_le_card inside
    rw [Finset.card_image_of_injective _ injective, Finset.card_range] at bound
    have atMost := List.toFinset_card_le registry.keys
    omega

theorem qualify_fresh (registry : Registry) (name path : String) :
    qualifyContextName registry name path ∉ registry := by
  unfold qualifyContextName
  by_cases free : name ∉ registry
  · rwa [if_pos free]
  · rw [if_neg free]
    dsimp only
    split
    next free' => exact free'
    next =>
      obtain ⟨qName, found⟩ := qualify_from_ends registry name (kubeconfigSourceLabel path) 2
      rw [found]
      exact qualify_from_free found

end Fresh

end ContextRegistry
