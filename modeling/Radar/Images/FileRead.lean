import Radar.Base.LastWrite
import Radar.Images.ImageExact

/- internal/images/inspector.go: one file read from the cached layers, against the tree of the same
   layers. -/
namespace FileRead
open GoText KeyedFold LastWrite LayerTree

section Model

structure Entry where
  header : Header
  data : List UInt8

structure Reading where
  deleted : Bool
  content : Option (List UInt8)
  filename : String

def targetPath (filePath : String) : Path := clean ("/" ++ trimPrefix filePath "/")

/-- What an entry of this path deletes, where it is a whiteout. -/
@[irreducible] def whiteout (path : Path) : Option Path :=
  (cutPrefix (base path) ".wh.").map fun after => joinPath (dir path) after

/-- Of a whiteout only the very path that it names counts. -/
def readStep (target : Path) (r : Reading) (e : Entry) : Reading := let path := entryPath e.header
  match whiteout path with
  | some deleted => if deleted = target then ⟨true, none, ""⟩ else r
  | none =>
    if path = target ∧ e.header.typeflag ≠ .dir then ⟨false, some e.data, base path⟩ else r

def readFileFromCachedLayers (layers : List (List Entry)) (filePath : String) :
    Except String (List UInt8 × String) :=
  let r := layers.foldl (fun r layer => layer.foldl (readStep (targetPath filePath)) r) ⟨false, none, ""⟩
  match r.deleted, r.content with
  | false, some content => .ok (content, r.filename)
  | _, _ => .error ("file not found: " ++ filePath)

def headers (layers : List (List Entry)) : List (List Header) := layers.map (·.map Entry.header)

end Model

variable {e : Entry} {data : List UInt8}

section Claims
variable (layers : List (List Entry)) (target : Path)

def ShowsFile : Prop :=
  ∃ n ∈ (buildFilesystemTree (headers layers)).1.nodes, n.path = target ∧ n.type = .file

/-- An entry that puts something other than a directory at the path. -/
def Serves (path : Path) (h : Header) : Prop :=
  whiteout (entryPath h) = none ∧ entryPath h = path ∧ h.typeflag ≠ .dir

def LastEntry (e : Entry) : Prop :=
  ∃ before after, layers.flatten = before ++ e :: after ∧ entryPath e.header = target ∧
    ∀ e' ∈ after, entryPath e'.header ≠ target

/-- A directory above the path is whited out, or something else is put in its place. -/
def Unseats (path : Path) (h : Header) : Prop :=
  ∃ a, Below a path ∧ (whiteout (entryPath h) = some a ∨ Serves a h)

/-- The download of a path and the tree agree. -/
structure Agrees (filePath : String) : Prop where
  succeeds : (∃ got, readFileFromCachedLayers layers filePath = .ok got) ↔
    ShowsFile layers (targetPath filePath)
  content : ∀ data name, readFileFromCachedLayers layers filePath = .ok (data, name) →
    ∃ e, LastEntry layers (targetPath filePath) e ∧ e.data = data
  gone : ∀ front layer rest, layers = front ++ layer :: rest →
    (∃ e ∈ layer, Serves (targetPath filePath) e.header) →
    (∀ e ∈ rest.flatten, entryPath e.header ≠ targetPath filePath) →
    (∃ e ∈ rest.flatten, Unseats (targetPath filePath) e.header) →
    ∀ got, readFileFromCachedLayers layers filePath ≠ .ok got

end Claims

section Conditions

/-- What the read goes by: an entry of the path that is no directory, and the path's own whiteout. -/
def Marks (path : Path) (h : Header) : Prop := whiteout (entryPath h) = some path ∨ Serves path h

/-- What the tree goes by: any entry of the path, and the whiteout of it or of a directory above it.
Whiteouts of the root take the root alone. -/
def Touches (path : Path) (h : Header) : Prop :=
  (∃ p, whiteout (entryPath h) = some p ∧ p ≠ [] ∧ p <+: path) ∨
    (whiteout (entryPath h) = none ∧ entryPath h = path)

/-- An entry of a layer that the later ones leave as they find it, under directories. -/
structure Undisturbed (layers : List (List Entry)) (path : Path) (e : Entry) (more : List Entry)
    (rest : List (List Entry)) : Prop where
  deep : path ≠ []
  regular : typeOf e.header.typeflag = .file
  untouched : ∀ e' ∈ more ++ rest.flatten, ¬ Touches path e'.header
  rooted : ∀ e' ∈ layers.flatten, whiteout (entryPath e'.header) ≠ some []
  above : ∀ a, a ≠ [] → Below a path → ∀ before e' after, layers.flatten = before ++ e' :: after →
    Serves a e'.header → ∃ e'' ∈ after, Touches a e''.header
  seated : ∀ e' ∈ rest.flatten, ∀ a, Below a path → ¬ Serves a e'.header

/-- Where the last thing that the read goes by is an entry, it is undisturbed. -/
def Plain (layers : List (List Entry)) (path : Path) : Prop :=
  ∀ front done e more rest, layers = front ++ (done ++ e :: more) :: rest → Serves path e.header →
    (∀ e' ∈ more ++ rest.flatten, ¬ Marks path e'.header) → Undisturbed layers path e more rest

end Conditions

section Reads
variable {layers : List (List Entry)} {path : Path}

/-- What an entry does to the content read so far. -/
def served (path : Path) (e : Entry) : Option (Option (List UInt8)) :=
  match whiteout (entryPath e.header) with
  | some deleted => if deleted = path then some none else none
  | none => if entryPath e.header = path ∧ e.header.typeflag ≠ .dir then some (some e.data) else none

def Reading.kept (r : Reading) : Option (List UInt8) := if r.deleted then none else r.content

theorem served_quiet : served path e = none ↔ ¬ Marks path e.header := by
  unfold served Marks Serves
  cases whiteout (entryPath e.header) with
  | some deleted => by_cases here : deleted = path <;> simp [here]
  | none =>
    by_cases own : entryPath e.header = path ∧ e.header.typeflag ≠ .dir
    · simp [own]
    · simp [own]

theorem served_some : served path e = some (some data) ↔ Serves path e.header ∧ e.data = data := by
  unfold served Serves
  cases whiteout (entryPath e.header) with
  | some deleted => by_cases here : deleted = path <;> simp [here]
  | none => by_cases own : entryPath e.header = path ∧ e.header.typeflag ≠ .dir <;> simp [own]

theorem read_kept (r : Reading) (e : Entry) : (readStep path r e).kept = (served path e).getD r.kept := by
  unfold readStep served
  dsimp only
  generalize entryPath e.header = p
  cases whiteout p with
  | some deleted => by_cases here : deleted = path <;> simp [here, Reading.kept]
  | none =>
    by_cases own : p = path ∧ e.header.typeflag ≠ .dir
    · simp only [if_pos own]
      rfl
    · simp only [if_neg own]
      rfl

/-- A read succeeds with the data of the last entry, where its path's own whiteout does not follow. -/
theorem read_iff (layers : List (List Entry)) (filePath : String) (data : List UInt8) :
    (∃ name, readFileFromCachedLayers layers filePath = .ok (data, name)) ↔
      Last (served (targetPath filePath)) layers.flatten data := by
  have slot := (@slot_iff _ _ _ _ (readStep (targetPath filePath)) Reading.kept (fun _ => True)
    (fun _ _ _ => trivial) (fun r e _ => read_kept r e) ⟨false, none, ""⟩ trivial rfl layers.flatten).2 data
  rw [← slot, List.foldl_flatten, readFileFromCachedLayers]
  generalize layers.foldl _ _ = r
  obtain ⟨deleted, content, filename⟩ := r
  cases deleted <;> cases content <;> simp [Reading.kept]

theorem read_ok {filePath : String} : (∃ got, readFileFromCachedLayers layers filePath = .ok got) ↔
    ∃ data, Last (served (targetPath filePath)) layers.flatten data := by
  constructor
  · rintro ⟨⟨data, name⟩, got⟩
    exact ⟨data, (read_iff layers filePath data).mp ⟨name, got⟩⟩
  · rintro ⟨data, last⟩
    obtain ⟨name, got⟩ := (read_iff layers filePath data).mpr last
    exact ⟨(data, name), got⟩

end Reads
section Trees
variable {layers : List (List Entry)} {b : Build} {q : Path} {h : Header}

/-- What an entry makes of the node of a path, of which only files and links are told apart. -/
def typed (q : Path) (h : Header) : Option (Option FileType) := match whiteout (entryPath h) with
  | some p => if p ≠ [] ∧ p <+: q then some none else none
  | none =>
    if entryPath h = q then some (if h.typeflag = .dir then none else some (typeOf h.typeflag)) else none

def standing (q : Path) (b : Build) : Option FileType :=
  ((lookup b.fileMap q).map (·.type)).filter (· ≠ .dir)

theorem typed_quiet : typed q h = none ↔ ¬ Touches q h := by
  unfold typed Touches
  cases whiteout (entryPath h) with
  | some p => by_cases above : p ≠ [] ∧ p <+: q <;> simp [above]
  | none => by_cases own : entryPath h = q <;> simp [own]

theorem typed_some {type : FileType} :
    typed q h = some (some type) ↔ Serves q h ∧ typeOf h.typeflag = type := by
  unfold typed Serves
  cases whiteout (entryPath h) with
  | some p => by_cases above : p ≠ [] ∧ p <+: q <;> simp [above]
  | none => by_cases own : entryPath h = q <;> by_cases flag : h.typeflag = .dir <;> simp [own, flag]

theorem serves_touches (serves : Serves q h) : Touches q h := .inr ⟨serves.1, serves.2.1⟩

theorem type_dir {flag : TypeFlag} : typeOf flag = .dir ↔ flag = .dir := by
  cases flag <;> simp [typeOf]

theorem read_deletes {p : Path} (marked : whiteout (entryPath h) = some p) :
    (readEntry b h).fileMap = deleteFromTree b.fileMap p := by
  rw [whiteout] at marked
  obtain ⟨after, cut, rfl⟩ := Option.map_eq_some_iff.mp marked
  unfold readEntry
  simp only [cut]

theorem no_cut {path : Path} (unmarked : whiteout path = none) : cutPrefix (base path) ".wh." = none := by
  rw [whiteout] at unmarked
  exact Option.map_eq_none_iff.mp unmarked

theorem rule_place (unmarked : whiteout (entryPath h) = none) (deep : entryPath h ≠ []) :
    ruleOf h = .place (entryPath h) := by
  have cut := no_cut unmarked
  unfold ruleOf
  rw [if_neg, cut]
  · exact if_neg deep
  · intro marker
    rw [marker, marker_cut] at cut
    exact absurd cut (by simp)

theorem read_top (unmarked : whiteout (entryPath h) = none) (top : entryPath h = []) :
    readEntry b h = b := by
  have cut := no_cut unmarked
  rw [top] at cut
  unfold readEntry
  simp only [top, cut, if_true]

theorem read_standing (deep : q ≠ []) (closed : Closed b.fileMap) (h : Header) :
    standing q (readEntry b h) = (typed q h).getD (standing q b) := by
  unfold typed
  cases marked : whiteout (entryPath h) with
  | some p =>
    have gone : (q = p ∨ (p ≠ [] ∧ p <+: q)) ↔ (p ≠ [] ∧ p <+: q) := by
      refine or_iff_right_of_imp fun same => ?_
      subst same
      exact ⟨deep, List.prefix_rfl⟩
    unfold standing
    rw [read_deletes marked, delete_lookup closed.distinct]
    simp only [gone]
    split <;> rfl
  | none =>
    by_cases top : entryPath h = []
    · have other : entryPath h ≠ q := fun same => deep (same ▸ top)
      rw [read_top marked top]
      simp only [if_neg other]
      rfl
    · have put_in := read_put_in closed (rule_place marked top)
      unfold standing
      rw [put_in]
      by_cases own : entryPath h = q
      · rw [if_pos own.symm]
        simp only [if_pos own]
        by_cases flag : h.typeflag = .dir
        · simp [fileNode, flag, typeOf]
        · have type : typeOf h.typeflag ≠ .dir := fun is_dir => flag (type_dir.mp is_dir)
          simp [fileNode, flag, type]
      · rw [if_neg (Ne.symm own)]
        simp only [if_neg own]
        split
        next missing =>
          rw [missing.2.2]
          simp [dirNode]
        next => rfl

theorem read_root (closed : Closed b.fileMap) (h : Header) : IsDir (readEntry b h).fileMap [] ↔
    IsDir b.fileMap [] ∧ whiteout (entryPath h) ≠ some [] := by
  unfold IsDir
  cases marked : whiteout (entryPath h) with
  | some p =>
    rw [read_deletes marked, delete_lookup closed.distinct]
    by_cases top : p = []
    · simp [top]
    · have other : ¬ p <+: [] := fun prefix_ => top (List.prefix_nil.mp prefix_)
      simp [top, Ne.symm top]
  | none =>
    by_cases top : entryPath h = []
    · rw [read_top marked top]
      simp
    · rw [read_put_in closed (rule_place marked top), if_neg (Ne.symm top), if_neg fun missing => missing.2.1 rfl]
      simp

/-- The tree's map is what the entries make of it one after another. -/
theorem read_flat {layers : List (List Header)} (below : entryCount layers < maxFileCount) :
    readLayers layers = layers.flatten.foldl readEntry ⟨[rootNode], 0, 0⟩ := by
  induction layers using List.reverseRecOn with
  | nil => rfl
  | append_singleton front layer ih =>
    rw [read_layers_concat below, List.flatten_append, List.flatten_singleton, List.foldl_append]
    rw [entry_count_append] at below
    rw [ih (by omega)]

def readEntries (es : List Entry) : Build := es.foldl (fun b e => readEntry b e.header) ⟨[rootNode], 0, 0⟩

theorem read_entries {layers : List (List Entry)} (below : entryCount (headers layers) < maxFileCount) :
    readLayers (headers layers) = readEntries layers.flatten := by
  rw [read_flat below, headers, ← List.map_flatten, List.foldl_map, readEntries]

theorem standing_iff (deep : q ≠ []) (es : List Entry) : Closed (readEntries es).fileMap ∧
    ∀ type, standing q (readEntries es) = some type ↔ Last (fun e => typed q e.header) es type := by
  refine @slot_iff Build Entry FileType (fun e => typed q e.header) (fun b e => readEntry b e.header)
    (standing q) (fun b => Closed b.fileMap) (fun b e closed => read_closed closed e.header)
    (fun b e closed => read_standing deep closed e.header) ⟨[rootNode], 0, 0⟩ start_closed ?_ es
  unfold standing
  rw [lookup, List.find?_cons_of_neg (by simpa [rootNode] using Ne.symm deep)]
  rfl

theorem rooted_iff (es : List Entry) : Closed (readEntries es).fileMap ∧
    (IsDir (readEntries es).fileMap [] ↔ ∀ e ∈ es, whiteout (entryPath e.header) ≠ some []) := by
  induction es using List.reverseRecOn with
  | nil =>
    have root : IsDir [rootNode] [] := rfl
    exact ⟨start_closed, iff_of_true root fun _ member => absurd member List.not_mem_nil⟩
  | append_singleton es e ih =>
    obtain ⟨closed, rooted⟩ := ih
    have step : readEntries (es ++ [e]) = readEntry (readEntries es) e.header := List.foldl_concat ..
    rw [step]
    refine ⟨read_closed closed e.header, ?_⟩
    rw [read_root closed, rooted, List.forall_mem_append, List.forall_mem_singleton]

/-- The tree has a file where the last entry that touches the path put one, and directories above. -/
theorem shows_iff {layers : List (List Entry)} (below : entryCount (headers layers) < maxFileCount)
    (path : Path) : ShowsFile layers path ↔ path ≠ [] ∧
      Last (fun e => typed path e.header) layers.flatten .file ∧
      (∀ e ∈ layers.flatten, whiteout (entryPath e.header) ≠ some []) ∧
      ∀ a, a ≠ [] → Below a path → ∀ type, ¬ Last (fun e => typed a e.header) layers.flatten type := by
  have map : readLayers (headers layers) = readEntries layers.flatten := read_entries below
  obtain ⟨closed, rooted⟩ := rooted_iff layers.flatten
  have shown : path ≠ [] → (ShowsFile layers path ↔
      ∃ size, Shown (readEntries layers.flatten).fileMap path ⟨.file, size⟩) := by
    intro deep
    have tree := (tree_shows closed.distinct).2 path deep
    have linked : (buildFilesystemTree (headers layers)).1 = linkTree (readEntries layers.flatten).fileMap :=
      congrArg (fun b : Build => linkTree b.fileMap) map
    unfold ShowsFile
    rw [linked]
    constructor
    · rintro ⟨n, inside, own, type⟩
      exact ⟨n.size, (tree _).mp ⟨n, inside, own, by rw [Node.shape, type]⟩⟩
    · rintro ⟨size, held⟩
      obtain ⟨n, inside, own, shape⟩ := (tree _).mpr held
      exact ⟨n, inside, own, congrArg Shape.type shape⟩
  have dirs : ∀ a, a ≠ [] → (lookup (readEntries layers.flatten).fileMap a).isSome →
      (IsDir (readEntries layers.flatten).fileMap a ↔
        ∀ type, ¬ Last (fun e => typed a e.header) layers.flatten type) := by
    intro a top there
    obtain ⟨n, found⟩ := Option.isSome_iff_exists.mp there
    simp only [← (standing_iff top layers.flatten).2]
    unfold standing IsDir
    rw [found]
    by_cases type : n.type = .dir <;> simp [type]
  constructor
  · intro shows
    have deep : path ≠ [] := by
      rintro rfl
      obtain ⟨n, inside, own, type⟩ := shows
      have distinct := closed.distinct
      rw [← map] at distinct
      rcases (mem_link distinct _ rootNode n).mp inside with rfl | ⟨_, under, _⟩
      · exact absurd type (by simp [rootNode])
      · exact under.2 own
    obtain ⟨size, above, own⟩ := (shown deep).mp shows
    obtain ⟨n, found, shape⟩ := Option.map_eq_some_iff.mp own
    have type : n.type = .file := congrArg Shape.type shape
    refine ⟨deep, ?_, rooted.mp (above [] ⟨List.nil_prefix, deep⟩), fun a top under => ?_⟩
    · rw [← (standing_iff deep layers.flatten).2]
      unfold standing
      rw [found]
      simp [type]
    · exact (dirs a top (isDir_some (above a under))).mp (above a under)
  · rintro ⟨deep, own, root, free⟩
    rw [← (standing_iff deep layers.flatten).2] at own
    obtain ⟨held, _⟩ := Option.filter_eq_some_iff.mp own
    obtain ⟨n, found, type⟩ := Option.map_eq_some_iff.mp held
    refine (shown deep).mpr ⟨n.size, fun a under => ?_, by rw [found, Option.map_some, Node.shape, type]⟩
    by_cases top : a = []
    · rw [top]
      exact rooted.mpr root
    · exact (dirs a top (closed.above a path under top (by rw [found]; rfl))).mpr (free a top under)

end Trees

section Agreement
variable {layers : List (List Entry)} {path : Path} {front rest : List (List Entry)}
variable {done more : List Entry}

/-- The last thing that the read goes by, where it is an entry. -/
theorem last_marked (last : Last (served path) layers.flatten data) :
    ∃ front done e more rest, layers = front ++ (done ++ e :: more) :: rest ∧ Serves path e.header ∧
      e.data = data ∧ ∀ e' ∈ more ++ rest.flatten, ¬ Marks path e'.header := by
  obtain ⟨front, done, e, more, rest, whole, sets, quiet⟩ := last_flatten last
  obtain ⟨serves, same⟩ := served_some.mp sets
  exact ⟨front, done, e, more, rest, whole, serves, same,
    fun e' member => served_quiet.mp (quiet e' member)⟩

theorem split_flatten (whole : layers = front ++ (done ++ e :: more) :: rest) :
    layers.flatten = (front.flatten ++ done) ++ e :: (more ++ rest.flatten) := by
  rw [whole]
  simp

/-- What the tree shows is always served: every file of it was put there after the last whiteout. -/
theorem shown_served (below : entryCount (headers layers) < maxFileCount)
    (shows : ShowsFile layers path) : ∃ data, Last (served path) layers.flatten data := by
  obtain ⟨deep, ⟨before, e, after, whole, sets, quiet⟩, _⟩ := (shows_iff below path).mp shows
  refine ⟨e.data, before, e, after, whole, served_some.mpr ⟨(typed_some.mp sets).1, rfl⟩, ?_⟩
  intro e' member
  rw [served_quiet]
  rintro (own | serves)
  · exact typed_quiet.mp (quiet e' member) (.inl ⟨path, own, deep, List.prefix_rfl⟩)
  · exact typed_quiet.mp (quiet e' member) (serves_touches serves)

/-- An undisturbed entry is the one that the tree shows. -/
theorem undisturbed_shown (below : entryCount (headers layers) < maxFileCount)
    (whole : layers = front ++ (done ++ e :: more) :: rest) (serves : Serves path e.header)
    (still : Undisturbed layers path e more rest) : ShowsFile layers path := by
  refine (shows_iff below path).mpr ⟨still.deep, ?_, still.rooted, fun a top under type => ?_⟩
  · refine ⟨_, e, _, split_flatten whole, typed_some.mpr ⟨serves, still.regular⟩, fun e' member => ?_⟩
    exact typed_quiet.mpr (still.untouched e' member)
  · rintro ⟨before, e', after, split, sets, quiet⟩
    obtain ⟨e'', member, touches⟩ := still.above a top under before e' after split (typed_some.mp sets).1
    exact typed_quiet.mp (quiet e'' member) touches

/-- No whiteout has the path of an entry that is none. -/
theorem untouched_other (unmarked : whiteout path = none) (quiet : ¬ Touches path e.header) :
    entryPath e.header ≠ path := by
  intro same
  exact quiet (.inr ⟨same ▸ unmarked, same⟩)

/-- The entry that the read goes by, where the tree shows a file there too. -/
theorem shown_undisturbed (below : entryCount (headers layers) < maxFileCount) (shows : ShowsFile layers path)
    (whole : layers = front ++ (done ++ e :: more) :: rest) (serves : Serves path e.header)
    (quiet : ∀ e' ∈ more ++ rest.flatten, ¬ Marks path e'.header)
    (seated : (∀ e' ∈ more ++ rest.flatten, ¬ Touches path e'.header) →
      ∀ e' ∈ rest.flatten, ∀ a, Below a path → ¬ Serves a e'.header) :
    Undisturbed layers path e more rest := by
  obtain ⟨deep, own, rooted, free⟩ := (shows_iff below path).mp shows
  rw [split_flatten whole, List.append_cons, last_append] at own
  have other : ¬ Last (fun e => typed path e.header) (more ++ rest.flatten) .file := by
    rintro ⟨before, e', after, split, sets, _⟩
    have member : e' ∈ more ++ rest.flatten := split ▸ List.mem_append_right _ List.mem_cons_self
    exact quiet e' member (.inr (typed_some.mp sets).1)
  obtain ⟨passed, own⟩ := own.resolve_left other
  have untouched : ∀ e' ∈ more ++ rest.flatten, ¬ Touches path e'.header := fun e' member =>
    typed_quiet.mp (passed e' member)
  have regular : typeOf e.header.typeflag = .file := by
    rcases last_append.mp own with last | ⟨passed, _⟩
    · exact (typed_some.mp ((@last_single _ _ fun e : Entry => typed path e.header).mp last)).2
    · exact absurd (serves_touches serves) (typed_quiet.mp (passed e (List.mem_singleton_self e)))
  refine ⟨deep, regular, untouched, rooted, ?_, seated untouched⟩
  intro a top under before e' after split served_
  by_contra none_
  refine free a top under (typeOf e'.header.typeflag) ⟨before, e', after, split, ?_, fun e'' member => ?_⟩
  · exact typed_some.mpr ⟨served_, rfl⟩
  · exact typed_quiet.mpr fun touches => none_ ⟨e'', member, touches⟩

/-- Where a layer has an entry that the read may serve and the later ones have none, what is served is
    the layer's. -/
theorem served_here {layer : List Entry}
    (whole : layers = front ++ layer :: rest) (there : ∃ e ∈ layer, Serves path e.header)
    (later : ∀ e ∈ rest.flatten, entryPath e.header ≠ path)
    (last : Last (served path) layers.flatten data) :
    ∃ done e more, layer = done ++ e :: more ∧ Serves path e.header ∧
      ∀ e' ∈ more ++ rest.flatten, ¬ Marks path e'.header := by
  have split : layers.flatten = (front.flatten ++ layer) ++ rest.flatten := by
    rw [whole]
    simp
  rw [split, last_append] at last
  have other : ¬ Last (served path) rest.flatten data := by
    rintro ⟨before, e, after, split, sets, _⟩
    have member : e ∈ rest.flatten := split ▸ List.mem_append_right _ List.mem_cons_self
    exact later e member (served_some.mp sets).1.2.1
  obtain ⟨quiet, last⟩ := last.resolve_left other
  rcases last_append.mp last with ⟨done, e, more, parts, sets, quiet'⟩ | ⟨passed, _⟩
  · refine ⟨done, e, more, parts, (served_some.mp sets).1, fun e' member => served_quiet.mp ?_⟩
    exact (List.mem_append.mp member).elim (quiet' e') (quiet e')
  · obtain ⟨e, member, serves⟩ := there
    exact absurd (.inr serves) (served_quiet.mp (passed e member))

/-- The download and the tree agree on a path exactly when the entry that the read goes by, if there is
one, is undisturbed. -/
theorem agrees_iff (layers : List (List Entry)) (filePath : String)
    (below : entryCount (headers layers) < maxFileCount) :
    Agrees layers filePath ↔ Plain layers (targetPath filePath) := by
  constructor
  · intro agrees front done e more rest whole serves quiet
    have last : Last (served (targetPath filePath)) layers.flatten e.data := by
      refine ⟨_, e, _, split_flatten whole, served_some.mpr ⟨serves, rfl⟩, fun e' member => ?_⟩
      exact served_quiet.mpr (quiet e' member)
    obtain ⟨got, read⟩ := read_ok.mpr ⟨e.data, last⟩
    have shows : ShowsFile layers (targetPath filePath) := agrees.succeeds.mp ⟨got, read⟩
    refine shown_undisturbed below shows whole serves quiet fun untouched e' member a under served_ => ?_
    refine agrees.gone front _ rest whole ⟨e, by simp, serves⟩ (fun e'' member' => ?_)
      ⟨e', member, a, under, .inr served_⟩ got read
    exact untouched_other (serves.2.1 ▸ serves.1) (untouched e'' (List.mem_append_right _ member'))
  · intro plain
    constructor
    · rw [read_ok]
      constructor
      · rintro ⟨data, last⟩
        obtain ⟨front, done, e, more, rest, whole, serves, _, quiet⟩ := last_marked last
        exact undisturbed_shown below whole serves (plain front done e more rest whole serves quiet)
      · exact shown_served below
    · intro data name read
      have last := (read_iff layers filePath data).mp ⟨name, read⟩
      obtain ⟨front, done, e, more, rest, whole, serves, same, quiet⟩ := last_marked last
      have still := plain front done e more rest whole serves quiet
      refine ⟨e, ⟨_, _, split_flatten whole, serves.2.1, fun e' member => ?_⟩, same⟩
      exact untouched_other (serves.2.1 ▸ serves.1) (still.untouched e' member)
    · rintro front layer rest whole there later ⟨e', member, a, under, unseats⟩ got read
      obtain ⟨data, last⟩ := read_ok.mp ⟨got, read⟩
      obtain ⟨done, e, more, rfl, serves, quiet⟩ := served_here whole there later last
      have still := plain front done e more rest whole serves quiet
      rcases unseats with out | other
      · by_cases top : a = []
        · have inside : e' ∈ layers.flatten := by
            rw [split_flatten whole]
            simp [member]
          exact still.rooted e' inside (top ▸ out)
        · exact still.untouched e' (List.mem_append_right _ member) (.inl ⟨a, out, top, under.1⟩)
      · exact still.seated e' member a under other

theorem plain_file_agrees : Agrees [[⟨fileEntry "x" 1, [120]⟩]] "x" := by
  refine (agrees_iff [[⟨fileEntry "x" 1, [120]⟩]] "x" (by decide +kernel)).mpr ?_
  have target : targetPath "x" = ["x"] := by decide +kernel
  have own : entryPath (fileEntry "x" 1) = ["x"] := by decide +kernel
  have unmarked : whiteout ["x"] = none := by decide +kernel
  intro front done e more rest whole serves _
  cases front with
  | cons _ front => simp at whole
  | nil =>
    obtain ⟨first, rfl⟩ := List.cons.inj whole
    cases done with
    | cons _ done => simp at first
    | nil =>
      obtain ⟨rfl, rfl⟩ := List.cons.inj first
      rw [target]
      refine ⟨by decide, rfl, by simp, ?_, ?_, by simp⟩
      · simp [own, unmarked]
      · rintro a top ⟨above, other⟩ before e' after split serves'
        have inside : e' ∈ [(⟨fileEntry "x" 1, [120]⟩ : Entry)] := by
          have same : [(⟨fileEntry "x" 1, [120]⟩ : Entry)] = before ++ e' :: after := split
          rw [same]
          simp
        rw [List.mem_singleton.mp inside] at serves'
        exact absurd (own.symm.trans serves'.2.1) other

/-- A directory that a later layer whites out, or puts a file in the place of, still has its files for
the download. -/
theorem whited_out_served : ¬ Agrees [[⟨fileEntry "d/x" 1, [120]⟩], [⟨fileEntry ".wh.d" 0, []⟩]] "d/x" ∧
      ¬ Agrees [[⟨fileEntry "d/x" 1, [120]⟩], [⟨fileEntry "d" 1, [121]⟩]] "d/x" := by
  refine ⟨fun agrees => ?_, fun agrees => ?_⟩
  · have shows := agrees.succeeds.mp ⟨([120], "x"), by decide +kernel⟩
    unfold ShowsFile at shows
    exact absurd shows (by decide +kernel)
  · have shows := agrees.succeeds.mp ⟨([120], "x"), by decide +kernel⟩
    unfold ShowsFile at shows
    exact absurd shows (by decide +kernel)

end Agreement
end FileRead
