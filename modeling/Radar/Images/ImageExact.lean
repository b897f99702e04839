import Radar.Images.ShownTree

/- The flat map of an image against its file system, entry by entry. -/
namespace LayerTree
open GoText KeyedFold List
variable {q : Path}

section Markers
variable {m : FileMap} {files : Files}

theorem shown_delete (distinct : (m.map Node.path).Nodup) (path : Path) (deep : q ≠ []) {shape : Shape} :
    Shown (deleteFromTree m path) q shape ↔ Shown m q shape ∧ ¬ path <+: q := by
  have found := delete_lookup distinct path
  have dirs : ∀ a, IsDir (deleteFromTree m path) a ↔
      IsDir m a ∧ ¬ (a = path ∨ (path ≠ [] ∧ path <+: a)) := by
    intro a
    unfold IsDir
    rw [found]
    split
    next gone => simp [gone]
    next stays => simp only [stays, not_false_eq_true, and_true]
  constructor
  · rintro ⟨above, own⟩
    rw [found] at own
    split at own
    next => exact absurd own (by simp)
    next stays =>
      refine ⟨⟨fun a below => ((dirs a).mp (above a below)).1, own⟩, fun prefix_ => ?_⟩
      by_cases top : path = []
      · have root_gone := ((dirs []).mp (above [] ⟨List.nil_prefix, deep⟩)).2
        exact root_gone (.inl top.symm)
      · exact stays (.inr ⟨top, prefix_⟩)
  · rintro ⟨⟨above, own⟩, free⟩
    have stays : ∀ a, a <+: q → ¬ (a = path ∨ (path ≠ [] ∧ path <+: a)) := by
      rintro a prefix_ (rfl | ⟨_, under⟩)
      · exact free prefix_
      · exact free (under.trans prefix_)
    refine ⟨fun a below => (dirs a).mpr ⟨above a below, stays a below.1⟩, ?_⟩
    rw [found, if_neg (stays q prefix_rfl)]
    exact own

/-- What a marker takes from the map against what it hides of the file system. -/
theorem marker_agrees (distinct : (m.map Node.path).Nodup) (agree : Agree m files) (path : Path)
    (hidden : Path → Prop) [DecidablePred hidden] :
    Agree (deleteFromTree m path) (fun q => if hidden q then none else files q) ↔
      ∀ q, q ≠ [] → Stands m q → (path <+: q ↔ hidden q) := by
  have after : ∀ q, q ≠ [] → ∀ shape, (Shown (deleteFromTree m path) q shape ↔
      (if hidden q then none else files q) = some shape) ↔ (Shown m q shape → (path <+: q ↔ hidden q)) := by
    intro q deep shape
    rw [shown_delete distinct path deep, agree q deep shape]
    by_cases gone : hidden q <;> by_cases own : files q = some shape <;> simp [gone, own]
  constructor
  · rintro agree' q deep ⟨shape, shown⟩
    exact (after q deep shape).mp (agree' q deep shape) shown
  · intro same q deep shape
    exact (after q deep shape).mpr fun shown => same q deep ⟨shape, shown⟩

end Markers

section Places
variable {m m' : FileMap} {files : Files} {path : Path} {node : Node} {shape : Shape}

/-- One map is the other with a node put at the path and the missing parents above it. -/
def PutIn (m m' : FileMap) (path : Path) (node : Node) : Prop :=
  ∀ q, lookup m' q = if q = path then some node
    else if Below q path ∧ q ≠ [] ∧ lookup m q = none then some (dirNode q) else lookup m q

/-- Nothing but directories stands above the path, up to the root. -/
def Clear (m : FileMap) (path : Path) : Prop :=
  IsDir m [] ∧ ∀ a, Below a path → (lookup m a).isSome → IsDir m a

theorem isDir_some {a : Path} (is_dir : IsDir m a) : (lookup m a).isSome := by
  obtain ⟨n, found, _⟩ := Option.map_eq_some_iff.mp is_dir
  rw [found]
  rfl

theorem put_dir (put_in : PutIn m m' path node) {a : Path} (below : Below a path) :
    IsDir m' a ↔ IsDir m a ∨ (a ≠ [] ∧ lookup m a = none) := by
  unfold IsDir
  rw [put_in, if_neg (Ne.symm below.2)]
  split
  next missing => simp [missing.2, dirNode]
  next present =>
    refine ⟨.inl, fun either => either.resolve_right fun missing => present ⟨below, missing⟩⟩

theorem put_clear (put_in : PutIn m m' path node) (deep : path ≠ []) :
    (∀ a, Below a path → IsDir m' a) ↔ Clear m path := by
  constructor
  · intro above
    refine ⟨?_, fun a below there => ?_⟩
    · have root := (put_dir put_in ⟨List.nil_prefix, deep⟩).mp (above [] ⟨List.nil_prefix, deep⟩)
      exact root.resolve_right fun missing => missing.1 rfl
    · refine ((put_dir put_in below).mp (above a below)).resolve_right fun missing => ?_
      rw [missing.2] at there
      exact absurd there (by simp)
  · rintro ⟨root, dirs⟩ a below
    rw [put_dir put_in below]
    cases found : lookup m a with
    | some n => exact .inl (dirs a below (by rw [found]; rfl))
    | none =>
      refine .inr ⟨?_, rfl⟩
      rintro rfl
      have held := isDir_some root
      rw [found] at held
      exact absurd held (by simp)

theorem put_at (put_in : PutIn m m' path node) (deep : path ≠ []) :
    Shown m' path shape ↔ Clear m path ∧ node.shape = shape := by
  rw [Shown, put_clear put_in deep, put_in, if_pos rfl, Option.map_some, Option.some_inj]

/-- Where the way is clear, a path of the map above the entry's is shown. -/
theorem above_shown (closed : Closed m) (clear : Clear m path) (below : Below q path)
    {n : Node} (found : lookup m q = some n) : Shown m q n.shape := by
  refine ⟨fun a above => ?_, by rw [found]; rfl⟩
  have further : Below a path := below_of_below above below.1
  by_cases top : a = []
  · rw [top]
    exact clear.1
  · exact clear.2 a further (closed.above a q above top (by rw [found]; rfl))

theorem put_above (closed : Closed m) (agree : Agree m files) (put_in : PutIn m m' path node)
    (clear : Clear m path) (below : Below q path) (top : q ≠ []) {new : Shape} :
    Shown m' q shape ↔ placed files path new q = some shape := by
  have deep : path ≠ [] := by
    rintro rfl
    exact top (prefix_nil.mp below.1)
  have dirs : ∀ a, Below a q → IsDir m' a := fun a above =>
    (put_clear put_in deep).mpr clear a (below_of_below above below.1)
  rw [placed, if_neg (Ne.symm below.2), if_pos below.1, Shown, put_in, if_neg (Ne.symm below.2)]
  cases found : lookup m q with
  | some n =>
    have shown : files q = some n.shape := (agree q top n.shape).mp (above_shown closed clear below found)
    have is_dir : (lookup m q).map (·.type) = some .dir := clear.2 q below (by rw [found]; rfl)
    rw [found] at is_dir
    have type : n.shape.type = .dir := Option.some.inj is_dir
    simp [shown, type, and_iff_right dirs]
  | none =>
    have absent : files q = none := by
      rw [Option.eq_none_iff_forall_ne_some]
      intro old held
      have shown := ((agree q top old).mpr held).2
      rw [found] at shown
      exact absurd shown (by simp)
    simp [absent, below, top, dirNode, Node.shape, and_iff_right dirs]

theorem put_aside (closed : Closed m) (agree : Agree m files) (put_in : PutIn m m' path node)
    (apart : ¬ q <+: path) (apart' : ¬ path <+: q) {new : Shape} :
    Shown m' q shape ↔ placed files path new q = some shape := by
  have other : q ≠ path := fun same => apart (same ▸ prefix_rfl)
  have top : q ≠ [] := fun none_ => apart (none_ ▸ nil_prefix)
  have same : lookup m' q = lookup m q := by
    rw [put_in, if_neg other, if_neg fun missing => apart missing.1.1]
  have unchanged : Shown m' q shape ↔ Shown m q shape := by
    unfold Shown
    rw [same]
    refine and_congr_left fun found => forall₂_congr fun a below => ?_
    obtain ⟨n, found, _⟩ := Option.map_eq_some_iff.mp found
    by_cases above : Below a path
    · rw [put_dir put_in above, or_iff_left]
      rintro ⟨deep, missing⟩
      have held := closed.above a q below deep (by rw [found]; rfl)
      rw [missing] at held
      exact absurd held (by simp)
    · have differ : a ≠ path := fun same => apart' (same ▸ below.1)
      unfold IsDir
      rw [put_in, if_neg differ, if_neg fun missing => above missing.1]
  rw [unchanged, placed, if_neg other, if_neg apart, if_neg apart', agree q top]

/-- Below the entry's path a directory shows what the map has there, anything else nothing. -/
theorem put_below (put_in : PutIn m m' path node) (clear : Clear m path) (deep : path ≠ [])
    (below : Below path q) : Shown m' q shape ↔
      node.type = .dir ∧ (∀ a, Below path a → Below a q → IsDir m a) ∧
        (lookup m q).map Node.shape = some shape := by
  have past : ∀ a, Below path a → lookup m' a = lookup m a := by
    intro a under
    rw [put_in, if_neg under.2, if_neg]
    rintro ⟨above, _⟩
    exact under.2 (above.1.eq_of_length_le under.1.length_le)
  have itself : IsDir m' path ↔ node.type = .dir := by
    unfold IsDir
    rw [put_in, if_pos rfl]
    simp
  unfold Shown
  rw [past q below, ← and_assoc]
  refine and_congr_left fun _ => ⟨fun above => ⟨itself.mp (above path below), ?_⟩, ?_⟩
  · intro a under within
    have held := above a within
    unfold IsDir at held
    rw [past a under] at held
    exact held
  · rintro ⟨type, between⟩ a within
    by_cases above : Below a path
    · exact (put_clear put_in deep).mpr clear a above
    · by_cases same : a = path
      · rw [same]
        exact itself.mpr type
      · have under : Below path a := by
          refine ⟨(below_or_above within.1 below.1).resolve_left above, same⟩
        unfold IsDir
        rw [past a under]
        exact between a under within

/-- Where the way is clear, a path that the map has is shown. -/
theorem clear_shown (closed : Closed m) (clear : Clear m path) {n : Node}
    (found : lookup m path = some n) : Shown m path n.shape := by
  refine ⟨fun a below => ?_, by rw [found]; rfl⟩
  by_cases top : a = []
  · rw [top]
    exact clear.1
  · exact clear.2 a below (closed.above a path below top (by rw [found]; rfl))

theorem files_dir_iff (closed : Closed m) (agree : Agree m files) (clear : Clear m path)
    (deep : path ≠ []) : (files path).map (·.type) = some .dir ↔ IsDir m path := by
  constructor
  · intro is_dir
    obtain ⟨shape, held, type⟩ := Option.map_eq_some_iff.mp is_dir
    obtain ⟨n, found, rfl⟩ := Option.map_eq_some_iff.mp ((agree path deep shape).mpr held).2
    exact Option.map_eq_some_iff.mpr ⟨n, found, type⟩
  · intro is_dir
    obtain ⟨n, found, type⟩ := Option.map_eq_some_iff.mp is_dir
    rw [(agree path deep n.shape).mp (clear_shown closed clear found)]
    exact congrArg some type

theorem below_shown (closed : Closed m) (clear : Clear m path) (is_dir : IsDir m path)
    (below : Below path q) : Shown m q shape ↔
      (∀ a, Below path a → Below a q → IsDir m a) ∧ (lookup m q).map Node.shape = some shape := by
  refine and_congr_left fun _ => ⟨fun above a _ within => above a within, fun between a within => ?_⟩
  rcases below_or_above within.1 below.1 with above | under
  · obtain ⟨n, found, _⟩ := Option.map_eq_some_iff.mp is_dir
    exact (clear_shown closed clear found).1 a above
  · by_cases same : a = path
    · rw [same]
      exact is_dir
    · exact between a ⟨under, same⟩ within

/-- Something left below a path that is no directory is shown as soon as one is put there. -/
theorem leftover_shown (closed : Closed m) (put_in : PutIn m m' path node) (clear : Clear m path)
    (deep : path ≠ []) (type : node.type = .dir) {n : Node} (member : n ∈ m)
    (below : Below path n.path) : ∃ q, Below path q ∧ Stands m' q := by
  obtain ⟨rest, whole⟩ := below.1
  cases rest with
  | nil => exact absurd (by rw [← whole, append_nil]) below.2
  | cons name rest =>
    have under : Below path (path ++ [name]) := below_concat.mpr prefix_rfl
    have there : (lookup m (path ++ [name])).isSome := by
      have found := (lookup_iff closed.distinct).mpr ⟨member, rfl⟩
      by_cases same : n.path = path ++ [name]
      · rw [← same, found]
        rfl
      · refine closed.above (path ++ [name]) n.path ⟨?_, same⟩ (by simp) (by rw [found]; rfl)
        exact ⟨rest, by rw [← whole]; simp⟩
    obtain ⟨child, found⟩ := Option.isSome_iff_exists.mp there
    refine ⟨path ++ [name], under, child.shape, (put_below put_in clear deep under).mpr ⟨type, ?_, ?_⟩⟩
    · intro a past within
      have short := (below_concat.mp within).length_le
      exact absurd (past.1.eq_of_length_le short).symm past.2
    · rw [found]
      rfl

/-- An entry leaves the map showing the file system exactly when the way to it is clear, it has the
file's shape, and nothing was left below it that its being a directory would show. -/
theorem place_agrees (closed : Closed m) (agree : Agree m files) (put_in : PutIn m m' path node)
    (deep : path ≠ []) {new : Shape} (type : node.type = .dir ↔ new.type = .dir) :
    Agree m' (placed files path new) ↔ Clear m path ∧ node.shape = new ∧
      (node.type = .dir → IsDir m path ∨ ∀ n ∈ m, ¬ Below path n.path) := by
  have at_path : placed files path new path = some new := if_pos rfl
  have under : ∀ q, Below path q → placed files path new q =
      if new.type = .dir ∧ (files path).map (·.type) = some .dir then files q else none := by
    intro q below
    have apart : ¬ q <+: path := fun above => below.2 (above.eq_of_length_le below.1.length_le)
    rw [placed, if_neg below.2, if_neg apart, if_pos below.1]
  constructor
  · intro agree'
    obtain ⟨clear, same⟩ := (put_at put_in deep).mp ((agree' path deep new).mpr at_path)
    refine ⟨clear, same, fun is_dir => Classical.or_iff_not_imp_left.mpr fun no_dir n member below => ?_⟩
    obtain ⟨q, past, shape, shown⟩ := leftover_shown closed put_in clear deep is_dir member below
    have held := (agree' q (fun none_ => past.2 ?_) shape).mp shown
    · have dirs := files_dir_iff closed agree clear deep
      rw [under q past, if_neg fun both => no_dir (dirs.mp both.2)] at held
      exact absurd held (by simp)
    · exact (prefix_nil.mp (none_ ▸ past.1)).trans none_.symm |>.symm
  · rintro ⟨clear, same, left_⟩ q top shape
    by_cases own : q = path
    · rw [own, at_path, put_at put_in deep, same, and_iff_right clear, Option.some_inj]
    · by_cases above : q <+: path
      · exact put_above closed agree put_in clear ⟨above, Ne.symm own⟩ top
      · by_cases below : path <+: q
        · have dirs := files_dir_iff closed agree clear deep
          rw [put_below put_in clear deep ⟨below, own⟩, under q ⟨below, own⟩, type]
          by_cases is_dir : new.type = .dir
          · by_cases dir_there : IsDir m path
            · rw [if_pos ⟨is_dir, dirs.mpr dir_there⟩, ← agree q top,
                below_shown closed clear dir_there ⟨below, own⟩, and_iff_right is_dir]
            · rw [if_neg fun both => dir_there (dirs.mp both.2)]
              refine iff_of_false ?_ (by simp)
              rintro ⟨_, _, found⟩
              obtain ⟨n, held, _⟩ := Option.map_eq_some_iff.mp found
              obtain ⟨member, rfl⟩ := (lookup_iff closed.distinct).mp held
              exact ((left_ (type.mpr is_dir)).resolve_left dir_there) n member ⟨below, own⟩
          · rw [if_neg fun both => is_dir both.1]
            exact iff_of_false (fun shown => is_dir shown.1) (by simp)
        · exact put_aside closed agree put_in above below

end Places

section Entries
variable {b : Build} {h : Header} {path : Path} {files : Files}

theorem read_hide (rule : ruleOf h = .hide path) :
    readEntry b h = { b with fileMap := deleteFromTree b.fileMap path } := by
  unfold ruleOf at rule
  split at rule
  · exact absurd rule (by simp)
  · unfold readEntry
    split at rule
    next after marked =>
      rw [← Rule.hide.inj rule]
      simp only [marked]
    next => split at rule <;> exact absurd rule (by simp)

theorem marker_cut : cutPrefix ".wh..wh..opq" ".wh." = some ".wh..opq" := by decide +kernel

theorem marker_join (dir : Path) : joinPath dir ".wh..opq" = dir ++ [".wh..opq"] := by
  have pieces : split '/' ".wh..opq" = [".wh..opq"] := by decide +kernel
  rw [joinPath, pieces, foldl_cons, foldl_nil, cleanPiece, if_neg (by decide), if_neg (by decide)]

/-- The code takes the opaque marker for a whiteout of a file `.wh..opq`. -/
theorem read_hide_below (rule : ruleOf h = .hideBelow path) :
    readEntry b h = { b with fileMap := deleteFromTree b.fileMap (path ++ [".wh..opq"]) } := by
  unfold ruleOf at rule
  split at rule
  next marker =>
    rw [← Rule.hideBelow.inj rule]
    unfold readEntry
    simp only [marker, marker_cut, marker_join]
  next =>
    split at rule
    · exact absurd rule (by simp)
    · split at rule <;> exact absurd rule (by simp)

theorem place_rule (rule : ruleOf h = .place path) :
    cutPrefix (base (entryPath h)) ".wh." = none ∧ entryPath h = path ∧ path ≠ [] := by
  unfold ruleOf at rule
  split at rule
  · exact absurd rule (by simp)
  · split at rule
    · exact absurd rule (by simp)
    next unmarked =>
      split at rule
      · exact absurd rule (by simp)
      next deep =>
        obtain rfl := Rule.place.inj rule
        exact ⟨unmarked, rfl, deep⟩

theorem read_place (rule : ruleOf h = .place path) : (readEntry b h).totalFiles = b.totalFiles + 1 ∧
    (readEntry b h).fileMap = put Node.path (ensureParentDirs b.fileMap path) (fileNode h path) := by
  obtain ⟨unmarked, rfl, deep⟩ := place_rule rule
  unfold readEntry
  simp only [unmarked, deep, if_false, and_self]

theorem read_skip (rule : ruleOf h = .skip) : readEntry b h = b := by
  unfold ruleOf at rule
  split at rule
  · exact absurd rule (by simp)
  · split at rule
    · exact absurd rule (by simp)
    next unmarked =>
      split at rule
      next top =>
        rw [top] at unmarked
        unfold readEntry
        simp only [top, unmarked, if_true]
      next => exact absurd rule (by simp)

theorem parents_in {m : FileMap} (closed : Closed m) (path : Path) :
    ((ensureParentDirs m path).map Node.path).Nodup ∧ ∀ q, lookup (ensureParentDirs m path) q =
      if Below q path ∧ q ≠ [] ∧ lookup m q = none then some (dirNode q) else lookup m q := by
  have whole := ensure_lookup (m := m) path.reverse closed.distinct fun a c _ prefix_ top there => by
    by_cases same : a = c
    · rw [← same]
      exact there
    · exact closed.above c a ⟨prefix_, same⟩ top there
  rw [reverse_reverse] at whole
  exact whole

theorem read_put_in (closed : Closed b.fileMap) (rule : ruleOf h = .place path) :
    PutIn b.fileMap (readEntry b h).fileMap path (fileNode h path) := by
  obtain ⟨distinct, found⟩ := parents_in closed path
  intro q
  rw [(read_place rule).2, lookup_put distinct, found]
  exact if_congr eq_comm rfl rfl

theorem delete_closed {m : FileMap} (closed : Closed m) (path : Path) : Closed (deleteFromTree m path) where
  distinct := closed.distinct.sublist (filter_sublist.map Node.path)
  above := by
    intro a q below top there
    rw [delete_lookup closed.distinct] at there ⊢
    split at there
    next => exact absurd there (by simp)
    next stays =>
      rw [if_neg]
      · exact closed.above a q below top there
      · rintro (rfl | ⟨deep, under⟩)
        · exact stays (.inr ⟨top, below.1⟩)
        · exact stays (.inr ⟨deep, under.trans below.1⟩)

theorem read_closed (closed : Closed b.fileMap) (h : Header) : Closed (readEntry b h).fileMap := by
  cases rule : ruleOf h with
  | hide path =>
    rw [read_hide rule]
    exact delete_closed closed path
  | hideBelow dir =>
    rw [read_hide_below rule]
    exact delete_closed closed _
  | skip =>
    rw [read_skip rule]
    exact closed
  | place path =>
    have put_in := read_put_in closed rule
    refine ⟨?_, fun a q below top there => ?_⟩
    · rw [(read_place rule).2]
      exact put_nodup (parents_in closed path).1 _
    · rw [put_in] at there ⊢
      split
      next => rfl
      next other =>
        split
        next => rfl
        next present =>
          have above : Below a path → (lookup b.fileMap a).isSome := by
            intro under
            rw [Option.isSome_iff_ne_none]
            exact fun missing => present ⟨under, top, missing⟩
          split at there
          next same => exact above (same ▸ below)
          next =>
            split at there
            next missing => exact above (below_of_below below missing.1.1)
            next => exact closed.above a q below top there

/-- The root is never a file or a link. -/
def Grounded (files : Files) : Prop := ∀ shape, files [] = some shape → shape.type = .dir

theorem apply_grounded {s : Layered} (grounded : Grounded s.files) (h : Header) :
    Grounded (applyEntry s h).files := by
  intro shape held
  unfold applyEntry at held
  split at held
  · simp only at held
    split at held
    · exact absurd held (by simp)
    · exact grounded shape held
  · simp only at held
    split at held
    · exact absurd held (by simp)
    · exact grounded shape held
  next path rule =>
    have deep := (place_rule rule).2.2
    simp only [placed, if_neg (Ne.symm deep), nil_prefix, if_true] at held
    split at held
    · exact grounded shape held
    · rw [← Option.some.inj held]
  · exact grounded shape held

theorem shape_dir (files : Files) (h : Header) : (shapeOf files h).type = .dir ↔ h.typeflag = .dir := by
  unfold shapeOf
  generalize files (clean ("/" ++ h.linkname)) = old
  cases h.typeflag with
  | link =>
    cases old with
    | none => simp [typeOf]
    | some shape => cases shape with | mk type size => cases type <;> simp [typeOf]
  | dir => simp [typeOf]
  | symlink => simp [typeOf]
  | reg => simp [typeOf]
  | other => simp [typeOf]

/-- The node of an entry has the file's shape unless it is a hard link to something else. -/
theorem shape_iff (agree : Agree b.fileMap files) (grounded : Grounded files) :
    (fileNode h path).shape = shapeOf files h ↔
      (h.typeflag = .link → clean ("/" ++ h.linkname) ≠ [] → ∀ shape,
        Shown b.fileMap (clean ("/" ++ h.linkname)) shape →
          shape.type = .dir ∨ shape = ⟨.file, h.size⟩) := by
  cases flag : h.typeflag with
  | link =>
    have own : (fileNode h path).shape = ⟨.file, h.size⟩ := by
      simp [Node.shape, fileNode, flag, typeOf]
    rw [own, shapeOf, flag]
    generalize target : clean ("/" ++ h.linkname) = t
    cases held : files t with
    | none =>
      refine iff_of_true rfl fun _ deep shape shown => ?_
      rw [agree t deep, held] at shown
      exact absurd shown (by simp)
    | some old =>
      obtain ⟨type, size⟩ := old
      have shown_iff : t ≠ [] → ∀ shape, Shown b.fileMap t shape ↔ shape = ⟨type, size⟩ := by
        intro deep shape
        rw [agree t deep, held, Option.some_inj, eq_comm]
      cases type with
      | dir =>
        refine iff_of_true rfl fun _ deep shape shown => .inl ?_
        rw [(shown_iff deep shape).mp shown]
      | file =>
        have deep : t ≠ [] := fun top => absurd (grounded _ (top ▸ held)) (by simp)
        constructor
        · intro same _ _ shape shown
          exact .inr (((shown_iff deep shape).mp shown).trans same.symm)
        · intro law
          have either := law rfl deep _ ((shown_iff deep _).mpr rfl)
          exact (either.resolve_left (by simp)).symm
      | symlink =>
        have deep : t ≠ [] := fun top => absurd (grounded _ (top ▸ held)) (by simp)
        refine iff_of_false (by simp) fun law => ?_
        exact absurd (law rfl deep _ ((shown_iff deep _).mpr rfl)) (by simp)
  | dir => simp [Node.shape, fileNode, shapeOf, flag]
  | symlink => simp [Node.shape, fileNode, shapeOf, flag]
  | reg => simp [Node.shape, fileNode, shapeOf, flag]
  | other => simp [Node.shape, fileNode, shapeOf, flag]

/-- An entry keeps the flat map showing the file system exactly when it is a sound one. -/
theorem step_agrees {s : Layered} (closed : Closed b.fileMap) (agree : Agree b.fileMap s.files)
    (grounded : Grounded s.files) (h : Header) :
    Agree (readEntry b h).fileMap (applyEntry s h).files ↔ Sound b.fileMap s.own h := by
  unfold Sound
  cases rule : ruleOf h with
  | hide path =>
    simp only [applyEntry, rule, read_hide rule]
    rw [marker_agrees closed.distinct agree path (fun q => path <+: q ∧ ¬ Kept s.own q)]
    refine forall₃_congr fun q deep stands => ?_
    exact ⟨fun same under => (same.mp under).2, fun free => ⟨fun under => ⟨under, free under⟩, And.left⟩⟩
  | hideBelow dir =>
    simp only [applyEntry, rule, read_hide_below rule]
    rw [marker_agrees closed.distinct agree _ (fun q => Below dir q ∧ ¬ Kept s.own q)]
    refine forall₃_congr fun q deep stands => ?_
    constructor
    · intro same below
      rw [same, not_and, Classical.not_not]
      exact ⟨fun kept _ => kept, fun law => law below⟩
    · intro law
      constructor
      · intro under
        have below : Below dir q := by
          refine ⟨(prefix_append _ _).trans under, fun same => ?_⟩
          have longer := (same ▸ under).length_le
          rw [length_append, length_singleton] at longer
          exact absurd longer (Nat.not_succ_le_self _)
        exact ⟨below, fun kept => (law below).mp kept under⟩
      · rintro ⟨below, free⟩
        exact Classical.not_not.mp fun apart => free ((law below).mpr apart)
  | skip => simp only [applyEntry, rule, read_skip rule, agree]
  | place path =>
    have deep := (place_rule rule).2.2
    have is_dir : (fileNode h path).type = .dir ↔ h.typeflag = .dir := by
      cases flag : h.typeflag <;> simp [fileNode, flag, typeOf]
    have type := is_dir.trans (shape_dir s.files h).symm
    simp only [applyEntry, rule]
    rw [place_agrees closed agree (read_put_in closed rule) deep type, shape_iff agree grounded, is_dir,
      Clear, and_assoc]
    exact and_congr_right fun _ => and_congr_right fun _ => and_comm

end Entries

section Images
variable {layers : List (List Header)} {front : List (List Header)}

def ownPath (h : Header) : Option Path := match ruleOf h with
  | .place path => some path
  | _ => none

/-- The paths that a layer, or a part of one, puts in place. -/
def ownPaths (layer : List Header) : List Path := layer.filterMap ownPath

def entryCount (layers : List (List Header)) : Nat := (layers.flatMap ownPaths).length

/-- The tree lists each path once, and below the root the paths of the image's file system with their
types and sizes. -/
structure ShowsImage (layers : List (List Header)) : Prop where
  once : ((buildFilesystemTree layers).1.nodes.map Node.path).Nodup
  same : ∀ q, q ≠ [] → ∀ shape, (∃ n ∈ (buildFilesystemTree layers).1.nodes, n.path = q ∧ n.shape = shape) ↔
      rootfs layers q = some shape

/-- Some of the first layers, the last of them perhaps in part. -/
def Beginning (cut layers : List (List Header)) : Prop :=
  cut <+: layers ∨ ∃ front done more, cut = front ++ [done] ∧ front ++ [done ++ more] <+: layers

theorem read_count (b : Build) (h : Header) :
    (readEntry b h).totalFiles = b.totalFiles + (ownPaths [h]).length := by
  cases rule : ruleOf h with
  | hide path => simp [read_hide rule, ownPaths, ownPath, rule]
  | hideBelow dir => simp [read_hide_below rule, ownPaths, ownPath, rule]
  | skip => simp [read_skip rule, ownPaths, ownPath, rule]
  | place path => simp [(read_place rule).1, ownPaths, ownPath, rule]

theorem own_cons (h : Header) (layer : List Header) :
    ownPaths (h :: layer) = ownPaths [h] ++ ownPaths layer :=
  filterMap_append (l := [h])

/-- Below the limit every entry is read. -/
theorem read_layer_eq {b : Build} {layer : List Header}
    (below : b.totalFiles + (ownPaths layer).length < maxFileCount) :
    readLayer b layer = layer.foldl readEntry b ∧
      (readLayer b layer).totalFiles = b.totalFiles + (ownPaths layer).length := by
  induction layer generalizing b with
  | nil => exact ⟨rfl, rfl⟩
  | cons h rest ih =>
    rw [own_cons, length_append] at below ⊢
    have short : ¬ maxFileCount ≤ b.totalFiles := by omega
    have counted := read_count b h
    obtain ⟨all, total⟩ := ih (b := readEntry b h) (by omega)
    rw [readLayer, if_neg short, foldl_cons]
    exact ⟨all, by omega⟩

theorem entry_count_append (front back : List (List Header)) :
    entryCount (front ++ back) = entryCount front + entryCount back := by
  rw [entryCount, flatMap_append, length_append]
  rfl

theorem entry_count_single (layer : List Header) : entryCount [layer] = (ownPaths layer).length := by
  simp [entryCount]

theorem read_layers_count (below : entryCount layers < maxFileCount) :
    (readLayers layers).totalFiles = entryCount layers := by
  induction layers using reverseRecOn with
  | nil => rfl
  | append_singleton front layer ih =>
    rw [entry_count_append, entry_count_single] at below ⊢
    have counted := ih (by omega)
    have step : readLayers (front ++ [layer]) = readLayer (readLayers front) layer := foldl_concat ..
    rw [step, (read_layer_eq (by omega)).2, counted]

theorem read_layers_concat {layer : List Header} (below : entryCount (front ++ [layer]) < maxFileCount) :
    readLayers (front ++ [layer]) = layer.foldl readEntry (readLayers front) := by
  rw [entry_count_append, entry_count_single] at below
  have counted : (readLayers front).totalFiles = entryCount front := read_layers_count (by omega)
  have step : readLayers (front ++ [layer]) = readLayer (readLayers front) layer := foldl_concat ..
  rw [step, (read_layer_eq (by omega)).1]

theorem rootfs_concat (front : List (List Header)) (layer : List Header) :
    rootfs (front ++ [layer]) = (layer.foldl applyEntry ⟨rootfs front, []⟩).files := by
  rw [rootfs, foldl_concat]
  rfl

theorem own_fold (files : Files) (layer : List Header) :
    (layer.foldl applyEntry ⟨files, []⟩).own = ownPaths layer := by
  induction layer using reverseRecOn with
  | nil => rfl
  | append_singleton done h ih =>
    rw [foldl_concat, ownPaths, filterMap_append, ← ownPaths, ← ih]
    cases rule : ruleOf h <;> simp [applyEntry, rule, ownPath]

theorem start_closed : Closed [rootNode] where
  distinct := nodup_singleton _
  above := by
    intro a q below top there
    have deep : q ≠ [] := by
      rintro rfl
      exact top (prefix_nil.mp below.1)
    rw [lookup, find?_cons_of_neg (by simpa [rootNode] using Ne.symm deep)] at there
    exact absurd there (by simp)

theorem start_agrees : Agree [rootNode] fun _ => none := by
  intro q deep shape
  refine iff_of_false ?_ (by simp)
  rintro ⟨_, own⟩
  rw [lookup, find?_cons_of_neg (by simpa [rootNode] using Ne.symm deep)] at own
  exact absurd own (by simp)

theorem fold_closed {b : Build} (closed : Closed b.fileMap) (layer : List Header) :
    Closed (layer.foldl readEntry b).fileMap := by
  induction layer generalizing b with
  | nil => exact closed
  | cons h rest ih =>
    rw [foldl_cons]
    exact ih (read_closed closed h)

theorem layers_closed (below : entryCount layers < maxFileCount) : Closed (readLayers layers).fileMap := by
  induction layers using reverseRecOn with
  | nil => exact start_closed
  | append_singleton front layer ih =>
    rw [read_layers_concat below]
    rw [entry_count_append] at below
    exact fold_closed (ih (by omega)) layer

theorem fold_grounded {s : Layered} (grounded : Grounded s.files) (layer : List Header) :
    Grounded (layer.foldl applyEntry s).files := by
  induction layer generalizing s with
  | nil => exact grounded
  | cons h rest ih =>
    rw [foldl_cons]
    exact ih (apply_grounded grounded h)

theorem rootfs_grounded (layers : List (List Header)) : Grounded (rootfs layers) := by
  induction layers using reverseRecOn with
  | nil => exact fun shape held => absurd held (by simp [rootfs])
  | append_singleton front layer ih =>
    rw [rootfs_concat]
    exact fold_grounded ih layer

theorem shows_iff_agree (below : entryCount layers < maxFileCount) :
    ShowsImage layers ↔ Agree (readLayers layers).fileMap (rootfs layers) := by
  obtain ⟨once, shown⟩ := tree_shows (layers_closed below).distinct
  constructor
  · intro shows q deep shape
    rw [← shown q deep shape]
    exact shows.same q deep shape
  · intro agree
    exact ⟨once, fun q deep shape => (shown q deep shape).trans (agree q deep shape)⟩

/-- One more entry of the last layer. -/
theorem entry_agrees {done : List Header} {h : Header}
    (below : entryCount (front ++ [done ++ [h]]) < maxFileCount)
    (agree : Agree (readLayers (front ++ [done])).fileMap (rootfs (front ++ [done]))) :
    Agree (readLayers (front ++ [done ++ [h]])).fileMap (rootfs (front ++ [done ++ [h]])) ↔
      Sound (readLayers (front ++ [done])).fileMap (ownPaths done) h := by
  have split : ownPaths (done ++ [h]) = ownPaths done ++ ownPaths [h] := filterMap_append
  have below' : entryCount (front ++ [done]) < maxFileCount := by
    rw [entry_count_append, entry_count_single] at below ⊢
    rw [split, length_append] at below
    omega
  have read : readLayers (front ++ [done ++ [h]]) = readEntry (readLayers (front ++ [done])) h := by
    rw [read_layers_concat below, read_layers_concat below', foldl_concat]
  have applied : rootfs (front ++ [done ++ [h]]) =
      (applyEntry (done.foldl applyEntry ⟨rootfs front, []⟩) h).files := by
    rw [rootfs_concat, foldl_concat]
  have grounded : Grounded (done.foldl applyEntry ⟨rootfs front, []⟩).files :=
    fold_grounded (rootfs_grounded front) done
  rw [rootfs_concat] at agree
  rw [read, applied, step_agrees (layers_closed below') agree grounded, own_fold]

theorem part_below {done more : List Header} (part : front ++ [done ++ more] <+: layers) :
    entryCount (front ++ [done]) ≤ entryCount layers := by
  obtain ⟨rest, rfl⟩ := part
  have split : ownPaths (done ++ more) = ownPaths done ++ ownPaths more := filterMap_append
  rw [entry_count_append, entry_count_append, entry_count_append, entry_count_single,
    entry_count_single, split, length_append]
  omega

/-- The image and each beginning of it are shown as they are exactly when every entry meets a flat map
in which it is a sound one. -/
theorem image_shown_iff (layers : List (List Header)) (below : entryCount layers < maxFileCount) :
    (∀ cut, Beginning cut layers → ShowsImage cut) ↔
      ∀ front done h more, front ++ [done ++ h :: more] <+: layers →
        Sound (readLayers (front ++ [done])).fileMap (ownPaths done) h := by
  have grow : ∀ (done : List Header) h more, done ++ h :: more = (done ++ [h]) ++ more := by simp
  constructor
  · intro shows front done h more part
    have part' : front ++ [(done ++ [h]) ++ more] <+: layers := grow done h more ▸ part
    have short := Nat.lt_of_le_of_lt (part_below part) below
    have short' := Nat.lt_of_le_of_lt (part_below part') below
    have agree := (shows_iff_agree short).mp (shows _ (.inr ⟨front, done, h :: more, rfl, part⟩))
    have agree' := (shows_iff_agree short').mp (shows _ (.inr ⟨front, done ++ [h], more, rfl, part'⟩))
    exact (entry_agrees short' agree).mp agree'
  · intro sound
    have parts : ∀ front done more, front ++ [done ++ more] <+: layers →
        Agree (readLayers front).fileMap (rootfs front) →
        Agree (readLayers (front ++ [done])).fileMap (rootfs (front ++ [done])) := by
      intro front done more part start
      induction done using reverseRecOn generalizing more with
      | nil =>
        rw [read_layers_concat (Nat.lt_of_le_of_lt (part_below part) below), rootfs_concat]
        exact start
      | append_singleton done h ih =>
        have part' : front ++ [done ++ h :: more] <+: layers := (grow done h more).symm ▸ part
        exact (entry_agrees (Nat.lt_of_le_of_lt (part_below part) below) (ih (h :: more) part')).mpr
          (sound front done h more part')
    have wholes : ∀ cut, cut <+: layers → Agree (readLayers cut).fileMap (rootfs cut) := by
      intro cut part
      induction cut using reverseRecOn with
      | nil => exact start_agrees
      | append_singleton front layer ih =>
        refine parts front layer [] (by rwa [append_nil]) (ih ?_)
        exact (prefix_append front [layer]).trans part
    rintro cut (whole | ⟨front, done, more, rfl, part⟩)
    · obtain ⟨rest, rfl⟩ := whole
      rw [entry_count_append] at below
      exact (shows_iff_agree (by omega)).mpr (wholes cut (prefix_append _ _))
    · refine (shows_iff_agree (Nat.lt_of_le_of_lt (part_below part) below)).mpr ?_
      exact parts front done more part (wholes front ((prefix_append _ _).trans part))

def fileEntry (name : String) (size : Int) : Header := ⟨name, .reg, size, "-rw-r--r--", 420, "", ""⟩

def dirEntry (name : String) : Header := ⟨name, .dir, 0, "drwxr-xr-x", 493, "", ""⟩

def linkEntry (name target : String) : Header := ⟨name, .link, 0, "-rw-r--r--", 420, "", target⟩

/-- An opaque marker that hides nothing, a whiteout that hides a file of its own layer, a file that
comes back with the directory it was in, a hard link without its file's size, and a file that stands
above another. -/
theorem layers_misread : ¬ ShowsImage [[fileEntry "d/x" 1], [fileEntry "d/.wh..wh..opq" 0]] ∧
      ¬ ShowsImage [[fileEntry "x" 1, fileEntry ".wh.x" 0]] ∧
      ¬ ShowsImage [[fileEntry "d/x" 1], [fileEntry "d" 2], [dirEntry "d"]] ∧
      ¬ ShowsImage [[fileEntry "x" 1, linkEntry "y" "x"]] ∧
      ¬ ShowsImage [[fileEntry "x" 1], [fileEntry "x/y" 2]] := by
  refine ⟨fun shows => ?_, fun shows => ?_, fun shows => ?_, fun shows => ?_, fun shows => ?_⟩
  · exact absurd ((shows.same ["d", "x"] (by decide) ⟨.file, 1⟩).mp (by decide +kernel))
      (by decide +kernel)
  · exact absurd ((shows.same ["x"] (by decide) ⟨.file, 1⟩).mpr (by decide +kernel))
      (by decide +kernel)
  · exact absurd ((shows.same ["d", "x"] (by decide) ⟨.file, 1⟩).mp (by decide +kernel))
      (by decide +kernel)
  · exact absurd ((shows.same ["y"] (by decide) ⟨.file, 1⟩).mpr (by decide +kernel))
      (by decide +kernel)
  · exact absurd ((shows.same ["x", "y"] (by decide) ⟨.file, 2⟩).mpr (by decide +kernel))
      (by decide +kernel)

theorem plain_place : ruleOf (fileEntry "x" 1) = .place ["x"] := by decide +kernel

theorem plain_hide : ruleOf (fileEntry ".wh.x" 0) = .hide ["x"] := by decide +kernel

theorem removed_file_shown : ShowsImage [[fileEntry "x" 1], [fileEntry ".wh.x" 0]] := by
  refine (image_shown_iff [[fileEntry "x" 1], [fileEntry ".wh.x" 0]] (by decide +kernel)).mpr ?_ _
    (.inl prefix_rfl)
  rintro front done h more ⟨rest, whole⟩
  rw [append_assoc, singleton_append] at whole
  cases front with
  | nil =>
    have first := (cons.inj whole).1
    cases done with
    | nil =>
      obtain rfl := (cons.inj first).1
      unfold Sound
      rw [plain_place]
      refine ⟨rfl, fun a below there => ?_, fun flag => absurd flag (by decide),
        fun flag => absurd flag (by decide)⟩
      rw [show ["x"] = [] ++ ["x"] from rfl, below_concat, prefix_nil] at below
      rw [below]
      rfl
    | cons _ done => simp at first
  | cons _ front =>
    have later := (cons.inj whole).2
    cases front with
    | nil =>
      have second := (cons.inj later).1
      cases done with
      | nil =>
        obtain rfl := (cons.inj second).1
        unfold Sound
        rw [plain_hide]
        rintro q _ _ _ ⟨o, own, _⟩
        exact absurd own not_mem_nil
      | cons _ done => simp at second
    | cons _ front => simp at later

end Images
end LayerTree
