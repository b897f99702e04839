import Radar.Images.LayerTree

/- The OCI rules for applying an image's layers, over abstract file systems, and when a flat map of
   nodes shows such a file system. -/
namespace LayerTree
open GoText KeyedFold List

section Rules

structure Shape where
  type : FileType
  size : Int
  deriving DecidableEq

abbrev Files := Path → Option Shape

def Below (a q : Path) : Prop := a <+: q ∧ q ≠ a

instance (a q : Path) : Decidable (Below a q) := inferInstanceAs (Decidable (_ ∧ _))

inductive Rule where
  | hide (path : Path)
  | hideBelow (dir : Path)
  | place (path : Path)
  | skip
  deriving DecidableEq

/-- What an entry asks for: a whiteout names the file that goes, the opaque marker its directory. -/
@[irreducible] def ruleOf (h : Header) : Rule :=
  if base (entryPath h) = ".wh..wh..opq" then .hideBelow (dir (entryPath h))
  else
    match cutPrefix (base (entryPath h)) ".wh." with
    | some after => .hide (joinPath (dir (entryPath h)) after)
    | none => if entryPath h = [] then .skip else .place (entryPath h)

/-- A file system while a layer is applied; `own` holds the paths the layer itself has put there. -/
structure Layered where
  files : Files
  own : List Path

/-- Own entries and the directories above them. -/
def Kept (own : List Path) (q : Path) : Prop := ∃ o ∈ own, q <+: o

instance (own : List Path) (q : Path) : Decidable (Kept own q) :=
  inferInstanceAs (Decidable (∃ o ∈ own, q <+: o))

/-- A hard link is the file it leads to; all else is what its header says. -/
def shapeOf (files : Files) (h : Header) : Shape := match h.typeflag, files (clean ("/" ++ h.linkname)) with
  | .link, some ⟨.file, size⟩ => ⟨.file, size⟩
  | .link, some ⟨.symlink, size⟩ => ⟨.symlink, size⟩
  | flag, _ => ⟨typeOf flag, h.size⟩

/-- What stands above the path becomes directories; below it only a directory keeps what a directory
had. -/
def placed (files : Files) (path : Path) (shape : Shape) : Files := fun q => if q = path then some shape
  else if q <+: path then
    if (files q).map (·.type) = some .dir then files q else some ⟨.dir, 0⟩
  else if path <+: q then
    if shape.type = .dir ∧ (files path).map (·.type) = some .dir then files q else none
  else files q

def applyEntry (s : Layered) (h : Header) : Layered := match ruleOf h with
  | .hide path =>
    { s with files := fun q => if path <+: q ∧ ¬ Kept s.own q then none else s.files q }
  | .hideBelow dir =>
    { s with files := fun q => if Below dir q ∧ ¬ Kept s.own q then none else s.files q }
  | .place path => ⟨placed s.files path (shapeOf s.files h), s.own ++ [path]⟩
  | .skip => s

def applyLayer (files : Files) (layer : List Header) : Files := (layer.foldl applyEntry ⟨files, []⟩).files

/-- The file system of an image, below the root. -/
def rootfs (layers : List (List Header)) : Files := layers.foldl applyLayer fun _ => none

end Rules

section Shown
variable {m : FileMap}

def Node.shape (n : Node) : Shape := ⟨n.type, n.size⟩

def IsDir (m : FileMap) (path : Path) : Prop := (lookup m path).map (·.type) = some .dir

/-- The map has the path, and all above it are directories of the map. -/
def Shown (m : FileMap) (path : Path) (shape : Shape) : Prop :=
  (∀ a, Below a path → IsDir m a) ∧ (lookup m path).map Node.shape = some shape

def Stands (m : FileMap) (path : Path) : Prop := ∃ shape, Shown m path shape

def Agree (m : FileMap) (files : Files) : Prop :=
  ∀ q, q ≠ [] → ∀ shape, Shown m q shape ↔ files q = some shape

/-- A path is in the map once, with all that is above it save perhaps the root. -/
structure Closed (m : FileMap) : Prop where
  distinct : (m.map Node.path).Nodup
  above : ∀ a q, Below a q → a ≠ [] → (lookup m q).isSome → (lookup m a).isSome

theorem below_of_below {a p q : Path} (first : Below a p) (second : p <+: q) : Below a q := by
  refine ⟨first.1.trans second, fun same => first.2 ?_⟩
  subst same
  exact second.eq_of_length_le first.1.length_le

theorem below_or_above {a p q : Path} (above : a <+: q) (other : p <+: q) : Below a p ∨ p <+: a := by
  rcases prefix_or_prefix_of_prefix above other with first | second
  · by_cases same : p = a
    · exact .inr (same ▸ prefix_rfl)
    · exact .inl ⟨first, same⟩
  · exact .inr second

theorem lookup_iff (distinct : (m.map Node.path).Nodup) {path : Path} {n : Node} :
    lookup m path = some n ↔ n ∈ m ∧ n.path = path := by
  constructor
  · intro found
    have own := find?_some found
    rw [beq_iff_eq] at own
    exact ⟨mem_of_find?_eq_some found, own⟩
  · rintro ⟨member, rfl⟩
    cases found : lookup m n.path with
    | none => exact absurd (beq_self_eq_true n.path) (find?_eq_none.mp found n member)
    | some n' =>
      have own := find?_some found
      rw [beq_iff_eq] at own
      rw [inj_on_of_nodup_map distinct (mem_of_find?_eq_some found) member own]

end Shown

section Steps
variable {m : FileMap}

/-- The steps after which the flat map still shows the file system: a whiteout finds nothing that its
own layer has put there, an opaque marker nothing else, an entry finds directories above it, a
directory does not come to stand where something was left below a file, and a hard link has its
file's size. -/
def Sound (m : FileMap) (own : List Path) (h : Header) : Prop := match ruleOf h with
  | .hide path => ∀ q, q ≠ [] → Stands m q → path <+: q → ¬ Kept own q
  | .hideBelow dir => ∀ q, q ≠ [] → Stands m q → Below dir q → (Kept own q ↔ ¬ (dir ++ [".wh..opq"]) <+: q)
  | .place path => IsDir m [] ∧ (∀ a, Below a path → (lookup m a).isSome → IsDir m a) ∧
    (h.typeflag = .dir → IsDir m path ∨ ∀ n ∈ m, ¬ Below path n.path) ∧
    (h.typeflag = .link → clean ("/" ++ h.linkname) ≠ [] → ∀ shape,
      Shown m (clean ("/" ++ h.linkname)) shape → shape.type = .dir ∨ shape = ⟨.file, h.size⟩)
  | .skip => True

theorem lookup_put (distinct : (m.map Node.path).Nodup) (n : Node) (q : Path) :
    lookup (put Node.path m n) q = if n.path = q then some n else lookup m q := by
  have distinct' := put_nodup distinct n
  ext n'
  rw [lookup_iff distinct', mem_put distinct]
  split
  next same =>
    subst same
    constructor
    · rintro ⟨rfl | ⟨_, other⟩, own⟩
      · rfl
      · exact absurd own other
    · rintro ⟨⟩
      exact ⟨.inl rfl, rfl⟩
  next differ =>
    rw [lookup_iff distinct]
    constructor
    · rintro ⟨rfl | ⟨member, _⟩, own⟩
      · exact absurd own differ
      · exact ⟨member, own⟩
    · rintro ⟨member, rfl⟩
      exact ⟨.inr ⟨member, Ne.symm differ⟩, rfl⟩

theorem below_concat {a up : Path} {name : String} : Below a (up ++ [name]) ↔ a <+: up := by
  rw [Below, prefix_concat_iff]
  constructor
  · rintro ⟨same | above, differ⟩
    · exact absurd same.symm differ
    · exact above
  · intro above
    refine ⟨.inr above, fun same => ?_⟩
    have longer := above.length_le
    rw [← same, length_append] at longer
    exact absurd longer (by simp)

/-- The missing parents come in as directories, and nothing else changes. -/
theorem ensure_lookup (rev : List String) (distinct : (m.map Node.path).Nodup)
    (above : ∀ a c, Below a rev.reverse → c <+: a → c ≠ [] → (lookup m a).isSome → (lookup m c).isSome) :
    ((ensureUp m rev).map Node.path).Nodup ∧ ∀ q, lookup (ensureUp m rev) q =
      if Below q rev.reverse ∧ q ≠ [] ∧ lookup m q = none then some (dirNode q) else lookup m q := by
  induction rev generalizing m with
  | nil =>
    refine ⟨distinct, fun q => (if_neg ?_).symm⟩
    rintro ⟨⟨short, differ⟩, _⟩
    exact differ (prefix_nil.mp short).symm
  | cons name up ih =>
    rw [reverse_cons] at above ⊢
    unfold ensureUp
    by_cases top : up = []
    · rw [if_pos top]
      refine ⟨distinct, fun q => (if_neg ?_).symm⟩
      rintro ⟨below, some_, _⟩
      rw [below_concat, top] at below
      exact some_ (prefix_nil.mp below)
    · rw [if_neg top]
      by_cases there : (lookup m up.reverse).isSome
      · rw [if_pos there]
        refine ⟨distinct, fun q => (if_neg ?_).symm⟩
        rintro ⟨below, some_, missing⟩
        have held := above up.reverse q (below_concat.mpr prefix_rfl) (below_concat.mp below)
          some_ there
        rw [missing] at held
        exact absurd held (by simp)
      · rw [if_neg there]
        have added : ∀ q, lookup (put Node.path m (dirNode up.reverse)) q =
            if up.reverse = q then some (dirNode up.reverse) else lookup m q :=
          lookup_put distinct (dirNode up.reverse)
        obtain ⟨distinct', found⟩ := ih (m := put Node.path m (dirNode up.reverse))
          (put_nodup distinct _) (by
            intro a c below prefix_ some_ held
            rw [added, if_neg (Ne.symm below.2.symm)] at held
            rw [added]
            split
            · rfl
            · exact above a c (below_concat.mpr below.1) prefix_ some_ held)
        refine ⟨distinct', fun q => ?_⟩
        rw [found, added]
        by_cases parent : up.reverse = q
        · subst parent
          have missing : lookup m up.reverse = none := Option.not_isSome_iff_eq_none.mp there
          have deep : up.reverse ≠ [] := fun none_ => top (reverse_eq_nil_iff.mp none_)
          have itself : ¬ Below up.reverse up.reverse := fun below => below.2 rfl
          rw [if_neg fun all => itself all.1, if_pos rfl,
            if_pos ⟨below_concat.mpr prefix_rfl, deep, missing⟩]
        · rw [if_neg parent]
          have same : Below q up.reverse ↔ Below q (up.reverse ++ [name]) := by
            rw [below_concat, Below, and_iff_left (Ne.symm (Ne.symm parent))]
          simp only [same]

theorem delete_lookup (distinct : (m.map Node.path).Nodup) (path q : Path) :
    lookup (deleteFromTree m path) q =
      if q = path ∨ (path ≠ [] ∧ path <+: q) then none else lookup m q := by
  have part : List.Sublist ((deleteFromTree m path).map Node.path) (m.map Node.path) :=
    filter_sublist.map Node.path
  have stays : ∀ n, n ∈ deleteFromTree m path ↔
      n ∈ m ∧ ¬ (n.path = path ∨ (path ≠ [] ∧ path <+: n.path)) := by
    intro n
    rw [deleteFromTree, mem_filter, ← isPrefixOf_iff_prefix]
    cases path.isPrefixOf n.path <;> simp
  ext n
  rw [lookup_iff (distinct.sublist part), stays]
  split
  next gone =>
    refine ⟨?_, fun none_ => absurd none_ (by simp)⟩
    rintro ⟨⟨_, left_⟩, rfl⟩
    exact absurd gone left_
  next left_ =>
    rw [lookup_iff distinct]
    constructor
    · rintro ⟨⟨member, _⟩, own⟩
      exact ⟨member, own⟩
    · rintro ⟨member, rfl⟩
      exact ⟨⟨member, left_⟩, rfl⟩

end Steps
end LayerTree
