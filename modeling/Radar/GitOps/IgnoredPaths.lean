import Radar.Base.Segments
import Radar.GitOps.Drift

/- pkg/gitops/insights/drift.go, filterIgnoredPaths: JSON pointers compared with the paths of the
   report, both of them written with dots. -/
namespace Drift
open GoText JsonText Segments List

section Filter

def pathMatchesAnyPrefix (path : String) (prefixes : List String) : Bool := prefixes.any fun prefix_ =>
    path == prefix_ || hasPrefix path (prefix_ ++ ".") || hasPrefix path (prefix_ ++ ".[")

/-- The prefix a pointer stands for, a blank one being passed over. -/
def prefixOf (pointer : String) : Option String := let p := trimSpace pointer
  if p = "" then none else some (replaceChar '/' "." (trimPrefix p "/"))

def filterIgnoredPaths (entries : List DriftEntry) (pointers : List String) : List DriftEntry :=
  if pointers.isEmpty then entries
  else entries.filter fun e => !pathMatchesAnyPrefix e.path (pointers.filterMap prefixOf)

theorem matches_iff {path : String} {prefixes : List String} : pathMatchesAnyPrefix path prefixes = true ↔
      ∃ prefix_ ∈ prefixes, prefix_.toList.splitOn '.' <+: path.toList.splitOn '.' := by
  rw [pathMatchesAnyPrefix, any_eq_true]
  apply exists_congr
  intro prefix_
  apply and_congr_right
  intro _
  rw [split_begins, Bool.or_eq_true, Bool.or_eq_true, beq_iff_eq, hasPrefix, hasPrefix,
    isPrefixOf_iff_prefix, isPrefixOf_iff_prefix, String.toList_append, String.toList_append,
    or_assoc, String.toList_inj]
  have bracket : prefix_.toList ++ ".[".toList <+: path.toList → prefix_.toList ++ ['.'] <+: path.toList := by
    rintro ⟨rest, whole⟩
    exact ⟨'[' :: rest, by rw [← whole]; simp⟩
  constructor
  · rintro (same | dot | further)
    · exact Or.inl same
    · exact Or.inr dot
    · exact Or.inr (bracket further)
  · rintro (same | dot)
    · exact Or.inl same
    · exact Or.inr (Or.inl dot)

theorem filter_removes {entries : List DriftEntry} {pointers : List String} {e : DriftEntry}
    (member : e ∈ entries) : e ∉ filterIgnoredPaths entries pointers ↔
      ∃ pointer ∈ pointers, ∃ prefix_ ∈ prefixOf pointer,
        prefix_.toList.splitOn '.' <+: e.path.toList.splitOn '.' := by
  have prefixes : (∃ prefix_ ∈ pointers.filterMap prefixOf,
      prefix_.toList.splitOn '.' <+: e.path.toList.splitOn '.') ↔
      ∃ pointer ∈ pointers, ∃ prefix_ ∈ prefixOf pointer,
        prefix_.toList.splitOn '.' <+: e.path.toList.splitOn '.' := by
    simp only [mem_filterMap]
    constructor
    · rintro ⟨prefix_, ⟨pointer, there, made⟩, first⟩
      exact ⟨pointer, there, prefix_, made, first⟩
    · rintro ⟨pointer, there, prefix_, made, first⟩
      exact ⟨prefix_, ⟨pointer, there, made⟩, first⟩
  rw [← prefixes, ← matches_iff, filterIgnoredPaths]
  cases pointers with
  | nil => simp [member, pathMatchesAnyPrefix]
  | cons pointer rest => simp [member]

end Filter

section Located
variable (walk : Walk)

/-- The entries of diffValues, each with the keys that lead to it. -/
def located (trail : List String) (path : String) (desired live : Json) : List (List String × DriftEntry) :=
  match desired, live with
  | .object dMap, .object lMap =>
    if isNilish (.object dMap) || isNilish (.object lMap) then
      (diffValues walk trail path (.object dMap) (.object lMap)).map (Prod.mk trail)
    else
      (walk.order trail (keyUnion dMap lMap)).flatMap fun k =>
        located (trail ++ [k]) (joinPath path k) (valueAt dMap k) (valueAt lMap k)
  | _, _ => (diffValues walk trail path desired live).map (Prod.mk trail)
termination_by sizeOf desired + sizeOf live
decreasing_by
  have fewer := valueAt_size dMap k
  have fewer' := valueAt_size lMap k
  omega

variable {walk} {trail : List String} {path : String} {desired live : Json}

theorem located_maps {dMap lMap : Entries} (here : isNilish (.object dMap) = false)
    (there : isNilish (.object lMap) = false) :
    located walk trail path (.object dMap) (.object lMap) =
      (walk.order trail (keyUnion dMap lMap)).flatMap fun k =>
        located walk (trail ++ [k]) (joinPath path k) (valueAt dMap k) (valueAt lMap k) := by
  rw [located.eq_def]
  exact if_neg (by rw [here, there]; decide)

/-- The values are not both maps with something in them, so that the comparison ends with them. -/
def Ends (desired live : Json) : Prop :=
  BothMaps desired live → isNilish desired = true ∨ isNilish live = true

theorem located_ends (ends : Ends desired live) :
    located walk trail path desired live = (diffValues walk trail path desired live).map (Prod.mk trail) := by
  rw [located.eq_def]
  cases desired with
  | object dMap =>
    cases live with
    | object lMap => exact if_pos (Bool.or_eq_true _ _ ▸ ends ⟨dMap, lMap, rfl, rfl⟩)
    | _ => rfl
  | _ => rfl

theorem located_induction {motive : Json → Json → Prop}
    (ends : ∀ desired live, Ends desired live → motive desired live)
    (maps : ∀ dMap lMap, isNilish (.object dMap) = false → isNilish (.object lMap) = false →
      (∀ k, motive (valueAt dMap k) (valueAt lMap k)) → motive (.object dMap) (.object lMap))
    (desired live : Json) : motive desired live := by
  induction desired, live using pair_induction with
  | none desired live here _ => exact ends desired live fun _ => Or.inl here
  | added desired live here _ => exact ends desired live fun _ => Or.inl here
  | removed desired live _ there => exact ends desired live fun _ => Or.inr there
  | maps dMap lMap here there ih => exact maps dMap lMap here there ih
  | leaves desired live _ _ both => exact ends desired live fun maps => absurd maps both

theorem located_entries (desired live : Json) : ∀ trail path,
    (located walk trail path desired live).map Prod.snd = diffValues walk trail path desired live := by
  induction desired, live using located_induction with
  | ends desired live ends =>
    intro trail path
    rw [located_ends ends, map_map]
    exact map_id _
  | maps dMap lMap here there ih =>
    intro trail path
    rw [located_maps here there, diff_maps here there, map_flatMap]
    simp only [ih]

/-- joinPath along a path of keys. -/
def flatten (keys : List String) : String := keys.foldl joinPath ""

theorem entry_path {e : DriftEntry} (ends : Ends desired live)
    (reported : e ∈ diffValues walk trail path desired live) : e.path = path := by
  cases here : isNilish desired with
  | true =>
    cases there : isNilish live with
    | true =>
      rw [diff_none here there] at reported
      cases reported
    | false =>
      rw [diff_added here there, mem_singleton] at reported
      rw [reported]
  | false =>
    cases there : isNilish live with
    | true =>
      rw [diff_removed here there, mem_singleton] at reported
      rw [reported]
    | false =>
      have leaves : ¬ BothMaps desired live := by
        intro both
        rcases ends both with empty | empty
        · simp [here] at empty
        · simp [there] at empty
      rw [diff_leaves here there leaves] at reported
      split at reported
      · cases reported
      · rw [mem_singleton] at reported
        rw [reported]

/-- The keys continue those of the place the comparison began at, and the path is made of them. -/
theorem located_path (desired live : Json) : ∀ trail, ∀ x ∈ located walk trail (flatten trail) desired live,
    x.2.path = flatten x.1 ∧ trail <+: x.1 := by
  induction desired, live using located_induction with
  | ends desired live ends =>
    intro trail x member
    rw [located_ends ends] at member
    obtain ⟨e, reported, rfl⟩ := mem_map.mp member
    exact ⟨entry_path ends reported, prefix_refl trail⟩
  | maps dMap lMap here there ih =>
    intro trail x member
    rw [located_maps here there] at member
    obtain ⟨k, _, inside⟩ := mem_flatMap.mp member
    have longer : joinPath (flatten trail) k = flatten (trail ++ [k]) := by
      rw [flatten, flatten, foldl_append]
      rfl
    rw [longer] at inside
    obtain ⟨path, further⟩ := ih k (trail ++ [k]) x inside
    exact ⟨path, (prefix_append trail [k]).trans further⟩

end Located

section Pieces

def rendered (key : String) : List Char :=
  if isAllDigits key then '[' :: (key.toList ++ [']']) else key.toList

theorem joinPath_toList {prefix_ : String} (some_ : prefix_ ≠ "") (key : String) :
    (joinPath prefix_ key).toList = prefix_.toList ++ '.' :: rendered key := by
  rw [joinPath, if_neg some_, rendered]
  by_cases digits : isAllDigits key = true
  · rw [if_pos digits, if_pos digits]
    simp [String.toList_append]
  · rw [if_neg digits, if_neg digits]
    simp [String.toList_append]

theorem path_toList {root : String} (some_ : root ≠ "") (keys : List String) :
    (keys.foldl joinPath root).toList = join '.' (root.toList :: keys.map rendered) := by
  induction keys generalizing root with
  | nil => simp [join]
  | cons key rest ih =>
    have text := joinPath_toList some_ key
    have further : joinPath root key ≠ "" := by
      intro empty
      rw [empty] at text
      simp at text
    rw [foldl_cons, ih further, text, map_cons, join, join, intercalate_cons_cons]
    cases rest with
    | nil => simp
    | cons next more => simp [intercalate_cons_cons]

/-- The keys as the path spells them, cut at their dots. -/
def keyPieces (keys : List String) : List (List Char) := (keys.map rendered).flatMap (List.splitOn '.')

theorem flatten_pieces {root : String} (plain : isAllDigits root = false) (some_ : root ≠ "")
    (keys : List String) : (flatten (root :: keys)).toList.splitOn '.' = keyPieces (root :: keys) := by
  have own : rendered root = root.toList := by simp [rendered, plain]
  have start : flatten (root :: keys) = keys.foldl joinPath root := rfl
  rw [start, path_toList some_, split_join (cons_ne_nil _ _), keyPieces, map_cons, own]

end Pieces

section Pointers
variable {tokens : List String}

def encodeChar (c : Char) : List Char := if c = '~' then ['~', '0'] else if c = '/' then ['~', '1'] else [c]

/-- A reference token as it is written in a JSON pointer. -/
def encode (token : String) : List Char := token.toList.flatMap encodeChar

/-- The pointer of a list of tokens, of which every pointer is the one of exactly one list. -/
def pointerText (tokens : List String) : String :=
  String.ofList (tokens.flatMap fun token => '/' :: encode token)

/-- The written tokens, the blanks at the end of the last one cut off. -/
def trimmedTokens : List String → List (List Char)
  | [] => []
  | [token] => [trimEnd (encode token)]
  | token :: next :: rest => encode token :: trimmedTokens (next :: rest)

theorem slash_solid : isSpace '/' = false := by decide

theorem trimmed_text (some_ : tokens ≠ []) : trimEnd (tokens.flatMap fun token => '/' :: encode token) =
      (trimmedTokens tokens).flatMap fun text => '/' :: text := by
  induction tokens with
  | nil => contradiction
  | cons token rest ih =>
    cases rest with
    | nil => simpa [trimmedTokens] using trimEnd_behind slash_solid [] (encode token)
    | cons next more =>
      let after := encode next ++ more.flatMap fun t => '/' :: encode t
      have tail := ih (cons_ne_nil next more)
      have behind : trimEnd ('/' :: after) = '/' :: trimEnd after := trimEnd_behind slash_solid [] after
      calc trimEnd ((token :: next :: more).flatMap fun t => '/' :: encode t)
          = trimEnd (('/' :: encode token) ++ '/' :: after) := rfl
        _ = ('/' :: encode token) ++ '/' :: trimEnd after := trimEnd_behind slash_solid _ after
        _ = ('/' :: encode token) ++ (trimmedTokens (next :: more)).flatMap fun text => '/' :: text := by
          rw [← behind, ← tail]
          rfl

theorem encode_no_slash (token : String) : '/' ∉ encode token := by
  rw [encode, mem_flatMap]
  rintro ⟨c, _, inside⟩
  rw [encodeChar] at inside
  split at inside
  · simp at inside
  · split at inside
    · simp at inside
    · rename_i other
      exact other (mem_singleton.mp inside).symm

theorem trimEnd_begins (text : List Char) : trimEnd text <+: text := by
  rw [trimEnd, ← reverse_suffix, reverse_reverse]
  exact dropWhile_suffix _

theorem trimmed_no_slash (tokens : List String) : ∀ text ∈ trimmedTokens tokens, '/' ∉ text := by
  induction tokens with
  | nil => exact fun _ member => absurd member not_mem_nil
  | cons token rest ih =>
    cases rest with
    | nil =>
      intro text member slash
      rw [trimmedTokens, mem_singleton] at member
      subst member
      exact encode_no_slash token ((trimEnd_begins _).subset slash)
    | cons next more =>
      intro text member
      rcases mem_cons.mp member with rfl | later
      · exact encode_no_slash token
      · exact ih text later

theorem replaced_join {pieces : List (List Char)} (plain : ∀ piece ∈ pieces, '/' ∉ piece) :
    (join '/' pieces).flatMap (fun c => if c = '/' then ".".toList else [c]) = join '.' pieces := by
  have kept : ∀ piece : List Char, '/' ∉ piece →
      piece.flatMap (fun c => if c = '/' then ".".toList else [c]) = piece := by
    intro piece absent
    induction piece with
    | nil => rfl
    | cons c rest ih =>
      have other : c ≠ '/' := fun same => absent (same ▸ mem_cons_self)
      rw [flatMap_cons, if_neg other, ih fun member => absent (mem_cons_of_mem c member)]
      rfl
  induction pieces with
  | nil => rfl
  | cons piece rest ih =>
    obtain ⟨first, later⟩ := forall_mem_cons.mp plain
    cases rest with
    | nil => simpa [join] using kept piece first
    | cons next more =>
      have tail := ih later
      simp only [join, intercalate_cons_cons] at tail ⊢
      rw [flatMap_append, flatMap_append, kept piece first, tail]
      rfl

theorem slashed_join (piece : List Char) (rest : List (List Char)) :
    (piece :: rest).flatMap (fun text => '/' :: text) = '/' :: join '/' (piece :: rest) := by
  induction rest generalizing piece with
  | nil => simp [join]
  | cons next more ih =>
    rw [flatMap_cons, ih next]
    simp [join, intercalate_cons_cons]

theorem trimmed_some (some_ : tokens ≠ []) : trimmedTokens tokens ≠ [] := by
  cases tokens with
  | nil => contradiction
  | cons token rest => cases rest <;> simp [trimmedTokens]

theorem prefixOf_pointer (some_ : tokens ≠ []) :
    prefixOf (pointerText tokens) = some (String.ofList (join '.' (trimmedTokens tokens))) := by
  have opens : (pointerText tokens).toList.dropWhile isSpace = (pointerText tokens).toList := by
    rw [pointerText, String.toList_ofList]
    cases tokens with
    | nil => contradiction
    | cons token rest => rw [flatMap_cons, cons_append, dropWhile_cons, slash_solid]; rfl
  have trimmed : trimSpace (pointerText tokens) =
      String.ofList ('/' :: join '/' (trimmedTokens tokens)) := by
    obtain ⟨piece, rest, pieces⟩ := exists_cons_of_ne_nil (trimmed_some some_)
    rw [pieces, ← slashed_join, ← pieces, ← trimmed_text some_, trimSpace, opens, trimEnd, pointerText,
      String.toList_ofList]
  have named : String.ofList ('/' :: join '/' (trimmedTokens tokens)) ≠ "" := by
    intro empty
    simpa using congrArg String.toList empty
  have cut : trimPrefix (String.ofList ('/' :: join '/' (trimmedTokens tokens))) "/" =
      String.ofList (join '/' (trimmedTokens tokens)) := by
    simp [trimPrefix, cutPrefix, hasPrefix]
  rw [prefixOf, trimmed]
  simp only [named, if_false, cut, replaceChar, String.toList_ofList,
    replaced_join (trimmed_no_slash tokens)]

theorem prefixOf_whole : prefixOf (pointerText []) = none := by decide

end Pointers

end Drift
