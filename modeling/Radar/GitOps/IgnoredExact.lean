import Radar.GitOps.IgnoredPaths

/- Which pointers take out the entries they name and no others: those that are written as the path
   writes keys. -/
namespace Drift
open GoText JsonText Segments List

section Spelling
variable {token : String}

/-- Written in a pointer as it is. -/
def Unescaped (token : String) : Prop := '~' ∉ token.toList ∧ '/' ∉ token.toList

instance : DecidablePred Unescaped := fun _ => inferInstanceAs (Decidable (_ ∧ _))

/-- Pointers that spell their tokens the way a path spells keys. -/
structure Plain (tokens : List String) : Prop where
  some_ : tokens ≠ []
  unescaped : ∀ token ∈ tokens, Unescaped token
  unbracketed : ∀ token ∈ tokens, isAllDigits token = false
  untrimmed : ∀ token ∈ tokens.getLast?, trimEnd token.toList = token.toList

def solid (c : Char) : Bool := !isSpace c

def special (c : Char) : Bool := c = '~' || c = '/'

theorem encodeChar_solid (c : Char) : (encodeChar c).countP solid = [c].countP solid + [c].countP special := by
  by_cases tilde : c = '~'
  · subst tilde
    decide
  · by_cases slash : c = '/'
    · subst slash
      decide
    · simp [encodeChar, tilde, slash, special]

theorem encodeChar_dots (c : Char) : (encodeChar c).count '.' = [c].count '.' := by
  by_cases tilde : c = '~'
  · subst tilde
    decide
  · by_cases slash : c = '/'
    · subst slash
      decide
    · rw [encodeChar, if_neg tilde, if_neg slash]

theorem encode_solid (token : String) : (encode token).countP solid =
    token.toList.countP solid + token.toList.countP special := by
  rw [encode]
  induction token.toList with
  | nil => rfl
  | cons c rest ih =>
    have first : ∀ p : Char → Bool, (c :: rest).countP p = [c].countP p + rest.countP p := by
      intro p
      rw [← countP_append, singleton_append]
    rw [flatMap_cons, countP_append, ih, encodeChar_solid, first, first]
    omega

theorem encode_dots (token : String) : (encode token).count '.' = token.toList.count '.' := by
  rw [encode]
  induction token.toList with
  | nil => rfl
  | cons c rest ih =>
    rw [flatMap_cons, count_append, ih, encodeChar_dots, ← count_append,
      singleton_append]

theorem encode_plain (plain : Unescaped token) : encode token = token.toList := by
  have kept : ∀ text : List Char, '~' ∉ text → '/' ∉ text → text.flatMap encodeChar = text := by
    intro text noTilde noSlash
    induction text with
    | nil => rfl
    | cons c rest ih =>
      have tilde : c ≠ '~' := fun same => noTilde (same ▸ mem_cons_self)
      have slash : c ≠ '/' := fun same => noSlash (same ▸ mem_cons_self)
      rw [flatMap_cons, encodeChar, if_neg tilde, if_neg slash,
        ih (fun member => noTilde (mem_cons_of_mem c member))
          (fun member => noSlash (mem_cons_of_mem c member))]
      rfl
  exact kept token.toList plain.1 plain.2

theorem rendered_dots (key : String) : (rendered key).count '.' = key.toList.count '.' := by
  rw [rendered]
  split
  · simp [count_append]
  · rfl

theorem rendered_solid (key : String) : (rendered key).countP solid =
    key.toList.countP solid + if isAllDigits key then 2 else 0 := by
  rw [rendered]
  split
  · have ends : solid '[' = true ∧ solid ']' = true := by decide
    rw [countP_cons_of_pos ends.1, countP_append, countP_singleton, if_pos ends.2]
  · rfl

theorem digits_special {key : String} (digits : isAllDigits key = true) : key.toList.countP special = 0 := by
  rw [countP_eq_zero]
  intro c member odd
  rw [isAllDigits, Bool.and_eq_true, all_eq_true] at digits
  have digit := digits.2 c member
  rw [special, Bool.or_eq_true, decide_eq_true_eq, decide_eq_true_eq] at odd
  rcases odd with rfl | rfl
  · exact absurd digit (by decide)
  · exact absurd digit (by decide)

/-- A token written with as many characters as it is encoded with, blanks aside, is spelt as the key
   only where it is not escaped and the key is not bracketed. -/
theorem spelt {text : List Char} (solids : text.countP solid = (encode token).countP solid)
    (same : text = rendered token) : Unescaped token ∧ isAllDigits token = false := by
  rw [same, rendered_solid, encode_solid, Nat.add_left_cancel_iff] at solids
  by_cases digits : isAllDigits token = true
  · rw [if_pos digits, digits_special digits] at solids
    cases solids
  · rw [if_neg digits] at solids
    have none := countP_eq_zero.mp solids.symm
    exact ⟨⟨fun member => none _ member (by decide), fun member => none _ member (by decide)⟩,
      Bool.not_eq_true _ ▸ digits⟩

theorem encode_rendered : encode token = rendered token ↔ Unescaped token ∧ isAllDigits token = false := by
  constructor
  · exact spelt rfl
  · rintro ⟨plain, digits⟩
    rw [encode_plain plain, rendered, digits]
    rfl

theorem trimmed_rendered : trimEnd (encode token) = rendered token ↔
    (Unescaped token ∧ isAllDigits token = false) ∧ trimEnd token.toList = token.toList := by
  constructor
  · intro same
    have solids := trimEnd_countP (p := solid) (fun c holds => by simpa [solid] using holds) (encode token)
    have plain := spelt solids same
    refine ⟨plain, ?_⟩
    rwa [encode_plain plain.1, rendered, plain.2] at same
  · rintro ⟨plain, ended⟩
    rw [encode_plain plain.1, ended, rendered, plain.2]
    rfl

theorem trimmed_dots (text : List Char) : (trimEnd text).count '.' = text.count '.' := by
  apply trimEnd_countP
  intro c dot
  rw [beq_iff_eq.mp dot]
  decide

theorem plain_single : Plain [token] ↔
    (Unescaped token ∧ isAllDigits token = false) ∧ trimEnd token.toList = token.toList := by
  constructor
  · intro plain
    exact ⟨⟨plain.unescaped token mem_cons_self, plain.unbracketed token mem_cons_self⟩,
      plain.untrimmed token rfl⟩
  · rintro ⟨⟨unescaped, unbracketed⟩, untrimmed⟩
    exact ⟨cons_ne_nil _ _, by simpa using unescaped, by simpa using unbracketed,
      by simpa using untrimmed⟩

theorem plain_cons {token next : String} {rest : List String} : Plain (token :: next :: rest) ↔
    (Unescaped token ∧ isAllDigits token = false) ∧ Plain (next :: rest) := by
  constructor
  · intro plain
    obtain ⟨first, later⟩ := forall_mem_cons.mp plain.unescaped
    obtain ⟨first', later'⟩ := forall_mem_cons.mp plain.unbracketed
    exact ⟨⟨first, first'⟩, cons_ne_nil _ _, later, later', by
      simpa [getLast?_cons_cons] using plain.untrimmed⟩
  · rintro ⟨⟨unescaped, unbracketed⟩, plain⟩
    exact ⟨cons_ne_nil _ _, forall_mem_cons.mpr ⟨unescaped, plain.unescaped⟩,
      forall_mem_cons.mpr ⟨unbracketed, plain.unbracketed⟩, by
      simpa [getLast?_cons_cons] using plain.untrimmed⟩

/-- A pointer that names the first keys of a path is read so exactly when it is plain. -/
theorem aligned {tokens : List String} (some_ : tokens ≠ []) (rest : List String) :
    (trimmedTokens tokens).flatMap (splitOn '.') <+: keyPieces (tokens ++ rest) ↔ Plain tokens := by
  induction tokens with
  | nil => contradiction
  | cons token more ih =>
    cases more with
    | nil =>
      have lengths : ((trimEnd (encode token)).splitOn '.').length = ((rendered token).splitOn '.').length := by
        rw [split_length, split_length, trimmed_dots, encode_dots, rendered_dots]
      rw [plain_single, ← trimmed_rendered, trimmedTokens, flatMap_cons, keyPieces,
        singleton_append, map_cons, flatMap_cons, prefix_append_inj_of_length_eq lengths]
      exact ⟨fun both => split_inj both.1, fun same => ⟨by rw [same], nil_prefix⟩⟩
    | cons next more =>
      have lengths : ((encode token).splitOn '.').length = ((rendered token).splitOn '.').length := by
        rw [split_length, split_length, encode_dots, rendered_dots]
      have tail := ih (cons_ne_nil next more)
      rw [plain_cons, ← encode_rendered, ← tail, trimmedTokens, flatMap_cons, keyPieces,
        cons_append, map_cons, flatMap_cons, prefix_append_inj_of_length_eq lengths]
      exact and_congr_left fun _ => ⟨split_inj, fun same => by rw [same]⟩

end Spelling

section Ignored
variable {walk : Walk} {desired live : Json} {pointers : List (List String)}
variable {tokens keys : List String}

/-- The pointer's pieces, cut at dots too, come first on the path, and its tokens are not the keys. -/
def Shadows (tokens keys : List String) : Prop :=
  (tokens ≠ [] ∧ (trimmedTokens tokens).flatMap (List.splitOn '.') <+: keyPieces keys) ∧ ¬ tokens <+: keys

theorem pointer_matches : (∃ prefix_ ∈ prefixOf (pointerText tokens),
      prefix_.toList.splitOn '.' <+: (flatten ("spec" :: keys)).toList.splitOn '.') ↔
      tokens ≠ [] ∧ (trimmedTokens tokens).flatMap (splitOn '.') <+: keyPieces ("spec" :: keys) := by
  rw [flatten_pieces (by decide) (by decide)]
  by_cases none : tokens = []
  · subst none
    simp [prefixOf_whole]
  · simp [prefixOf_pointer none, split_join (trimmed_some none), none]

/-- A pointer takes out what it names where it is plain, and what it shadows. -/
theorem pointer_removes :
    (tokens ≠ [] ∧ (trimmedTokens tokens).flatMap (splitOn '.') <+: keyPieces keys) ↔
      (tokens <+: keys ∧ Plain tokens) ∨ Shadows tokens keys := by
  by_cases named : tokens <+: keys
  · obtain ⟨rest, rfl⟩ := named
    constructor
    · rintro ⟨some_, first⟩
      exact Or.inl ⟨prefix_append _ _, (aligned some_ rest).mp first⟩
    · rintro (⟨_, plain⟩ | shadow)
      · exact ⟨plain.some_, (aligned plain.some_ rest).mpr plain⟩
      · exact shadow.1
  · constructor
    · intro first
      exact Or.inr ⟨first, named⟩
    · rintro (⟨first, _⟩ | shadow)
      · exact absurd first named
      · exact shadow.1

/-- Some pointer that names the keys is plain; or one names them and one shadows them; or none does
   either. -/
def Settled (pointers : List (List String)) (keys : List String) : Prop :=
  (∃ tokens ∈ pointers, tokens <+: keys ∧ Plain tokens) ∨
  ((∃ tokens ∈ pointers, tokens <+: keys) ∧ ∃ tokens ∈ pointers, Shadows tokens keys) ∨
  ∀ tokens ∈ pointers, ¬ tokens <+: keys ∧ ¬ Shadows tokens keys

theorem removed_iff {x : List String × DriftEntry}
    (reported : x ∈ located walk ["spec"] "spec" desired live) :
    x.2 ∉ filterIgnoredPaths (diffValues walk ["spec"] "spec" desired live) (pointers.map pointerText) ↔
      ∃ tokens ∈ pointers, (tokens <+: x.1 ∧ Plain tokens) ∨ Shadows tokens x.1 := by
  have member : x.2 ∈ diffValues walk ["spec"] "spec" desired live := by
    rw [← located_entries]
    exact mem_map_of_mem reported
  obtain ⟨path, keys, whole⟩ := located_path desired live ["spec"] x reported
  rw [singleton_append] at whole
  rw [filter_removes member, path, ← whole]
  simp only [mem_map, exists_exists_and_eq_and, pointer_matches, pointer_removes]

theorem trimmed_plain {tokens : List String} (plain : Plain tokens) :
    trimmedTokens tokens = tokens.map String.toList := by
  induction tokens with
  | nil => rfl
  | cons token more ih =>
    cases more with
    | nil =>
      obtain ⟨⟨unescaped, _⟩, ended⟩ := plain_single.mp plain
      rw [trimmedTokens, encode_plain unescaped, ended]
      rfl
    | cons next rest =>
      obtain ⟨⟨unescaped, _⟩, later⟩ := plain_cons.mp plain
      rw [trimmedTokens, encode_plain unescaped, ih later]
      rfl

/-- Where tokens and keys hold no dots and no key is bracketed, a plain pointer shadows nothing. -/
theorem dotless_unshadowed (plain : Plain tokens) (dotless : ∀ text ∈ tokens ++ keys, '.' ∉ text.toList)
    (unbracketed : ∀ key ∈ keys, isAllDigits key = false) : ¬ Shadows tokens keys := by
  rintro ⟨⟨_, first⟩, other⟩
  have spelt : keys.map rendered = keys.map String.toList := by
    apply map_congr_left
    intro key member
    simp [rendered, unbracketed key member]
  have whole : ∀ texts : List String, (∀ text ∈ texts, '.' ∉ text.toList) →
      (texts.map String.toList).flatMap (splitOn '.') = texts.map String.toList := by
    intro texts free
    apply whole_pieces
    intro piece member
    obtain ⟨text, there, rfl⟩ := mem_map.mp member
    exact free text there
  rw [trimmed_plain plain, keyPieces, spelt,
    whole tokens fun text member => dotless text (mem_append_left _ member),
    whole keys fun text member => dotless text (mem_append_right _ member)] at first
  have taken := prefix_iff_eq_take.mp first
  rw [← map_take] at taken
  have same := map_injective_iff.mpr (fun a b eq => String.toList_inj.mp eq) taken
  exact other (same ▸ take_prefix _ _)

theorem replicas_unshadowed : ¬ Shadows ["spec", "replicas"] ["spec", "paused"] :=
  dotless_unshadowed ⟨by decide, by decide, by decide, by decide⟩ (by decide) (by decide)

/-- Exactly there is an entry taken out when, and only when, a pointer names its keys. -/
theorem ignored_exact {x : List String × DriftEntry}
    (reported : x ∈ located walk ["spec"] "spec" desired live) :
    (x.2 ∉ filterIgnoredPaths (diffValues walk ["spec"] "spec" desired live) (pointers.map pointerText) ↔
      ∃ tokens ∈ pointers, tokens <+: x.1) ↔ Settled pointers x.1 := by
  rw [removed_iff reported]
  constructor
  · intro right
    by_cases named : ∃ tokens ∈ pointers, tokens <+: x.1
    · obtain ⟨tokens, member, plain | shadow⟩ := right.mpr named
      · exact Or.inl ⟨tokens, member, plain⟩
      · exact Or.inr (Or.inl ⟨named, tokens, member, shadow⟩)
    · refine Or.inr (Or.inr ?_)
      intro tokens member
      exact ⟨fun first => named ⟨tokens, member, first⟩,
        fun shadow => named (right.mp ⟨tokens, member, Or.inr shadow⟩)⟩
  · rintro (⟨tokens, member, first, plain⟩ | ⟨named, tokens, member, shadow⟩ | none)
    · exact iff_of_true ⟨tokens, member, Or.inl ⟨first, plain⟩⟩ ⟨tokens, member, first⟩
    · exact iff_of_true ⟨tokens, member, Or.inr shadow⟩ named
    · apply iff_of_false
      · rintro ⟨tokens, member, ⟨first, _⟩ | shadow⟩
        · exact (none tokens member).1 first
        · exact (none tokens member).2 shadow
      · rintro ⟨tokens, member, first⟩
        exact (none tokens member).1 first

end Ignored

section Samples

def single (key value : String) : Json := .object [(key, .string value)]

def differing (key : String) : DriftEntry :=
  ⟨joinPath "spec" key, .changed, jsonString (.string "1"), jsonString (.string "2")⟩

theorem single_located (key : String) : located inOrder ["spec"] "spec" (single key "1") (single key "2") =
      [(["spec", key], differing key)] := by
  have keys : keyUnion [(key, .string "1")] [(key, .string "2")] = [key] := by simp [keyUnion]
  have value : ∀ text : String, valueAt [(key, .string text)] key = .string text := by
    intro text
    simp [valueAt, SortedEntries.find_cons]
  have ends : Ends (.string "1") (.string "2") := by
    rintro ⟨_, _, map, _⟩
    cases map
  have leaves : ¬ BothMaps (.string "1") (.string "2") := by
    rintro ⟨_, _, map, _⟩
    cases map
  have differ : jsonString (.string "1") ≠ jsonString (.string "2") := by decide
  rw [single, single, located_maps rfl rfl, keys]
  simp only [inOrder, flatMap_singleton, value, located_ends ends,
    @diff_leaves _ _ _ (.string "1") (.string "2") rfl rfl leaves, if_neg differ]
  rfl

theorem replicas_ignored : differing "replicas" ∉
      filterIgnoredPaths (diffValues inOrder ["spec"] "spec" (single "replicas" "1") (single "replicas" "2"))
        ([["spec", "replicas"]].map pointerText) ↔
      ∃ tokens ∈ [["spec", "replicas"]], tokens <+: ["spec", "replicas"] := by
  have reported := single_located "replicas" ▸ mem_singleton.mpr rfl
  have plain : Plain ["spec", "replicas"] := ⟨by decide, by decide, by decide, by decide⟩
  exact (ignored_exact reported).mpr (Or.inl ⟨_, mem_singleton.mpr rfl, prefix_refl _, plain⟩)

/-- A key with a slash in it, which its pointer has to escape. -/
theorem escaped_key_kept : pointerText ["spec", "a/b"] = "/spec/a~1b" ∧ (["spec", "a/b"], differing "a/b") ∈
      located inOrder ["spec"] "spec" (single "a/b" "1") (single "a/b" "2") ∧
    differing "a/b" ∈
      filterIgnoredPaths (diffValues inOrder ["spec"] "spec" (single "a/b" "1") (single "a/b" "2"))
        [pointerText ["spec", "a/b"]] := by
  rw [← located_entries, single_located]
  exact ⟨by decide, mem_singleton.mpr rfl, by decide⟩

end Samples

end Drift
