import Radar.K8s.ContextRegistry

/- What the registry holds after any run of refreshes. -/
namespace ContextRegistry
open List
variable {path : String}

/-- No two names for one context. -/
def Registry.Unique (registry : Registry) : Prop :=
  ∀ q q' e, registry.lookup q = some e → registry.lookup q' = some e → q = q'

section Edits

theorem lookup_add (registry : Registry) (path name q : String) (e : ContextEntry) :
    (addContext path registry name).lookup q = some e ↔
      (q = qualifyContextName registry name path ∧ e = ⟨path, name⟩) ∨ registry.lookup q = some e := by
  have fresh := qualify_fresh registry name path
  unfold addContext
  by_cases own : q = qualifyContextName registry name path
  · subst own
    have absent := AList.lookup_eq_none.mpr fresh
    rw [AList.lookup_insert, absent]
    simp [eq_comm]
  · rw [AList.lookup_insert_ne own]
    simp [own]

theorem add_unique {registry : Registry} (unique : registry.Unique) {path name : String}
    (absent : ∀ q, registry.lookup q ≠ some ⟨path, name⟩) :
    (addContext path registry name).Unique := by
  intro q q' e held held'
  rcases (lookup_add registry path name q e).mp held with ⟨rfl, rfl⟩ | before
  · rcases (lookup_add registry path name q' _).mp held' with ⟨rfl, _⟩ | before'
    · rfl
    · exact absurd before' (absent q')
  · rcases (lookup_add registry path name q' e).mp held' with ⟨rfl, rfl⟩ | before'
    · exact absurd before (absent q)
    · exact unique q q' e before before'

theorem lookup_erase_all (qNames : List String) (registry : Registry) (q : String) :
    (qNames.foldl (fun registry qName => registry.erase qName) registry).lookup q =
      if q ∈ qNames then none else registry.lookup q := by
  induction qNames generalizing registry with
  | nil => simp
  | cons first rest ih =>
    rw [foldl_cons, ih]
    by_cases later : q ∈ rest
    · simp [later]
    · by_cases own : q = first
      · subst own
        simp
      · simp [later, own]

theorem lookup_drop_dead (live : List String) (registry : Registry) (first q : String) :
    (dropDead live registry first).lookup q =
      if q = first ∧ ((registry.lookup q).map ContextEntry.inFileName).getD "" ∉ live then none
      else registry.lookup q := by
  unfold dropDead
  by_cases own : q = first
  · subst own
    split
    next alive => simp [alive]
    next dead => simp [dead]
  · split
    next => simp [own]
    next => simp [own]

theorem lookup_drop_all (live qNames : List String) (registry : Registry) (q : String)
    (e : ContextEntry) : (qNames.foldl (dropDead live) registry).lookup q = some e ↔
      registry.lookup q = some e ∧ (q ∈ qNames → e.inFileName ∈ live) := by
  induction qNames generalizing registry with
  | nil => simp
  | cons first rest ih =>
    rw [foldl_cons, ih, lookup_drop_dead]
    by_cases own : q = first
    · subst own
      cases held : registry.lookup q with
      | none => simp
      | some e' =>
        by_cases alive : e'.inFileName ∈ live
        · simp [alive]
          rintro rfl
          simp [alive]
        · simp [alive]
          rintro rfl
          exact alive
    · simp [own]

end Edits

/-- What adding the contexts `done` of a file to a registry has led to. -/
structure Added (path : String) (before after : Registry) (done : List String) : Prop where
  kept : ∀ q e, before.lookup q = some e → after.lookup q = some e
  only : ∀ q e, after.lookup q = some e →
    before.lookup q = some e ∨ e.sourceFile = path ∧ e.inFileName ∈ done
  reached : ∀ name ∈ done, ∃ q, after.lookup q = some ⟨path, name⟩
  unique : before.Unique → after.Unique

section AddLoop
variable {before after : Registry} {done : List String} {name : String}

theorem added_nothing (path : String) (registry : Registry) : Added path registry registry [] :=
  ⟨fun _ _ held => held, fun _ _ held => Or.inl held, by simp, fun unique => unique⟩

theorem added_present (added : Added path before after done)
    (present : ∃ q, after.lookup q = some ⟨path, name⟩) :
    Added path before after (done ++ [name]) := by
  refine ⟨added.kept, ?_, ?_, added.unique⟩
  · intro q e held
    rcases added.only q e held with old | ⟨source, listed⟩
    · exact Or.inl old
    · exact Or.inr ⟨source, mem_append_left _ listed⟩
  · intro other listed
    rcases mem_append.mp listed with earlier | last
    · exact added.reached other earlier
    · rw [mem_singleton.mp last]
      exact present

theorem added_fresh (added : Added path before after done)
    (absent : ∀ q, after.lookup q ≠ some ⟨path, name⟩) :
    Added path before (addContext path after name) (done ++ [name]) := by
  refine ⟨?_, ?_, ?_, fun unique => add_unique (added.unique unique) absent⟩
  · intro q e held
    exact (lookup_add after path name q e).mpr (Or.inr (added.kept q e held))
  · intro q e held
    rcases (lookup_add after path name q e).mp held with ⟨_, rfl⟩ | earlier
    · exact Or.inr ⟨rfl, by simp⟩
    · rcases added.only q e earlier with old | ⟨source, listed⟩
      · exact Or.inl old
      · exact Or.inr ⟨source, mem_append_left _ listed⟩
  · intro other listed
    rcases mem_append.mp listed with earlier | last
    · obtain ⟨q, held⟩ := added.reached other earlier
      exact ⟨q, (lookup_add after path name q _).mpr (Or.inr held)⟩
    · rw [mem_singleton.mp last]
      exact ⟨_, (lookup_add after path name _ _).mpr (Or.inl ⟨rfl, rfl⟩)⟩

theorem add_contexts {names : List String} (distinct : (done ++ names).Nodup)
    (foreign : ∀ q e, before.lookup q = some e → e.sourceFile ≠ path)
    (added : Added path before after done) :
    Added path before (names.foldl (addContext path) after) (done ++ names) := by
  induction names generalizing after done with
  | nil => simpa using added
  | cons name rest ih =>
    have absent : ∀ q, after.lookup q ≠ some ⟨path, name⟩ := by
      intro q held
      rcases added.only q _ held with old | ⟨_, listed⟩
      · exact foreign q _ old rfl
      · exact (nodup_append.mp distinct).2.2 name listed name mem_cons_self rfl
    have step := ih (by simpa using distinct) (added_fresh added absent)
    rwa [append_assoc, singleton_append] at step

/-- The path ends up with the added contexts, if it had no others. -/
theorem Added.entries (added : Added path before after done)
    (own : ∀ q, before.lookup q = some ⟨path, name⟩ → name ∈ done) :
    (∃ q, after.lookup q = some ⟨path, name⟩) ↔ name ∈ done := by
  constructor
  · rintro ⟨q, held⟩
    rcases added.only q _ held with old | ⟨_, listed⟩
    · exact own q old
    · exact listed
  · exact added.reached name

theorem Added.elsewhere (added : Added path before after done) {q : String} {e : ContextEntry}
    (foreign : e.sourceFile ≠ path) : after.lookup q = some e ↔ before.lookup q = some e := by
  refine ⟨fun held => ?_, added.kept q e⟩
  rcases added.only q e held with old | ⟨source, _⟩
  · exact old
  · exact absurd source foreign

/-- The same where the contexts already under a name are passed over. -/
theorem add_missing {names qNames : List String} (distinct : (done ++ names).Nodup)
    (own : ∀ q e, before.lookup q = some e → e.sourceFile = path → q ∈ qNames)
    (added : Added path before after done) :
    Added path before (names.foldl (addMissing path qNames) after) (done ++ names) := by
  induction names generalizing after done with
  | nil => simpa using added
  | cons name rest ih =>
    have step : Added path before (addMissing path qNames after name) (done ++ [name]) := by
      unfold addMissing
      split
      next already =>
        obtain ⟨q, _, held⟩ := any_eq_true.mp already
        exact added_present added ⟨q, of_decide_eq_true held⟩
      next new =>
        apply added_fresh added
        intro q held
        rcases added.only q _ held with old | ⟨_, listed⟩
        · exact new (any_eq_true.mpr ⟨q, own q _ old rfl, decide_eq_true held⟩)
        · exact (nodup_append.mp distinct).2.2 name listed name mem_cons_self rfl
    have later := ih (by simpa using distinct) step
    rwa [append_assoc, singleton_append] at later

end AddLoop

/-- What is known of a file that is being followed: the mtime and the parse last taken over. -/
structure Watched where
  mtime : Int
  config : Option Config

def start : FileState → Option Watched
  | .missing => none
  | .present mtime config => some ⟨mtime, config⟩

/-- A missing file is given up, a moved mtime is followed once the file parses. -/
def observe : Option Watched → FileState → Option Watched
  | none, _ => none
  | some _, .missing => none
  | some watched, .present mtime config =>
    if watched.mtime = mtime then some watched
    else
      match config with
      | none => some watched
      | some cfg => some ⟨mtime, some cfg⟩

def State.watched (st : State) (path : String) : Option Watched :=
  (st.fileMtimes.lookup path).map fun mtime => ⟨mtime, st.fileConfigs.lookup path⟩

/-- The contexts of a path in the registry are those of its parse. -/
structure State.Listed (st : State) (path : String) : Prop where
  tracked : st.fileMtimes.lookup path = none → st.fileConfigs.lookup path = none
  entries : ∀ name, (∃ q, st.registry.lookup q = some ⟨path, name⟩) ↔
    ∃ cfg, st.fileConfigs.lookup path = some cfg ∧ name ∈ cfg.contexts

structure State.Sound (st : State) : Prop where
  listed : ∀ path, st.Listed path
  unique : st.registry.Unique

/-- Nothing about the path has changed. -/
structure Untouched (old new : State) (path : String) : Prop where
  entries : ∀ q e, e.sourceFile = path → (new.registry.lookup q = some e ↔ old.registry.lookup q = some e)
  config : new.fileConfigs.lookup path = old.fileConfigs.lookup path
  mtime : new.fileMtimes.lookup path = old.fileMtimes.lookup path

/-- The path has been reconciled with what is on disk. -/
structure Settled (old new : State) (file : FileState) (path : String) : Prop where
  watched : new.watched path = observe (old.watched path) file
  listed : new.Listed path
  kept : ∀ q e, e.sourceFile = path → old.registry.lookup q = some e →
    (∃ q', new.registry.lookup q' = some e) → new.registry.lookup q = some e

section OneFile
variable {old now : State} {disk : Disk} {visit : Visit}

theorem untouched_refl (st : State) (path : String) : Untouched st st path :=
  ⟨fun _ _ _ => Iff.rfl, rfl, rfl⟩

theorem Untouched.then {a b c : State} (first : Untouched a b path) (second : Untouched b c path) :
    Untouched a c path :=
  ⟨fun q e source => (second.entries q e source).trans (first.entries q e source),
    second.config.trans first.config, second.mtime.trans first.mtime⟩

theorem Untouched.watched (same : Untouched old now path) : now.watched path = old.watched path := by
  rw [State.watched, State.watched, same.config, same.mtime]

theorem Untouched.listed (same : Untouched old now path) (listed : old.Listed path) : now.Listed path := by
  constructor
  · rw [same.config, same.mtime]
    exact listed.tracked
  · intro name
    rw [same.config, ← listed.entries name]
    exact exists_congr fun q => same.entries q _ rfl

theorem Settled.then {file : FileState} {a b : State} (settled : Settled old a file path)
    (same : Untouched a b path) : Settled old b file path := by
  refine ⟨same.watched.trans settled.watched, same.listed settled.listed, ?_⟩
  rintro q e source held ⟨q', later⟩
  exact (same.entries q e source).mpr
    (settled.kept q e source held ⟨q', (same.entries q' e source).mp later⟩)

theorem mem_q_names {q : String} : q ∈ old.qNames visit path ↔
    ∃ e, old.registry.lookup q = some e ∧ e.sourceFile = path := by
  rw [State.qNames, mem_filter, (visit.allNames _).mem_iff, ← AList.mem_keys]
  constructor
  · rintro ⟨_, own⟩
    rw [Option.any_eq_true] at own
    obtain ⟨e, held, source⟩ := own
    exact ⟨e, held, of_decide_eq_true source⟩
  · rintro ⟨e, held, source⟩
    refine ⟨AList.lookup_isSome.mp (by rw [held]; rfl), ?_⟩
    rw [held]
    exact decide_eq_true source

/-- Only a file that is followed is visited. -/
theorem by_file_tracked (sound : old.Sound) (visited : path ∈ old.byFile) :
    ∃ mtime, old.fileMtimes.lookup path = some mtime := by
  have listed := sound.listed path
  rw [State.byFile, mem_dedup, mem_append] at visited
  rcases visited with named | timed
  · obtain ⟨⟨q, e⟩, held, rfl⟩ := mem_map.mp named
    obtain ⟨cfg, parsed, _⟩ := (listed.entries e.inFileName).mp
      ⟨q, AList.mem_lookup_iff.mpr held⟩
    cases tracked : old.fileMtimes.lookup e.sourceFile with
    | some mtime => exact ⟨mtime, rfl⟩
    | none =>
      rw [listed.tracked tracked] at parsed
      exact absurd parsed (by simp)
  · rw [← AList.mem_keys] at timed
    exact Option.isSome_iff_exists.mp (AList.lookup_isSome.mpr timed)

/-- Of the files' entries only those of the path are under the path's names. -/
theorem q_names_own (same : Untouched old now path) {q : String} {e : ContextEntry}
    (held : now.registry.lookup q = some e) :
    q ∈ old.qNames visit path ↔ e.sourceFile = path := by
  rw [mem_q_names]
  constructor
  · rintro ⟨e', before, source⟩
    have now' := (same.entries q e' source).mpr before
    rw [held, Option.some.injEq] at now'
    rw [now', source]
  · intro source
    exact ⟨e, (same.entries q e source).mp held, source⟩

theorem drop_file (same : Untouched old now path) (unique : now.registry.Unique) : let next : State :=
      ⟨(old.qNames visit path).foldl (fun registry qName => registry.erase qName) now.registry,
        now.fileConfigs.erase path, now.fileMtimes.erase path⟩
    Settled old next .missing path ∧ next.registry.Unique ∧ ∀ other ≠ path, Untouched now next other := by
  intro next
  have remaining : ∀ q e, next.registry.lookup q = some e ↔
      now.registry.lookup q = some e ∧ e.sourceFile ≠ path := by
    intro q e
    rw [lookup_erase_all]
    split
    next own =>
      refine ⟨fun held => absurd held (by simp), ?_⟩
      rintro ⟨held, foreign⟩
      exact absurd ((q_names_own same held).mp own) foreign
    next other =>
      refine ⟨fun held => ⟨held, ?_⟩, fun both => both.1⟩
      exact fun source => other ((q_names_own same held).mpr source)
  have untimed : next.fileMtimes.lookup path = none := AList.lookup_erase path now.fileMtimes
  have unparsed : next.fileConfigs.lookup path = none := AList.lookup_erase path now.fileConfigs
  refine ⟨⟨?_, ⟨fun _ => unparsed, ?_⟩, ?_⟩, ?_, ?_⟩
  · rw [State.watched, untimed]
    cases old.watched path <;> rfl
  · intro name
    rw [unparsed]
    constructor
    · rintro ⟨q, held⟩
      exact absurd rfl ((remaining q _).mp held).2
    · rintro ⟨_, absent, _⟩
      exact absurd absent (by simp)
  · rintro q e source _ ⟨q', held⟩
    exact absurd source ((remaining q' e).mp held).2
  · intro q q' e held held'
    exact unique q q' e ((remaining q e).mp held).1 ((remaining q' e).mp held').1
  · intro other apart
    refine ⟨?_, AList.lookup_erase_ne apart, AList.lookup_erase_ne apart⟩
    intro q e source
    rw [remaining, source]
    exact and_iff_left apart

section Reparse
variable {cfg : Config}

/-- Of the path's entries those of contexts that are gone are dropped, and no others. -/
theorem living_entries (same : Untouched old now path) (q : String) (e : ContextEntry) :
    ((old.qNames visit path).foldl (dropDead cfg.contexts) now.registry).lookup q = some e ↔
      now.registry.lookup q = some e ∧ (e.sourceFile = path → e.inFileName ∈ cfg.contexts) := by
  rw [lookup_drop_all]
  refine and_congr_right fun held => ?_
  rw [q_names_own same held]

theorem reparse_added (same : Untouched old now path) : let qNames := old.qNames visit path
    let living := qNames.foldl (dropDead cfg.contexts) now.registry
    Added path living ((visit.contexts path cfg.contexts).foldl (addMissing path qNames) living)
      (visit.contexts path cfg.contexts) := by
  intro qNames living
  have ordered := visit.allContexts path cfg.contexts
  have own : ∀ q e, living.lookup q = some e → e.sourceFile = path → q ∈ qNames := by
    intro q e held source
    exact (q_names_own same ((living_entries same q e).mp held).1).mpr source
  exact add_missing (ordered.nodup_iff.mpr cfg.distinct) own (added_nothing path living)

end Reparse

theorem reparse_file (same : Untouched old now path) (unique : now.registry.Unique)
    (cfg : Config) (mtime : Int) :
    let qNames := old.qNames visit path
    let next : State := ⟨(visit.contexts path cfg.contexts).foldl (addMissing path qNames)
          (qNames.foldl (dropDead cfg.contexts) now.registry),
        now.fileConfigs.insert path cfg, now.fileMtimes.insert path mtime⟩
    next.watched path = some ⟨mtime, some cfg⟩ ∧ next.Listed path ∧
      (∀ q e, e.sourceFile = path → old.registry.lookup q = some e →
        (∃ q', next.registry.lookup q' = some e) → next.registry.lookup q = some e) ∧
      next.registry.Unique ∧ ∀ other ≠ path, Untouched now next other := by
  intro qNames next
  have added : Added path _ next.registry (visit.contexts path cfg.contexts) := reparse_added same
  have ordered := visit.allContexts path cfg.contexts
  have entries : ∀ name, (∃ q, next.registry.lookup q = some ⟨path, name⟩) ↔ name ∈ cfg.contexts := by
    intro name
    rw [← ordered.mem_iff]
    apply added.entries
    exact fun q held => ordered.mem_iff.mpr (((living_entries same q _).mp held).2 rfl)
  have timed : next.fileMtimes.lookup path = some mtime := AList.lookup_insert now.fileMtimes
  have parsed : next.fileConfigs.lookup path = some cfg := AList.lookup_insert now.fileConfigs
  refine ⟨by rw [State.watched, timed, parsed]; rfl, ⟨?_, ?_⟩, ?_, added.unique ?_, ?_⟩
  · rw [timed]
    exact fun absent => absurd absent (by simp)
  · intro name
    rw [entries, parsed]
    simp
  · rintro q ⟨_, name⟩ rfl held again
    apply added.kept
    exact (living_entries same q _).mpr
      ⟨(same.entries q _ rfl).mpr held, fun _ => (entries name).mp again⟩
  · intro q q' e held held'
    exact unique q q' e ((living_entries same q e).mp held).1 ((living_entries same q' e).mp held').1
  · intro other apart
    refine ⟨?_, AList.lookup_insert_ne apart, AList.lookup_insert_ne apart⟩
    intro q e source
    have foreign : e.sourceFile ≠ path := source ▸ apart
    rw [added.elsewhere foreign, living_entries same]
    exact and_iff_left fun own => absurd own foreign

variable (disk visit) in
theorem refresh_file (sound : old.Sound) (visited : path ∈ old.byFile)
    (same : Untouched old now path) (unique : now.registry.Unique) (flag : Bool) :
    let next := (refreshFile old disk visit (now, flag) path).1
    Settled old next (disk path) path ∧ next.registry.Unique ∧
      ∀ other ≠ path, Untouched now next other := by
  obtain ⟨seen, tracked⟩ := by_file_tracked sound visited
  have watched : old.watched path = some ⟨seen, old.fileConfigs.lookup path⟩ := by
    rw [State.watched, tracked]
    rfl
  have keeps : observe (old.watched path) (disk path) = old.watched path →
      Settled old now (disk path) path ∧ now.registry.Unique ∧ ∀ other ≠ path, Untouched now now other := by
    intro stays
    refine ⟨⟨same.watched.trans stays.symm, same.listed (sound.listed path), ?_⟩, unique,
      fun other _ => untouched_refl now other⟩
    exact fun q e source held _ => (same.entries q e source).mpr held
  unfold refreshFile Disk.stat Disk.loadFromFile
  cases file : disk path with
  | missing => exact drop_file same unique
  | present mtime config =>
    rw [file] at keeps
    dsimp only
    by_cases unmoved : seen = mtime
    · rw [tracked, unmoved, if_pos rfl]
      apply keeps
      rw [watched]
      exact if_pos unmoved
    · rw [tracked, if_neg (fun same => unmoved (Option.some.inj same))]
      cases config with
      | none =>
        apply keeps
        rw [watched]
        exact if_neg unmoved
      | some cfg =>
        obtain ⟨now', listed, kept, unique', others⟩ := reparse_file same unique cfg mtime
        refine ⟨⟨?_, listed, kept⟩, unique', others⟩
        rw [watched]
        exact now'.trans (if_neg unmoved).symm

/-- A file of a refresh that changes nothing leaves the state alone. -/
theorem refresh_file_flag {flagged : State × Bool}
    (quiet : (refreshFile old disk visit flagged path).2 = false) :
    refreshFile old disk visit flagged path = flagged := by
  unfold refreshFile at quiet ⊢
  dsimp only at quiet ⊢
  cases stat : disk.stat path with
  | none =>
    rw [stat] at quiet
    exact absurd quiet (by simp)
  | some mtime =>
    rw [stat] at quiet
    dsimp only at quiet ⊢
    split at quiet
    next unmoved => rw [if_pos unmoved]
    next moved =>
      rw [if_neg moved]
      cases parsed : disk.loadFromFile path with
      | none => rfl
      | some cfg =>
        rw [parsed] at quiet
        exact absurd quiet (by simp)

theorem refresh_files_flag {paths : List String} {flagged : State × Bool}
    (quiet : (paths.foldl (refreshFile old disk visit) flagged).2 = false) :
    paths.foldl (refreshFile old disk visit) flagged = flagged := by
  induction paths generalizing flagged with
  | nil => rfl
  | cons path rest ih =>
    rw [foldl_cons] at quiet ⊢
    have later := ih quiet
    rw [later] at quiet ⊢
    exact refresh_file_flag quiet

theorem refresh_eq (st : State) (disk : Disk) (visit : Visit) :
    st.refresh disk visit = (refreshContextRegistry st disk visit).1 := by
  unfold State.refresh
  dsimp only
  split
  next => rfl
  next quiet =>
    have same : refreshContextRegistry st disk visit = (st, false) :=
      refresh_files_flag (Bool.not_eq_true _ ▸ quiet)
    rw [same]

variable (disk visit) in
/-- Going through the files, those done are settled and the others untouched. -/
theorem refresh_files (sound : old.Sound) {done paths : List String}
    (distinct : (done ++ paths).Nodup) (inside : ∀ path ∈ paths, path ∈ old.byFile) (flag : Bool)
    (settled : ∀ path ∈ done, Settled old now (disk path) path)
    (untouched : ∀ path ∉ done, Untouched old now path) (unique : now.registry.Unique) :
    let next := (paths.foldl (refreshFile old disk visit) (now, flag)).1
    (∀ path ∈ done ++ paths, Settled old next (disk path) path) ∧
      (∀ path ∉ done ++ paths, Untouched old next path) ∧ next.registry.Unique := by
  induction paths generalizing now done flag with
  | nil => simpa using ⟨settled, untouched, unique⟩
  | cons path rest ih =>
    have fresh : path ∉ done := fun early =>
      (nodup_append.mp distinct).2.2 path early path mem_cons_self rfl
    obtain ⟨own, unique', others⟩ := refresh_file disk visit sound
      (inside path mem_cons_self) (untouched path fresh) unique flag
    have settled' : ∀ other ∈ done ++ [path],
        Settled old (refreshFile old disk visit (now, flag) path).1 (disk other) other := by
      intro other listed
      rcases mem_append.mp listed with early | last
      · exact (settled other early).then (others other (fun same => fresh (same ▸ early)))
      · rw [mem_singleton.mp last]
        exact own
    have untouched' : ∀ other ∉ done ++ [path],
        Untouched old (refreshFile old disk visit (now, flag) path).1 other := by
      intro other absent
      rw [mem_append, not_or, mem_singleton] at absent
      exact (untouched other absent.1).then (others other absent.2)
    have step := ih (by simpa using distinct)
      (fun other listed => inside other (mem_cons_of_mem path listed))
      (refreshFile old disk visit (now, flag) path).2 settled' untouched' unique'
    rwa [append_assoc, singleton_append] at step

end OneFile

section Refresh
variable {st : State}

/-- A refresh reconciles every path with what is on disk. -/
theorem refresh_settles (sound : st.Sound) (disk : Disk) (visit : Visit) :
    (∀ path, Settled st (st.refresh disk visit) (disk path) path) ∧
      (st.refresh disk visit).registry.Unique := by
  rw [refresh_eq]
  have order := visit.allFiles st.byFile
  have distinct : ([] ++ visit.files st.byFile).Nodup := order.nodup_iff.mpr (nodup_dedup _)
  obtain ⟨settled, untouched, unique⟩ := refresh_files disk visit sound distinct
    (fun path listed => order.mem_iff.mp listed) false (by simp)
    (fun path _ => untouched_refl st path) sound.unique
  refine ⟨fun path => ?_, unique⟩
  by_cases visited : path ∈ st.byFile
  · exact settled path (order.mem_iff.mpr visited)
  · have same := untouched path (fun listed => visited (order.mem_iff.mp listed))
    have untracked : st.watched path = none := by
      have absent : path ∉ st.fileMtimes := by
        intro timed
        apply visited
        rw [State.byFile, mem_dedup, mem_append]
        exact Or.inr (AList.mem_keys.mp timed)
      rw [State.watched, AList.lookup_eq_none.mpr absent]
      rfl
    refine ⟨?_, same.listed (sound.listed path), ?_⟩
    · rw [untracked]
      exact same.watched.trans untracked
    · exact fun q e source held _ => (same.entries q e source).mpr held

theorem refresh_sound (sound : st.Sound) (disk : Disk) (visit : Visit) : (st.refresh disk visit).Sound := by
  obtain ⟨settled, unique⟩ := refresh_settles sound disk visit
  exact ⟨fun path => (settled path).listed, unique⟩

end Refresh

section Setup
variable {disk : Disk} {visit : Visit}

/-- What the build has taken over from the files `done`. -/
structure Built (disk : Disk) (built : Registry × FileConfigs) (done : List String) : Prop where
  parsed : ∀ path, built.2.lookup path = if path ∈ done then disk.loadFromFile path else none
  entries : ∀ path name, (∃ q, built.1.lookup q = some ⟨path, name⟩) ↔
    ∃ cfg, built.2.lookup path = some cfg ∧ name ∈ cfg.contexts
  unique : built.1.Unique

variable (visit) in
theorem build_file {built : Registry × FileConfigs} {done : List String}
    (fresh : path ∉ done) (sofar : Built disk built done) :
    Built disk (buildFile disk visit built path) (done ++ [path]) := by
  have unparsed : built.2.lookup path = none := by rw [sofar.parsed, if_neg fresh]
  unfold buildFile
  cases load : disk.loadFromFile path with
  | none =>
    refine ⟨?_, sofar.entries, sofar.unique⟩
    intro other
    by_cases own : other = path
    · rw [own, unparsed, load]
      simp
    · rw [sofar.parsed]
      simp [own]
  | some cfg =>
    have foreign : ∀ q e, built.1.lookup q = some e → e.sourceFile ≠ path := by
      rintro q ⟨_, name⟩ held rfl
      obtain ⟨_, found, _⟩ := (sofar.entries _ name).mp ⟨q, held⟩
      rw [unparsed] at found
      exact absurd found (by simp)
    have ordered := visit.allContexts path cfg.contexts
    have added : Added path built.1
        ((visit.contexts path cfg.contexts).foldl (addContext path) built.1)
        ([] ++ visit.contexts path cfg.contexts) :=
      add_contexts (ordered.nodup_iff.mpr cfg.distinct) foreign (added_nothing path built.1)
    rw [nil_append] at added
    refine ⟨?_, ?_, added.unique sofar.unique⟩
    · intro other
      by_cases own : other = path
      · subst own
        rw [AList.lookup_insert, load]
        simp
      · rw [AList.lookup_insert_ne own, sofar.parsed]
        simp [own]
    · intro other name
      by_cases own : other = path
      · subst own
        rw [AList.lookup_insert]
        simp only [Option.some.injEq, exists_eq_left']
        rw [← ordered.mem_iff]
        exact added.entries fun q held => absurd rfl (foreign q _ held)
      · rw [AList.lookup_insert_ne own, ← sofar.entries]
        exact exists_congr fun q => added.elsewhere own

theorem build_files {built : Registry × FileConfigs} {done paths : List String}
    (distinct : (done ++ paths).Nodup) (sofar : Built disk built done) :
    Built disk (paths.foldl (buildFile disk visit) built) (done ++ paths) := by
  induction paths generalizing built done with
  | nil => simpa using sofar
  | cons path rest ih =>
    have fresh : path ∉ done := fun early =>
      (nodup_append.mp distinct).2.2 path early path mem_cons_self rfl
    have step := ih (by simpa using distinct) (build_file visit fresh sofar)
    rwa [append_assoc, singleton_append] at step

theorem seed_mtimes (paths : List String) (mtimes : FileMtimes) (path : String) :
    (paths.foldl (seedMtime disk) mtimes).lookup path =
      if path ∈ paths then (disk.stat path).or (mtimes.lookup path) else mtimes.lookup path := by
  induction paths generalizing mtimes with
  | nil => simp
  | cons first rest ih =>
    rw [foldl_cons, ih, seedMtime]
    by_cases own : path = first
    · subst own
      cases stat : disk.stat path with
      | none => simp
      | some mtime => simp
    · cases stat : disk.stat first with
      | none => simp [own]
      | some mtime => simp [own]

theorem setup_sound {paths : List String} (distinct : paths.Nodup) {st : State}
    (built : setupIsolatedLoad disk visit paths = some st) :
    st.Sound ∧ ∀ path, st.watched path = if path ∈ paths then start (disk path) else none := by
  have begun : Built disk (∅, ∅) [] := by
    refine ⟨by simp, by simp, ?_⟩
    intro q q' e held
    exact absurd held (by simp)
  have whole : Built disk (buildContextRegistry disk visit paths) ([] ++ paths) :=
    build_files distinct begun
  rw [nil_append] at whole
  unfold setupIsolatedLoad at built
  dsimp only at built
  split at built
  next => exact absurd built (by simp)
  next =>
    rw [Option.some.injEq] at built
    subst built
    have stats : ∀ path, (paths.foldl (seedMtime disk) ∅).lookup path =
        if path ∈ paths then disk.stat path else none := by
      intro path
      rw [seed_mtimes]
      simp
    refine ⟨⟨fun path => ⟨?_, whole.entries path⟩, whole.unique⟩, fun path => ?_⟩
    · dsimp only
      rw [stats, whole.parsed]
      unfold Disk.stat Disk.loadFromFile
      by_cases listed : path ∈ paths
      · rw [if_pos listed, if_pos listed]
        cases disk path <;> simp
      · rw [if_neg listed, if_neg listed]
        exact fun _ => rfl
    · unfold State.watched
      dsimp only
      rw [stats, whole.parsed]
      unfold Disk.stat Disk.loadFromFile
      by_cases listed : path ∈ paths
      · rw [if_pos listed, if_pos listed, if_pos listed]
        cases disk path <;> rfl
      · rw [if_neg listed, if_neg listed, if_neg listed]
        rfl

end Setup

/-- What a path was at the setup and at each refresh. -/
def versions (disk : Disk) (steps : List (Disk × Visit)) (path : String) : List FileState :=
  disk path :: steps.map fun step => step.1 path

/-- What is known of a file after these versions. -/
def follow : List FileState → Option Watched
  | [] => none
  | first :: later => later.foldl observe (start first)

/-- The file is always there, and its mtime moves with its contents. -/
structure Steady (files : List FileState) : Prop where
  there : FileState.missing ∉ files
  moved : ∀ mtime config config', .present mtime config ∈ files → .present mtime config' ∈ files →
    config = config'

section Run

theorem listed_watched {st : State} (listed : st.Listed path) (name : String) :
    (∃ q, st.registry.lookup q = some ⟨path, name⟩) ↔
      ∃ watched cfg, st.watched path = some watched ∧ watched.config = some cfg ∧ name ∈ cfg.contexts := by
  rw [listed.entries, State.watched]
  cases timed : st.fileMtimes.lookup path with
  | none => simp [listed.tracked timed]
  | some mtime => simp

theorem run_sound {st : State} (sound : st.Sound) (steps : List (Disk × Visit)) :
    (run st steps).Sound ∧ ∀ path, (run st steps).watched path =
      (steps.map fun step => step.1 path).foldl observe (st.watched path) := by
  induction steps generalizing st with
  | nil => exact ⟨sound, fun _ => rfl⟩
  | cons step rest ih =>
    obtain ⟨sound', follows⟩ := ih (refresh_sound sound step.1 step.2)
    refine ⟨sound', fun path => ?_⟩
    have settled := ((refresh_settles sound step.1 step.2).1 path).watched
    rw [map_cons, foldl_cons, ← settled]
    exact follows path

theorem observe_unknown (files : List FileState) : files.foldl observe none = none := by
  induction files with
  | nil => rfl
  | cons file rest ih => exact ih

/-- The parse known of a steady file is that of its last version, where this one parses. -/
theorem steady_current {files : List FileState} (steady : Steady files) {later : List FileState}
    (inside : ∀ file ∈ later, file ∈ files) (watched : Watched) {now : FileState}
    (seen : .present watched.mtime watched.config ∈ files)
    (current : ∀ mtime cfg, now = .present mtime (some cfg) → watched.config = some cfg) :
    ∃ known, later.foldl observe (some watched) = some known ∧
      ∀ mtime cfg, (now :: later).getLast (cons_ne_nil now later) =
        .present mtime (some cfg) → known.config = some cfg := by
  induction later generalizing watched now with
  | nil => exact ⟨watched, rfl, current⟩
  | cons file rest ih =>
    have listed := inside file mem_cons_self
    have others : ∀ file ∈ rest, file ∈ files := fun other member =>
      inside other (mem_cons_of_mem file member)
    rw [getLast_cons (cons_ne_nil file rest), foldl_cons]
    cases file with
    | missing => exact absurd listed steady.there
    | present mtime config =>
      by_cases unmoved : watched.mtime = mtime
      · have stays : observe (some watched) (.present mtime config) = some watched := if_pos unmoved
        rw [stays]
        apply ih others _ seen
        intro _ cfg same
        obtain ⟨_, same⟩ := FileState.present.inj same
        rw [← same]
        exact steady.moved mtime _ _ (unmoved ▸ seen) listed
      · cases config with
        | none =>
          have stays : observe (some watched) (.present mtime none) = some watched := if_neg unmoved
          rw [stays]
          apply ih others _ seen
          intro _ cfg same
          exact absurd (FileState.present.inj same).2 (by simp)
        | some cfg =>
          have moves : observe (some watched) (.present mtime (some cfg)) =
              some ⟨mtime, some cfg⟩ := if_neg unmoved
          rw [moves]
          apply ih others _ listed
          intro _ cfg' same
          exact (FileState.present.inj same).2

end Run

/-- A file that is always there is followed, at last with what it then holds. -/
theorem steady_follow {disk : Disk} {steps : List (Disk × Visit)}
    (steady : Steady (versions disk steps path)) {mtime : Int} {cfg : Config}
    (last : (versions disk steps path).getLast (cons_ne_nil _ _) = .present mtime (some cfg)) :
    ∃ watched, follow (versions disk steps path) = some watched ∧ watched.config = some cfg := by
  have inside : ∀ file ∈ steps.map fun step => step.1 path,
      file ∈ versions disk steps path := fun file member => mem_cons_of_mem _ member
  unfold versions at last
  unfold follow versions
  cases first : disk path with
  | missing => exact absurd (first ▸ mem_cons_self) steady.there
  | present mtime' config =>
    have seen : FileState.present mtime' config ∈ versions disk steps path := first ▸ mem_cons_self
    obtain ⟨watched, same, current⟩ := steady_current steady inside
      ⟨mtime', config⟩ seen (fun _ _ same => (FileState.present.inj same).2)
    exact ⟨watched, same, current mtime cfg (by simpa only [first] using last)⟩

/-- After any refreshes the registry's entries are the contexts of the files as they are followed,
    each under one name, which it keeps; those of steady files are what the files hold now. -/
theorem registry_follows_files {paths : List String} (distinct : paths.Nodup) {disk : Disk}
    {visit : Visit} {st : State} (built : setupIsolatedLoad disk visit paths = some st)
    (steps : List (Disk × Visit)) :
    (∀ path name, (∃ q, (run st steps).registry.lookup q = some ⟨path, name⟩) ↔
      path ∈ paths ∧ ∃ watched cfg, follow (versions disk steps path) = some watched ∧
        watched.config = some cfg ∧ name ∈ cfg.contexts) ∧
    (∀ path ∈ paths, Steady (versions disk steps path) → ∀ mtime cfg,
      (versions disk steps path).getLast (cons_ne_nil _ _) = .present mtime (some cfg) →
        ∀ name, (∃ q, (run st steps).registry.lookup q = some ⟨path, name⟩) ↔ name ∈ cfg.contexts) ∧
    (run st steps).registry.Unique ∧
    (∀ disk' visit' q e, (run st steps).registry.lookup q = some e →
      (∃ q', ((run st steps).refresh disk' visit').registry.lookup q' = some e) →
        ((run st steps).refresh disk' visit').registry.lookup q = some e) ∧
    ∀ registry name path, qualifyContextName registry name path ∉ registry ∧
      ∃ qName, qualifyFrom registry name (kubeconfigSourceLabel path)
        (registry.keys.length + 1) 2 = some qName := by
  obtain ⟨sound, started⟩ := setup_sound distinct built
  obtain ⟨sound', follows⟩ := run_sound sound steps
  have entries : ∀ path name, (∃ q, (run st steps).registry.lookup q = some ⟨path, name⟩) ↔
      path ∈ paths ∧ ∃ watched cfg, follow (versions disk steps path) = some watched ∧
        watched.config = some cfg ∧ name ∈ cfg.contexts := by
    intro path name
    rw [listed_watched (sound'.listed path), follows, started]
    by_cases listed : path ∈ paths
    · rw [if_pos listed]
      exact (and_iff_right listed).symm
    · rw [if_neg listed, observe_unknown]
      simp [listed]
  refine ⟨entries, ?_, sound'.unique, ?_, ?_⟩
  · intro path listed steady mtime cfg last name
    obtain ⟨watched, same, parsed⟩ := steady_follow steady last
    rw [entries, same]
    simp [listed, parsed]
  · intro disk' visit' q e held again
    exact ((refresh_settles sound' disk' visit').1 e.sourceFile).kept q e rfl held again
  · intro registry name path
    exact ⟨qualify_fresh registry name path, qualify_from_ends registry name _ 2⟩

def inOrder : Visit :=
  ⟨id, id, fun _ names => names, fun _ => .refl _, fun _ => .refl _, fun _ _ => .refl _⟩

def production : Config := ⟨["prod"], by decide⟩

def onlyFile (file : FileState) : Disk := fun path => if path = "/kube/a.yaml" then file else .missing

def demoState : State :=
  (setupIsolatedLoad (onlyFile (.present 1 (some production))) inOrder ["/kube/a.yaml"]).get
    (by decide +kernel)

/-- A file that no longer parses keeps its entries, and one that was missing for one refresh or
    changes without its mtime has none of its new ones. -/
theorem stale_and_missed_entries :
    (run demoState [(onlyFile (.present 2 none), inOrder)]).registry.lookup "prod" =
        some ⟨"/kube/a.yaml", "prod"⟩ ∧
    (run demoState [(onlyFile .missing, inOrder),
      (onlyFile (.present 3 (some production)), inOrder)]).registry.lookup "prod" = none ∧
    (run demoState [(onlyFile (.present 1 (some ⟨["stage"], by decide⟩)),
      inOrder)]).registry.lookup "stage" = none := by
  decide +kernel

theorem rewritten_file_followed :
    (∃ q, (run demoState [(onlyFile (.present 2 (some ⟨["stage"], by decide⟩)),
      inOrder)]).registry.lookup q = some ⟨"/kube/a.yaml", "stage"⟩) := by
  apply ((@registry_follows_files ["/kube/a.yaml"] (by decide) _ _ _
    (Option.some_get _).symm _).1 _ _).mpr
  exact ⟨by decide, _, _, rfl, rfl, by decide⟩

end ContextRegistry
