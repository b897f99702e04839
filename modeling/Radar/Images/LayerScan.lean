import Radar.Base.Fuelled
import Radar.Images.FileRead

/- internal/images/inspector.go: the loops that read the tar stream of each layer, over whatever a
   layer's file may hold. -/
namespace LayerScan
open Fuelled FileRead LayerTree List

section Readers

inductive Next (σ : Type) where
  | header (h : Header) (s : σ)
  | eof
  | failed (err : String) (s : σ)

/-- archive/tar over a finite file: a header takes some of what is left, an error stays, and the next
header does not depend on whether the body before it has been read. -/
structure TarReader (σ : Type) where
  next : σ → Next σ
  readAll : σ → Except String (List UInt8) × σ
  left : σ → Nat
  consumes : ∀ {s h s'}, next s = .header h s' → left s' < left s
  stuck : ∀ {s err s'}, next s = .failed err s' → ∃ s'', next s' = .failed err s''
  skips : ∀ {s data s'}, readAll s = (.ok data, s') → next s' = next s

end Readers

section Model
variable {σ : Type} (tar : TarReader σ)

/-- One layer of the tree. A loop that uses up the fuel has no result. -/
def scanLayer : Nat → Build → σ → Option Build
  | 0, _, _ => none
  | fuel + 1, b, s =>
    match tar.next s with
    | .eof => some b
    | .failed _ s' => scanLayer fuel b s'
    | .header h s' =>
      if maxFileCount ≤ b.totalFiles then some b else scanLayer fuel (readEntry b h) s'

/-- A layer whose file does not open is passed over. -/
def scanLayers (fuel : Nat) (b : Build) : List (Option σ) → Option Build
  | [] => some b
  | none :: rest => scanLayers fuel b rest
  | some s :: rest => (scanLayer tar fuel b s).bind fun b' => scanLayers fuel b' rest

def buildFilesystemTreeFromFiles (fuel : Nat) (layers : List (Option σ)) : Option Build :=
  scanLayers tar fuel ⟨[rootNode], 0, 0⟩ layers

def readLayerFile (target : Path) : Nat → Reading → σ → Option (Except String Reading)
  | 0, _, _ => none
  | fuel + 1, r, s =>
    match tar.next s with
    | .eof => some (.ok r)
    | .failed _ s' => readLayerFile target fuel r s'
    | .header h s' =>
      let path := entryPath h
      match whiteout path with
      | some deleted => readLayerFile target fuel (if deleted = target then ⟨true, none, ""⟩ else r) s'
      | none =>
        if path = target ∧ h.typeflag ≠ .dir then
          match tar.readAll s' with
          | (.error err, _) => some (.error ("failed to read file content: " ++ err))
          | (.ok data, s'') => readLayerFile target fuel ⟨false, some data, base path⟩ s''
        else readLayerFile target fuel r s'

def readLayerFiles (target : Path) (fuel : Nat) (r : Reading) :
    List (Option σ) → Option (Except String Reading)
  | [] => some (.ok r)
  | none :: rest => readLayerFiles target fuel r rest
  | some s :: rest =>
    (readLayerFile tar target fuel r s).bind fun
      | .error err => some (.error err)
      | .ok r' => readLayerFiles target fuel r' rest

def readFileFromCachedLayers (fuel : Nat) (layers : List (Option σ)) (filePath : String) :
    Option (Except String (List UInt8 × String)) :=
  (readLayerFiles tar (targetPath filePath) fuel ⟨false, none, ""⟩ layers).map fun
    | .error err => .error err
    | .ok r =>
      match r.deleted, r.content with
      | false, some content => .ok (content, r.filename)
      | _, _ => .error ("file not found: " ++ filePath)

/-- Both scans end: some number of turns is enough for every loop. -/
structure Ends (layers : List (Option σ)) (filePath : String) : Prop where
  tree : ∃ fuel b, buildFilesystemTreeFromFiles tar fuel layers = some b
  read : ∃ fuel result, readFileFromCachedLayers tar fuel layers filePath = some result

end Model

section Streams
variable {σ : Type} (tar : TarReader σ)

/-- The headers that a layer's file gives with the state after each, and the error that it ends in,
unless it ends in io.EOF. -/
def stream (s : σ) : List (Header × σ) × Option String := match _step : tar.next s with
  | .eof => ([], none)
  | .failed err _ => ([], some err)
  | .header h s' => ((h, s') :: (stream s').1, (stream s').2)
termination_by tar.left s
decreasing_by all_goals exact tar.consumes _step

variable {tar} {s s' : σ} {h : Header} {err : String}

theorem stream_eof (step : tar.next s = .eof) : stream tar s = ([], none) := by
  rw [stream]
  split
  next => rfl
  next step' => exact absurd (step.symm.trans step') (by simp)
  next step' => exact absurd (step.symm.trans step') (by simp)

theorem stream_failed (step : tar.next s = .failed err s') : stream tar s = ([], some err) := by
  rw [stream]
  split
  next step' => exact absurd (step.symm.trans step') (by simp)
  next step' =>
    injection step.symm.trans step' with same
    rw [same]
  next step' => exact absurd (step.symm.trans step') (by simp)

theorem stream_header (step : tar.next s = .header h s') :
    stream tar s = ((h, s') :: (stream tar s').1, (stream tar s').2) := by
  rw [stream]
  split
  next step' => exact absurd (step.symm.trans step') (by simp)
  next step' => exact absurd (step.symm.trans step') (by simp)
  next step' =>
    injection step.symm.trans step' with same same'
    rw [same, same']

/-- Induction along the headers of a layer's file. -/
theorem along {motive : σ → Prop} (eof : ∀ s, tar.next s = .eof → motive s)
    (failed : ∀ s err s', tar.next s = .failed err s' → motive s)
    (header : ∀ s h s', tar.next s = .header h s' → motive s' → motive s) (s : σ) : motive s := by
  induction size : tar.left s using Nat.strongRecOn generalizing s with
  | ind n ih =>
    cases step : tar.next s with
    | eof => exact eof s step
    | failed err s' => exact failed s err s' step
    | header h s' => exact header s h s' step (ih _ (size ▸ tar.consumes step) s' rfl)

end Streams

section Trees
variable {σ : Type} {tar : TarReader σ}

def heads (tar : TarReader σ) (s : σ) : List Header := (stream tar s).1.map Prod.fst

/-- The limit is met while there still is a header to read. -/
def Stops (counted : Nat) (hs : List Header) : Prop :=
  hs ≠ [] ∧ maxFileCount ≤ counted + (ownPaths hs.dropLast).length

def scan (tar : TarReader σ) (fuel : Nat) (at_ : Build × σ) : Option Build := scanLayer tar fuel at_.1 at_.2

theorem scan_start (at_ : Build × σ) : scan tar 0 at_ = none := rfl

theorem scan_turn {b : Build} {s s' : σ} {h : Header} (step : tar.next s = .header h s') (n : Nat) :
    scan tar (n + 1) (b, s) =
      if maxFileCount ≤ b.totalFiles then some b else scan tar n (readEntry b h, s') := by
  simp only [scan, scanLayer, step]

theorem scan_steady (b : Build) (s : σ) : Steady fun fuel => scanLayer tar fuel b s := by
  refine @steady_loop _ _ (scan tar) scan_start (fun at_ => ?_) (b, s)
  obtain ⟨b, s⟩ := at_
  cases step : tar.next s with
  | eof => exact .inl ⟨b, fun n => by simp only [scan, scanLayer, step]⟩
  | failed err s' => exact .inr ⟨(b, s'), fun n => by simp only [scan, scanLayer, step]⟩
  | header h s' =>
    by_cases full : maxFileCount ≤ b.totalFiles
    · exact .inl ⟨b, fun n => by rw [scan_turn step, if_pos full]⟩
    · exact .inr ⟨(readEntry b h, s'), fun n => by rw [scan_turn step, if_neg full]⟩

/-- Once the reader has failed the loop has no end. -/
theorem scan_stuck {b : Build} {s s' : σ} {err : String} (step : tar.next s = .failed err s')
    (fuel : Nat) : scanLayer tar fuel b s = none := by
  induction fuel generalizing s s' with
  | zero => rfl
  | succ fuel ih =>
    obtain ⟨s'', again⟩ := tar.stuck step
    rw [scanLayer, step]
    exact ih again

theorem stops_cons {b : Build} {h : Header} {hs : List Header} (short : ¬ maxFileCount ≤ b.totalFiles) :
    Stops b.totalFiles (h :: hs) ↔ Stops (readEntry b h).totalFiles hs := by
  unfold Stops
  cases hs with
  | nil => simpa [ownPaths] using short
  | cons h' rest =>
    rw [dropLast_cons_of_ne_nil (cons_ne_nil h' rest), own_cons, length_append, read_count,
      Nat.add_assoc]
    simp

/-- A layer's loop makes of the tree what its headers make of it, where it ends. -/
theorem scan_gives (b : Build) (s : σ) (b' : Build) : Gives (fun fuel => scan tar fuel (b, s)) b' ↔
    readLayer b (heads tar s) = b' ∧ ((stream tar s).2 = none ∨ Stops b.totalFiles (heads tar s)) := by
  induction s using @along _ tar generalizing b with
  | eof s step =>
    have ends : ∀ n, scan tar (n + 1) (b, s) = some b := fun n => by simp only [scan, scanLayer, step]
    rw [heads, stream_eof step]
    exact (gives_end scan_start ends).trans (by simp [readLayer])
  | failed s err s' step =>
    rw [heads, stream_failed step]
    refine iff_of_false ?_ (by simp [Stops])
    rintro ⟨n, found⟩
    have none_ : scan tar n (b, s) = none := scan_stuck step n
    exact absurd (found.symm.trans none_) (by simp)
  | header s h s' step ih =>
    have split : heads tar s = h :: heads tar s' := by rw [heads, stream_header step]; rfl
    rw [split, stream_header step, readLayer]
    by_cases full : maxFileCount ≤ b.totalFiles
    · have ends : ∀ n, scan tar (n + 1) (b, s) = some b := fun n => by rw [scan_turn step, if_pos full]
      have stops : Stops b.totalFiles (h :: heads tar s') :=
        ⟨cons_ne_nil _ _, Nat.le_trans full (Nat.le_add_right _ _)⟩
      rw [if_pos full, and_iff_left (.inr stops)]
      exact gives_end scan_start ends
    · have goes : ∀ n, scan tar (n + 1) (b, s) = scan tar n (readEntry b h, s') := fun n => by
        rw [scan_turn step, if_neg full]
      rw [if_neg full, stops_cons full]
      exact (gives_turn scan_start goes).trans (ih (readEntry b h))

/-- The headers of the layers that open. -/
def opened (tar : TarReader σ) (layers : List (Option σ)) : List (List Header) :=
  layers.filterMap fun layer => layer.map (heads tar)

theorem layer_total {b : Build} {counted : Nat} (total : b.totalFiles = min maxFileCount counted)
    (hs : List Header) :
    (readLayer b hs).totalFiles = min maxFileCount (counted + (ownPaths hs).length) := by
  induction hs generalizing b counted with
  | nil => exact total
  | cons h hs ih =>
    have one : (ownPaths [h]).length ≤ 1 := length_filterMap_le ownPath [h]
    have next := read_count b h
    rw [readLayer, own_cons, length_append]
    split
    next full => omega
    next short => rw [@ih (readEntry b h) (counted + (ownPaths [h]).length) (by omega), Nat.add_assoc]

theorem stops_total {b : Build} {counted : Nat} (total : b.totalFiles = min maxFileCount counted)
    {hs : List Header} : Stops b.totalFiles hs ↔ Stops counted hs :=
  and_congr_right fun _ => by omega

/-- No layer's file fails, save where the limit stops the loop before. -/
def TreeWhole (tar : TarReader σ) (counted : Nat) (layers : List (Option σ)) : Prop :=
  ∀ front s rest err, layers = front ++ some s :: rest → (stream tar s).2 = some err →
    Stops (counted + entryCount (opened tar front)) (heads tar s)

theorem whole_nil (counted : Nat) : TreeWhole tar counted [] := by
  intro front s rest err split
  exact absurd split (by simp)

theorem whole_cons {counted : Nat} {layer : Option σ} {rest : List (Option σ)} :
    TreeWhole tar counted (layer :: rest) ↔
      (∀ s, layer = some s → (stream tar s).2 = none ∨ Stops counted (heads tar s)) ∧
      TreeWhole tar (counted + entryCount (opened tar [layer])) rest := by
  have more : ∀ front, counted + entryCount (opened tar (layer :: front)) =
      counted + entryCount (opened tar [layer]) + entryCount (opened tar front) := by
    intro front
    have split : opened tar (layer :: front) = opened tar [layer] ++ opened tar front :=
      filterMap_append (l := [layer])
    rw [split, entry_count_append, Nat.add_assoc]
  constructor
  · intro whole
    refine ⟨?_, fun front s back err split fails => ?_⟩
    · rintro s rfl
      cases fails : (stream tar s).2 with
      | none => exact .inl rfl
      | some err => exact .inr (whole [] s rest err rfl fails)
    · rw [← more]
      exact whole (layer :: front) s back err (congrArg (layer :: ·) split) fails
  · rintro ⟨first, later⟩ front s back err split fails
    cases front with
    | nil =>
      have ends := first s (cons.inj split).1
      rw [fails] at ends
      exact ends.resolve_left (by simp)
    | cons layer' front =>
      obtain ⟨rfl, back_⟩ := cons.inj split
      rw [more]
      exact later front s back err back_ fails

theorem scans_steady (b : Build) (layers : List (Option σ)) :
    Steady fun fuel => scanLayers tar fuel b layers := by
  induction layers generalizing b with
  | nil => exact steady_some b
  | cons layer rest ih =>
    cases layer with
    | none => exact ih b
    | some s => exact steady_bind (scan_steady b s) ih

theorem scans_give {b : Build} {counted : Nat} (total : b.totalFiles = min maxFileCount counted)
    (layers : List (Option σ)) (b' : Build) : Gives (fun fuel => scanLayers tar fuel b layers) b' ↔
      (opened tar layers).foldl readLayer b = b' ∧ TreeWhole tar counted layers := by
  induction layers generalizing b counted with
  | nil => exact gives_some.trans (and_iff_left (whole_nil counted)).symm
  | cons layer rest ih =>
    rw [whole_cons]
    cases layer with
    | none =>
      have same : entryCount (opened tar [none]) = 0 := rfl
      rw [same]
      refine (ih total).trans (and_congr_right fun _ => (and_iff_right fun s opens => ?_).symm)
      exact absurd opens (by simp)
    | some s =>
      have grown : entryCount (opened tar [some s]) = (ownPaths (heads tar s)).length :=
        entry_count_single (heads tar s)
      rw [grown]
      have later := @ih (readLayer b (heads tar s)) _ (layer_total total (heads tar s))
      have first := @scan_gives _ tar b s
      refine (gives_bind (scan_steady b s) fun value => scans_steady value rest).trans ?_
      constructor
      · rintro ⟨value, run, run'⟩
        obtain ⟨rfl, ends⟩ := (first value).mp run
        obtain ⟨rfl, whole⟩ := later.mp run'
        refine ⟨rfl, fun s' same => ?_, whole⟩
        rw [← Option.some.inj same, ← stops_total total]
        exact ends
      · rintro ⟨rfl, ends, whole⟩
        refine ⟨readLayer b (heads tar s), (first _).mpr ⟨rfl, ?_⟩, later.mpr ⟨rfl, whole⟩⟩
        rw [stops_total total]
        exact ends s rfl

end Trees

section Files
variable {σ : Type} {tar : TarReader σ} {target : Path}

/-- The entry with the body that can be read there. -/
def entryOf (tar : TarReader σ) (found : Header × σ) : Entry := match (tar.readAll found.2).1 with
  | .ok data => ⟨found.1, data⟩
  | .error _ => ⟨found.1, []⟩

/-- An entry that the read asks for, without a whole body. -/
def Unreadable (tar : TarReader σ) (target : Path) (found : Header × σ) : Prop :=
  Serves target found.1 ∧ ∃ err, (tar.readAll found.2).1 = .error err

def readEntries (tar : TarReader σ) (target : Path) (r : Reading) :
    List (Header × σ) → Except String Reading
  | [] => .ok r
  | found :: rest =>
    match whiteout (entryPath found.1), (tar.readAll found.2).1 with
    | none, .error err =>
      if entryPath found.1 = target ∧ found.1.typeflag ≠ .dir then
        .error ("failed to read file content: " ++ err)
      else readEntries tar target (readStep target r (entryOf tar found)) rest
    | _, _ => readEntries tar target (readStep target r (entryOf tar found)) rest

def read (tar : TarReader σ) (target : Path) (fuel : Nat) (at_ : Reading × σ) :
    Option (Except String Reading) :=
  readLayerFile tar target fuel at_.1 at_.2

theorem read_start (at_ : Reading × σ) : read tar target 0 at_ = none := rfl

theorem read_next (r : Reading) {s s' : σ} (same : tar.next s' = tar.next s) (fuel : Nat) :
    readLayerFile tar target fuel r s' = readLayerFile tar target fuel r s := by
  cases fuel with
  | zero => rfl
  | succ fuel => simp only [readLayerFile, same]

/-- What the loop does with one header: it fails on the body, or goes on. -/
theorem read_turn (r : Reading) {s s' : σ} {h : Header} (step : tar.next s = .header h s') :
    (∃ err, Unreadable tar target (h, s') ∧ (∀ rest, readEntries tar target r ((h, s') :: rest) = .error err) ∧
      ∀ n, read tar target (n + 1) (r, s) = some (.error err)) ∨
    (¬ Unreadable tar target (h, s') ∧ (∀ rest, readEntries tar target r ((h, s') :: rest) =
        readEntries tar target (readStep target r (entryOf tar (h, s'))) rest) ∧
      ∀ n, read tar target (n + 1) (r, s) =
        read tar target n (readStep target r (entryOf tar (h, s')), s')) := by
  simp only [read, readLayerFile, step, readEntries, readStep, Unreadable, Serves]
  have entry : (entryOf tar (h, s')).header = h := by
    unfold entryOf
    cases (tar.readAll s').1 <;> rfl
  rw [entry]
  generalize entryPath h = path
  cases whiteout path with
  | some deleted => exact .inr ⟨by simp, fun _ => rfl, fun _ => rfl⟩
  | none =>
    by_cases own : path = target ∧ h.typeflag ≠ .dir
    · simp only [if_pos own]
      cases body : tar.readAll s' with
      | mk result s'' =>
        have data : (tar.readAll s').1 = result := congrArg Prod.fst body
        cases result with
        | error err => exact .inl ⟨_, ⟨⟨trivial, own⟩, err, rfl⟩, fun _ => rfl, fun _ => rfl⟩
        | ok data =>
          refine .inr ⟨by simp, fun _ => rfl, fun n => ?_⟩
          rw [entryOf, body]
          exact read_next _ (tar.skips body) n
    · simp only [if_neg own]
      refine .inr ⟨by simp [own], fun rest => ?_, fun _ => trivial⟩
      cases (tar.readAll s').1 <;> rfl

theorem read_steady (r : Reading) (s : σ) : Steady fun fuel => read tar target fuel (r, s) := by
  refine steady_loop read_start (fun at_ => ?_) (r, s)
  obtain ⟨r, s⟩ := at_
  cases step : tar.next s with
  | eof => exact .inl ⟨.ok r, fun n => by simp only [read, readLayerFile, step]⟩
  | failed err s' => exact .inr ⟨(r, s'), fun n => by simp only [read, readLayerFile, step]⟩
  | header h s' =>
    rcases @read_turn _ tar target r _ _ _ step with ⟨err, _, _, ends⟩ | ⟨_, _, goes⟩
    · exact .inl ⟨.error err, ends⟩
    · exact .inr ⟨_, goes⟩

theorem read_stuck {r : Reading} {s s' : σ} {err : String} (step : tar.next s = .failed err s')
    (fuel : Nat) : readLayerFile tar target fuel r s = none := by
  induction fuel generalizing s s' with
  | zero => rfl
  | succ fuel ih =>
    obtain ⟨s'', again⟩ := tar.stuck step
    rw [readLayerFile, step]
    exact ih again

/-- Some entry of the file that is asked for has no whole body. -/
def Cut (tar : TarReader σ) (target : Path) (s : σ) : Prop :=
  ∃ found ∈ (stream tar s).1, Unreadable tar target found

theorem cut_header {s s' : σ} {h : Header} (step : tar.next s = .header h s') :
    Cut tar target s ↔ Unreadable tar target (h, s') ∨ Cut tar target s' := by
  simp only [Cut, stream_header step, mem_cons, exists_eq_or_imp]

/-- A layer's loop makes of the content what its entries make of it, where it ends. -/
theorem read_gives (r : Reading) (s : σ) (result : Except String Reading) :
    Gives (fun fuel => read tar target fuel (r, s)) result ↔
      readEntries tar target r (stream tar s).1 = result ∧
        ((stream tar s).2 = none ∨ Cut tar target s) := by
  induction s using @along _ tar generalizing r with
  | eof s step =>
    have ends : ∀ n, read tar target (n + 1) (r, s) = some (.ok r) := fun n => by
      simp only [read, readLayerFile, step]
    rw [stream_eof step]
    exact (gives_end read_start ends).trans (by simp [readEntries])
  | failed s err s' step =>
    rw [Cut, stream_failed step]
    refine iff_of_false ?_ (by simp)
    rintro ⟨n, found⟩
    have none_ : read tar target n (r, s) = none := read_stuck step n
    exact absurd (found.symm.trans none_) (by simp)
  | header s h s' step ih =>
    rw [cut_header step, stream_header step]
    rcases @read_turn _ tar target r _ _ _ step with ⟨err, cut, fails, ends⟩ | ⟨whole, reads, goes⟩
    · rw [fails, and_iff_left (.inr (.inl cut))]
      exact gives_end read_start ends
    · rw [reads, or_iff_right whole]
      exact (gives_turn read_start goes).trans (ih _)

theorem entries_fail (r : Reading) (s : σ) :
    (∃ err, readEntries tar target r (stream tar s).1 = .error err) ↔ Cut tar target s := by
  induction s using @along _ tar generalizing r with
  | eof s step => simp [Cut, stream_eof step, readEntries]
  | failed s err s' step => simp [Cut, stream_failed step, readEntries]
  | header s h s' step ih =>
    rw [cut_header step, stream_header step]
    rcases @read_turn _ tar target r _ _ _ step with ⟨err, cut, fails, _⟩ | ⟨whole, reads, _⟩
    · exact iff_of_true ⟨err, fails _⟩ (.inl cut)
    · rw [reads, or_iff_right whole]
      exact ih _

/-- Where every entry of the file has its body, the content is what the entries make of it. -/
theorem entries_whole (r : Reading) {s : σ} (whole : ¬ Cut tar target s) :
    readEntries tar target r (stream tar s).1 =
      .ok (((stream tar s).1.map (entryOf tar)).foldl (readStep target) r) := by
  induction s using @along _ tar generalizing r with
  | eof s step => simp [stream_eof step, readEntries]
  | failed s err s' step => simp [stream_failed step, readEntries]
  | header s h s' step ih =>
    rw [cut_header step, not_or] at whole
    rcases @read_turn _ tar target r _ _ _ step with ⟨_, cut, _⟩ | ⟨_, reads, _⟩
    · exact absurd cut whole.1
    · rw [stream_header step, reads]
      exact ih _ whole.2

def readStreams (tar : TarReader σ) (target : Path) (r : Reading) : List (Option σ) → Except String Reading
  | [] => .ok r
  | none :: rest => readStreams tar target r rest
  | some s :: rest =>
    match readEntries tar target r (stream tar s).1 with
    | .error err => .error err
    | .ok r' => readStreams tar target r' rest

/-- No layer's file fails, save after the read has given up on an entry's body. -/
def ReadWhole (tar : TarReader σ) (target : Path) (layers : List (Option σ)) : Prop :=
  ∀ front s rest err, layers = front ++ some s :: rest → (stream tar s).2 = some err →
    ∃ s', some s' ∈ front ++ [some s] ∧ Cut tar target s'

theorem read_whole_nil : ReadWhole tar target [] := by
  intro front s rest err split
  exact absurd split (by simp)

theorem read_whole_none {rest : List (Option σ)} :
    ReadWhole tar target (none :: rest) ↔ ReadWhole tar target rest := by
  constructor
  · intro whole front s back err split fails
    obtain ⟨s', member, cut⟩ := whole (none :: front) s back err (congrArg (none :: ·) split) fails
    exact ⟨s', by simpa using member, cut⟩
  · intro whole front s back err split fails
    cases front with
    | nil => exact absurd (cons.inj split).1 (by simp)
    | cons layer front =>
      obtain ⟨s', member, cut⟩ := whole front s back err (cons.inj split).2 fails
      exact ⟨s', mem_cons_of_mem layer member, cut⟩

theorem read_whole_some {s : σ} {rest : List (Option σ)} : ReadWhole tar target (some s :: rest) ↔
    ((stream tar s).2 = none ∨ Cut tar target s) ∧ (Cut tar target s ∨ ReadWhole tar target rest) := by
  constructor
  · intro whole
    constructor
    · cases fails : (stream tar s).2 with
      | none => exact .inl rfl
      | some err =>
        obtain ⟨s', member, cut⟩ := whole [] s rest err rfl fails
        rw [nil_append, mem_singleton] at member
        exact .inr (Option.some.inj member ▸ cut)
    · refine Classical.or_iff_not_imp_left.mpr fun clean front s' back err split fails => ?_
      obtain ⟨s'', member, cut⟩ := whole (some s :: front) s' back err (congrArg (some s :: ·) split) fails
      cases mem_cons.mp member with
      | inl same => exact absurd (Option.some.inj same ▸ cut) clean
      | inr later => exact ⟨s'', later, cut⟩
  · rintro ⟨ends, later⟩ front s' back err split fails
    cases front with
    | nil =>
      obtain rfl := Option.some.inj (cons.inj split).1
      rw [fails] at ends
      exact ⟨s, by simp, ends.resolve_left (by simp)⟩
    | cons layer front =>
      obtain ⟨rfl, back_⟩ := cons.inj split
      cases later with
      | inl cut => exact ⟨s, by simp, cut⟩
      | inr whole =>
        obtain ⟨s'', member, cut⟩ := whole front s' back err back_ fails
        exact ⟨s'', mem_cons_of_mem _ member, cut⟩

/-- What follows a layer: nothing where its read failed. -/
def readRest (tar : TarReader σ) (target : Path) (rest : List (Option σ)) (fuel : Nat) :
    Except String Reading → Option (Except String Reading)
  | .error err => some (.error err)
  | .ok r => readLayerFiles tar target fuel r rest

theorem reads_some (r : Reading) (s : σ) (rest : List (Option σ)) (fuel : Nat) :
    readLayerFiles tar target fuel r (some s :: rest) =
      (read tar target fuel (r, s)).bind (readRest tar target rest fuel) := by
  rw [readLayerFiles]
  refine congrArg (Option.bind _) (funext fun value => ?_)
  cases value <;> rfl

theorem rest_steady (rest : List (Option σ)) (value : Except String Reading) :
    Steady fun fuel => readRest tar target rest fuel value := by
  induction rest generalizing value with
  | nil => cases value <;> exact steady_some _
  | cons layer rest ih =>
    cases value with
    | error err => exact steady_some _
    | ok r =>
      cases layer with
      | none => exact ih (.ok r)
      | some s =>
        simp only [readRest, reads_some]
        exact steady_bind (read_steady r s) ih

theorem reads_give (r : Reading) (layers : List (Option σ)) (result : Except String Reading) :
    Gives (fun fuel => readLayerFiles tar target fuel r layers) result ↔
      readStreams tar target r layers = result ∧ ReadWhole tar target layers := by
  induction layers generalizing r with
  | nil => exact gives_some.trans (and_iff_left read_whole_nil).symm
  | cons layer rest ih =>
    cases layer with
    | none =>
      rw [read_whole_none]
      exact ih r
    | some s =>
      have cut := @entries_fail _ tar target r s
      simp only [reads_some]
      rw [gives_bind (read_steady r s) (rest_steady rest), read_whole_some, readStreams]
      simp only [read_gives]
      cases outcome : readEntries tar target r (stream tar s).1 with
      | error err =>
        have failed : Cut tar target s := cut.mp ⟨err, outcome⟩
        have ends : ∀ value, Gives (fun fuel => readRest tar target rest fuel (.error err)) value ↔
            .error err = value := fun _ => gives_some
        simp [failed, ends]
      | ok r' =>
        have whole : ¬ Cut tar target s := by
          rw [← cut, outcome]
          simp
        have goes : Gives (fun fuel => readRest tar target rest fuel (.ok r')) result ↔ _ := ih r'
        simp [whole, goes, and_left_comm]

end Files

section Ends
variable {σ : Type} (tar : TarReader σ) (layers : List (Option σ)) (filePath : String)

/-- The layers whose file opens, with the bodies that can be read. -/
def contents : List (List Entry) :=
  layers.filterMap fun layer => layer.map fun s => (stream tar s).1.map (entryOf tar)

variable {tar layers filePath}

/-- The loop over the tree ends just where no layer's file fails before it has turned to the next one, and then it
has made of the layers what their headers make. -/
theorem tree_iff (tar : TarReader σ) (layers : List (Option σ)) (b : Build) :
    (∃ fuel, buildFilesystemTreeFromFiles tar fuel layers = some b) ↔
      readLayers (opened tar layers) = b ∧ TreeWhole tar 0 layers :=
  scans_give (b := ⟨[rootNode], 0, 0⟩) (Nat.min_zero _).symm layers b

theorem streams_whole {target : Path} (whole : ∀ s, some s ∈ layers → ¬ Cut tar target s) (r : Reading) :
    readStreams tar target r layers =
      .ok ((contents tar layers).foldl (fun r layer => layer.foldl (readStep target) r) r) := by
  induction layers generalizing r with
  | nil => rfl
  | cons layer rest ih =>
    have later := ih fun s member => whole s (mem_cons_of_mem layer member)
    cases layer with
    | none => exact later r
    | some s =>
      rw [readStreams, entries_whole r (whole s mem_cons_self)]
      exact later _

/-- Where the read ends and every entry of the file has its body, it has made of the layers what their
entries make. -/
theorem read_refines {fuel : Nat} {result : Except String (List UInt8 × String)}
    (whole : ∀ s, some s ∈ layers → ¬ Cut tar (targetPath filePath) s)
    (run : readFileFromCachedLayers tar fuel layers filePath = some result) :
    result = FileRead.readFileFromCachedLayers (contents tar layers) filePath := by
  obtain ⟨outcome, found, rfl⟩ := Option.map_eq_some_iff.mp run
  obtain ⟨rfl, _⟩ := (reads_give ⟨false, none, ""⟩ layers outcome).mp ⟨fuel, found⟩
  rw [streams_whole whole]
  rfl

/-- The scans end exactly where no layer's file fails before they have turned to the next layer or
given up. -/
theorem ends_iff (tar : TarReader σ) (layers : List (Option σ)) (filePath : String) :
    Ends tar layers filePath ↔ TreeWhole tar 0 layers ∧ ReadWhole tar (targetPath filePath) layers := by
  have trees := @scans_give _ tar ⟨[rootNode], 0, 0⟩ 0 (Nat.min_zero _).symm layers
  have reads := @reads_give _ tar (targetPath filePath) ⟨false, none, ""⟩ layers
  constructor
  · rintro ⟨⟨fuel, b, run⟩, fuel', result, run'⟩
    obtain ⟨outcome, found, _⟩ := Option.map_eq_some_iff.mp run'
    exact ⟨((trees b).mp ⟨fuel, run⟩).2, ((reads outcome).mp ⟨fuel', found⟩).2⟩
  · rintro ⟨tree, read⟩
    obtain ⟨fuel, run⟩ := (trees _).mpr ⟨rfl, tree⟩
    obtain ⟨fuel', run'⟩ := (reads _).mpr ⟨rfl, read⟩
    exact ⟨⟨fuel, _, run⟩, fuel', _, Option.map_eq_some_iff.mpr ⟨_, run', rfl⟩⟩

/-- A file as what its reader gives: the entries that are left, what is left of the body before them,
and the error at the end. -/
structure Archive where
  entries : List (Header × Except String (List UInt8))
  body : Except String (List UInt8)
  ending : Option String

def archives : TarReader Archive where
  next a := match a.entries, a.ending with
    | (h, body) :: rest, _ => .header h ⟨rest, body, a.ending⟩
    | [], none => .eof
    | [], some err => .failed err ⟨[], .ok [], a.ending⟩
  readAll a := (a.body, ⟨a.entries, .ok [], a.ending⟩)
  left a := a.entries.length
  consumes := by
    rintro ⟨entries, body, ending⟩ h s' step
    cases entries with
    | nil => cases ending <;> simp at step
    | cons e rest =>
      injection step with _ same
      rw [← same]
      exact Nat.lt_succ_self _
  stuck := by
    rintro ⟨entries, body, ending⟩ err s' step
    cases entries with
    | nil =>
      cases ending with
      | none => simp at step
      | some err' =>
        injection step with same same'
        exact ⟨_, by rw [← same, ← same']⟩
    | cons e rest => simp at step
  skips := by
    rintro ⟨entries, body, ending⟩ data s' read
    rw [← (Prod.mk.inj read).2]

/-- A layer that does not open, and one with a file. -/
def hosts : List (Option Archive) := [none, some ⟨[(⟨"etc/hosts", .reg, 1, "", 0, "", ""⟩, .ok [104])], .ok [], none⟩]

theorem hosts_read : .ok ([104], "hosts") = FileRead.readFileFromCachedLayers (contents archives hosts) "etc/hosts" := by
  have run : readFileFromCachedLayers archives 2 hosts "etc/hosts" = some (.ok ([104], "hosts")) := by decide +kernel
  refine read_refines ?_ run
  rintro s member
  obtain rfl : s = _ := by simpa [hosts] using member
  rw [cut_header rfl, Cut, stream_eof rfl]
  simp [Unreadable, archives]

/-- A layer's file that breaks off keeps both loops going. -/
theorem truncated_layer_loops : ¬ Ends archives [some ⟨[], .ok [], some "unexpected EOF"⟩] "etc/hosts" := by
  rintro ⟨⟨fuel, b, run⟩, _⟩
  have step : archives.next ⟨[], .ok [], some "unexpected EOF"⟩ =
    .failed "unexpected EOF" ⟨[], .ok [], some "unexpected EOF"⟩ := rfl
  rw [buildFilesystemTreeFromFiles, scanLayers, scan_stuck step] at run
  exact absurd run (by simp)

end Ends
end LayerScan
