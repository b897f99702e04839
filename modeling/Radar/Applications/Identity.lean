import Radar.Applications.Grouping
import Radar.Topology.NodeRef

/- internal/server/applications_identity.go: the rows that are per-environment instances of one
   application. Rows come without an identity and are told apart by their position. -/
namespace AppIdentity
open Applications Firsts GoText NodeRef

inductive Source where
  | explicit | argoPath | argoAppSet | fluxSource | label | nameStem | namespace_
  deriving DecidableEq

inductive IdentityConfidence where
  | high | medium
  deriving DecidableEq

structure Identity where
  key : String
  env : String
  confidence : IdentityConfidence
  evidence : String
  portable : Bool
  source : Source
  pathKey : String
  deriving DecidableEq

/-- What the resolver reads of a workload. -/
structure RowWorkload where
  image : String
  envLabel : String
  nameLabel : String
  appAnnotation : String
  deriving DecidableEq

structure Row where
  key : String
  name : String
  namespace_ : String
  namespaces : List String
  tier : Nat
  workloads : List RowWorkload
  deriving DecidableEq

structure AppSetFanout where
  stem : String
  env : String
  deriving DecidableEq

/-- The feeds beside the rows: the source paths of Argo Applications and Flux Kustomizations, the
fan-outs of ApplicationSets by the keys of their children, and the namespaces' environment labels. -/
structure Feeds where
  argoSourcePaths : String → Option String
  appSetByKey : String → Option AppSetFanout
  nsEnvLabels : String → String
  fluxPaths : String → Option String

section Texts

def envCanonical : List (String × String) :=
  [("dev", "dev"), ("development", "dev"), ("staging", "staging"), ("stage", "staging"),
    ("stg", "staging"), ("prod", "prod"), ("production", "prod"), ("prd", "prod")]

def trioEnv (casing : Casing) (tok : String) : Option String := envCanonical.lookup (casing.toLower tok)

def canonicalEnvToken (casing : Casing) (tok : String) : String := (trioEnv casing tok).getD tok

/-- The text before the last separator, and behind it. -/
def cutLast (sep : Char) (s : String) : Option (String × String) :=
  (cut sep (String.ofList s.toList.reverse)).map fun parts =>
    (String.ofList parts.2.toList.reverse, String.ofList parts.1.toList.reverse)

def imageRepo (image : String) : String := let named := ((cut '@' image).map Prod.fst).getD image
  match cutLast ':' named with
  | none => named
  -- a colon before the last slash is a registry's port
  | some (repo, tag) => if '/' ∈ tag.toList then named else repo

structure Reading where
  stem : String
  token : String
  prio : Nat
  deriving DecidableEq

def readingsOf (casing : Casing) (name ns : String) : List Reading :=
  let affix (parts : Option (String × String)) := parts.toList.filter fun p => p.1 ≠ "" ∧ p.2 ≠ ""
  let segments := ((ns.toList.splitOnP fun c => c = '-' ∨ c = '_').filter fun seg => seg ≠ []).map
    String.ofList
  (affix (cutLast '-' name)).map (fun p => ⟨p.1, casing.toLower p.2, 0⟩) ++
  (affix (cut '-' name)).map (fun p => ⟨p.2, casing.toLower p.1, 1⟩) ++
  (if ns = "" then []
    else
      (if '-' ∈ ns.toList ∨ '_' ∈ ns.toList then [] else [⟨name, casing.toLower ns, 2⟩]) ++
      (segments.filter fun seg => ¬ casing.equalFold seg ns).map fun seg => ⟨name, casing.toLower seg, 3⟩)

/-- strings.Trim for slashes. -/
def trimSlashes (s : String) : String :=
  String.ofList ((s.toList.dropWhile (· = '/')).reverse.dropWhile (· = '/')).reverse

structure PathScan where
  kept : List String
  env : String
  prevWasOverlayDir : Bool

def PathScan.next (casing : Casing) (scan : PathScan) (segment : String) : PathScan :=
  let lower := casing.toLower segment
  if scan.env = "" ∧ scan.prevWasOverlayDir then ⟨scan.kept, lower, false⟩
  else if lower = "overlays" ∨ lower = "envs" ∨ lower = "environments" then
    { scan with prevWasOverlayDir := true }
  else
    match if scan.env = "" then trioEnv casing segment else none with
    | some canonical => ⟨scan.kept, canonical, false⟩
    | none => ⟨scan.kept ++ [segment], scan.env, false⟩

def pathStemEnv (casing : Casing) (path : String) : String × String :=
  let scan := (split '/' (trimSlashes path)).foldl (PathScan.next casing) ⟨[], "", false⟩
  if scan.env = "" then ("", "")
  else (String.ofList (join '/' (scan.kept.map String.toList)), scan.env)

def argoSourcePathKeys (rowKey : String) : List String := let name := appNameFromKey rowKey
  let ns := namespaceFromKey rowKey
  if ns = "" then [name] else [ns ++ "/" ++ name, name]

/-- fmt's %q for a text that has nothing to escape, as labels and names have not. -/
def quoted (s : String) : String := "\"" ++ s ++ "\""

end Texts

section Infos

/-- A declared source path, by its stem and the environment it names. -/
structure Declared where
  stem : String
  env : String
  source : Source
  deriving DecidableEq

structure RowInfo where
  row : Nat
  name : String
  key : String
  tier : Nat
  ns : String
  readings : List Reading
  repos : List String
  declared : Option Declared
  labelEnv : String
  nameLabel : String
  appAnno : String
  deriving DecidableEq

def rowNs (r : Row) : String := if r.namespace_ ≠ "" then r.namespace_
  else
    match r.namespaces with
    | [ns] => ns
    | _ => ""

/-- The one value of those that are given, empty where they disagree. -/
def agreed (values : List String) : String := match values.filter fun v => v ≠ "" with
  | [] => ""
  | v :: rest => if rest.all fun other => other = v then v else ""

/-- The first of the keys that the feed knows, if its path names an environment below a stem. -/
def declaredPath (casing : Casing) (paths : String → Option String) (source : Source) (key : String) :
    Option Declared :=
  ((argoSourcePathKeys key).findSome? paths).bind fun path => let (stem, env) := pathStemEnv casing path
    if stem = "" then none else some ⟨stem, env, source⟩

def rowInfo (casing : Casing) (feeds : Feeds) (row : Nat) (r : Row) : RowInfo := let ns := rowNs r
  let wlEnv := agreed (r.workloads.map RowWorkload.envLabel)
  let appAnno := agreed (r.workloads.map RowWorkload.appAnnotation)
  { row := row
    name := r.name
    key := r.key
    tier := r.tier
    ns := ns
    readings := readingsOf casing r.name ns
    repos := (r.workloads.map fun w => imageRepo w.image).filter fun repo => repo ≠ ""
    declared := if r.tier = 3 ∨ r.tier = 4 then declaredPath casing feeds.argoSourcePaths .argoPath r.key
      else if r.tier = 2 then declaredPath casing feeds.fluxPaths .fluxSource r.key
      else none
    labelEnv := if wlEnv ≠ "" then wlEnv else feeds.nsEnvLabels ns
    nameLabel := agreed (r.workloads.map RowWorkload.nameLabel)
    -- every workload has to carry the annotation
    appAnno := if r.workloads.all fun w => w.appAnnotation ≠ "" then appAnno else "" }

def rowInfos (casing : Casing) (feeds : Feeds) (rows : List Row) : List RowInfo :=
  rows.mapIdx (rowInfo casing feeds)

def clusterNamespaces (casing : Casing) (rows : List Row) : List String :=
  rows.flatMap fun r => (r.namespaces ++ [rowNs r].filter fun ns => ns ≠ "").map casing.toLower

end Infos

section Qualification

/-- The readings that count for a row, each stem and token once. -/
def groupReadings (info : RowInfo) : List Reading := firsts (fun rd => (rd.stem, rd.token)) []
    (info.readings.filter fun rd => rd.stem ≠ "" ∧ rd.token ≠ "")

/-- The row's reading under a stem, of the lowest priority. -/
def memberReading (info : RowInfo) (stem : String) : Option Reading :=
  ((groupReadings info).filter fun rd => rd.stem = stem).foldl (fun best rd =>
    match best with
    | none => some rd
    | some prev => if rd.prio < prev.prio then some rd else some prev) none

def groupMembers (infos : List RowInfo) (stem : String) : List (RowInfo × Reading) :=
  infos.filterMap fun info => (memberReading info stem).map fun rd => (info, rd)

def groupTokens (infos : List RowInfo) (stem : String) : List String :=
  infos.flatMap fun info => ((groupReadings info).filter fun rd => rd.stem = stem).map Reading.token

def distinctCount (values : List String) : Nat := values.dedup.length

/-- The members that share a repository with others of other tokens, once for each such repository. -/
def corroborated (members : List (RowInfo × Reading)) : List (RowInfo × Reading) :=
  (members.flatMap fun m => m.1.repos).dedup.flatMap fun repo =>
    let sharing := members.filter fun m => repo ∈ m.1.repos
    if 2 ≤ sharing.length ∧ 2 ≤ distinctCount (sharing.map fun m => m.2.token) then sharing else []

/-- The tokens a viable group counts for, and the namespaces it spreads over. -/
def viableGroup (infos : List RowInfo) (stem : String) : Option (List String × List String) :=
  let members := groupMembers infos stem
  if members.length < 2 ∨ distinctCount (groupTokens infos stem) < 2 then none
  else
    let found := corroborated members
    let tokens := (found.map fun m => m.2.token).dedup
    if tokens.length < 2 then none else some (tokens, (found.map fun m => m.1.ns).dedup)

def viableGroups (infos : List RowInfo) : List (List String × List String) :=
  (infos.flatMap fun info => (groupReadings info).map Reading.stem).dedup.filterMap
    (viableGroup infos)

def qualified (casing : Casing) (namespaces : List String) (infos : List RowInfo) (tok : String) : Bool :=
  let groups := (viableGroups infos).filter fun g => tok ∈ g.1
  (0 < groups.length ∧ ((trioEnv casing tok).isSome ∨
    (3 ≤ groups.length ∧ groups.any fun g => 2 ≤ g.2.length) ∨
    ((infos.any fun info => info.readings.any fun rd => rd.prio ≤ 1 ∧ rd.token = tok) ∧
      tok ∈ namespaces))) ∨
  infos.any fun info => (info.declared.any fun d => casing.toLower d.env = tok) ∨
      (info.labelEnv ≠ "" ∧ info.labelEnv = tok)

end Qualification

section Candidates

structure Candidate where
  row : Nat
  stem : String
  env : String
  declared : Option Declared
  labelEnv : String
  repos : List String
  prio : Nat
  adopted : Bool
  deriving DecidableEq

def better (casing : Casing) (a b : Reading) : Bool := let aTrio := (trioEnv casing a.token).isSome
  let bTrio := (trioEnv casing b.token).isSome
  if aTrio ≠ bTrio then aTrio else a.prio < b.prio

def chosenReading (casing : Casing) (qualifies : String → Bool) (info : RowInfo) : Option Reading :=
  (info.readings.filter fun rd => (trioEnv casing rd.token).isSome ∨ qualifies rd.token).foldl
    (fun chosen rd =>
      match chosen with
      | none => some rd
      | some best => if better casing rd best then some rd else some best) none

/-- An explicit label names the environment before a declared path, and that before a reading. -/
def candidateEnv (casing : Casing) (info : RowInfo) (read : String) : String :=
  if info.labelEnv ≠ "" then canonicalEnvToken casing info.labelEnv
  else
    match info.declared with
    | some d => canonicalEnvToken casing d.env
    | none => read

def candidate (casing : Casing) (qualifies : String → Bool) (info : RowInfo) : Option Candidate :=
  match chosenReading casing qualifies info with
  | some rd =>
    some ⟨info.row, rd.stem, candidateEnv casing info (canonicalEnvToken casing rd.token),
      info.declared, info.labelEnv, info.repos, rd.prio, false⟩
  | none =>
    if info.declared = none ∧ info.labelEnv = "" then
      (info.readings.find? fun rd => rd.prio = 2).map fun rd =>
        ⟨info.row, rd.stem, canonicalEnvToken casing rd.token, none, "", info.repos, rd.prio, true⟩
    else
      some ⟨info.row, info.name, candidateEnv casing info "", info.declared, info.labelEnv,
        info.repos, 0, false⟩

/-- The candidates of a call, in the order of their rows. -/
def candidates (casing : Casing) (feeds : Feeds) (rows : List Row) : List Candidate :=
  let infos := rowInfos casing feeds rows
  infos.filterMap (candidate casing (qualified casing (clusterNamespaces casing rows) infos))

end Candidates

section Formation

def repoOf (cands : List Candidate) : List String := (cands.flatMap Candidate.repos).dedup

def sharedRepo (cands : List Candidate) : String :=
  (sortedTexts ((repoOf cands).filter fun repo => cands.all fun c => repo ∈ c.repos)).headD ""

def distinctEnvCount (cands : List Candidate) : Nat := distinctCount (cands.map Candidate.env)

def uniqueRepoCore (cands : List Candidate) : String × List Candidate :=
  let group (repo : String) := cands.filter fun c => repo ∈ c.repos
  match (repoOf cands).filter fun repo => 2 ≤ (group repo).length ∧ 2 ≤ distinctEnvCount (group repo) with
  | [repo] => (repo, group repo)
  | _ => ("", [])

def declaredStems (cands : List Candidate) : List String :=
  (cands.filterMap fun c => c.declared.map Declared.stem).dedup

def core (cands : List Candidate) : List Candidate := cands.filter fun c => ¬ c.adopted

/-- The members of a stem's group and the repository they share, none where it is refused. -/
def formGroup (cands : List Candidate) : Option (List Candidate × String) :=
  let declared := declaredStems cands
  let coreCands := core cands
  if 1 < declared.length then none
  else if coreCands.length < 2 ∨ distinctEnvCount coreCands < 2 then none
  else
    let proof := if sharedRepo coreCands = "" ∧ declared.length ≠ 1 then uniqueRepoCore coreCands
      else (sharedRepo coreCands, coreCands)
    if proof.1 = "" ∧ declared.length ≠ 1 then none
    else
      some (proof.2 ++ cands.filter fun c => c.adopted ∧ proof.1 ≠ "" ∧ proof.1 ∈ c.repos, proof.1)

def memberIdentity (stem shared : String) (c : Candidate) : Option Identity := match c.declared with
  | some d =>
    let origin := if d.source = .fluxSource then "Flux source path" else "Argo CD source path"
    some ⟨stem, c.env, .high, origin ++ " " ++ d.stem ++ " (env overlay " ++ c.env ++ ")", true,
      d.source, d.stem⟩
  | none =>
    if c.labelEnv ≠ "" then
      some ⟨stem, c.env, .medium,
        "environment label " ++ quoted c.labelEnv ++ " + name/repo evidence", false, .nameStem, ""⟩
    else if 2 ≤ c.prio then
      some ⟨stem, c.env, .medium,
        "namespace stem " ++ quoted stem ++ " + shared image repo " ++ shared, false, .namespace_, ""⟩
    else if shared ≠ "" then
      some ⟨stem, c.env, .medium,
        "name stem " ++ quoted stem ++ " + shared image repo " ++ shared, false, .nameStem, ""⟩
    else none

def byStem (cands : List Candidate) (stem : String) : List Candidate := cands.filter fun c => c.stem = stem

/-- The identities that the groups give, by row. A row is in one group, so that the order of the
groups, which follows a map's iteration, does not matter. -/
def grouped (cands : List Candidate) : List (Nat × Identity) :=
  (cands.map Candidate.stem).dedup.flatMap fun stem => match formGroup (byStem cands stem) with
    | none => []
    | some (members, shared) =>
      members.filterMap fun c => (memberIdentity stem shared c).map fun id => (c.row, id)

end Formation

section Tiers

def resolveStandaloneEnv (casing : Casing) (qualifies : String → Bool) (info : RowInfo)
    (cur : Option Identity) : String :=
  match cur.bind fun id => if id.env ≠ "" then some id.env else none with
  | some env => env
  | none =>
    if info.labelEnv ≠ "" then canonicalEnvToken casing info.labelEnv
    else
      match info.declared with
      | some d => canonicalEnvToken casing d.env
      | none =>
        match info.readings.find? fun rd => (trioEnv casing rd.token).isSome with
        | some rd => canonicalEnvToken casing rd.token
        | none =>
          match info.readings.find? fun rd => qualifies rd.token with
          | some rd => canonicalEnvToken casing rd.token
          | none => ""

def labelTier (casing : Casing) (qualifies : String → Bool) (info : RowInfo) (cur : Option Identity) :
    Option Identity :=
  if info.nameLabel = "" then cur
  else if cur.any fun id => id.confidence = .high then cur
  else
    some ⟨info.nameLabel, resolveStandaloneEnv casing qualifies info cur, .high,
      "app.kubernetes.io/name=" ++ quoted info.nameLabel, false, .label, ""⟩

/-- The fan-out that has the row's Application among its children. -/
def fanout (feeds : Feeds) (info : RowInfo) : Option AppSetFanout :=
  if info.tier = 3 ∨ info.tier = 4 then (argoSourcePathKeys info.key).findSome? feeds.appSetByKey
  else none

def appSetTier (casing : Casing) (qualifies : String → Bool) (feeds : Feeds) (info : RowInfo)
    (cur : Option Identity) : Option Identity :=
  if cur.any fun id => id.source = .argoPath ∨ id.source = .explicit then cur
  else
    match fanout feeds info with
    | none => cur
    | some fan =>
      let env := if fan.env = "" then resolveStandaloneEnv casing qualifies info cur else fan.env
      some ⟨fan.stem, env, .high,
        "ApplicationSet fan-out " ++ quoted fan.stem ++ " (env " ++ env ++ ")", true, .argoAppSet, ""⟩

def explicitTier (casing : Casing) (qualifies : String → Bool) (info : RowInfo)
    (cur : Option Identity) : Option Identity :=
  if info.appAnno = "" then cur
  else
    some ⟨info.appAnno, resolveStandaloneEnv casing qualifies info cur, .high,
      "app.skyhook.io/app=" ++ quoted info.appAnno, true, .explicit, ""⟩

/-- The identities of the rows, in their order. -/
def resolveAppIdentities (casing : Casing) (feeds : Feeds) (rows : List Row) : List (Option Identity) :=
  let infos := rowInfos casing feeds rows
  let qualifies := qualified casing (clusterNamespaces casing rows) infos
  let formed := grouped (candidates casing feeds rows)
  infos.map fun info => explicitTier casing qualifies info
      (appSetTier casing qualifies feeds info
        (labelTier casing qualifies info (formed.lookup info.row)))

end Tiers

end AppIdentity
