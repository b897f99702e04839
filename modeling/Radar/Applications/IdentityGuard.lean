import Radar.Applications.Identity
import Radar.Topology.Neighborhood

/- When a heuristic identity has an image repository behind it. -/
namespace AppIdentity
open Applications Firsts GoText NodeRef List
variable {c : Candidate}

/-- The identities that come from names alone. -/
def Identity.Heuristic (id : Identity) : Prop := id.source = .nameStem ∨ id.source = .namespace_

/-- Another member, of another environment, that has one of the candidate's repositories. -/
def HasPartner (members : List Candidate) (c : Candidate) : Prop :=
  ∃ other ∈ members, other.row ≠ c.row ∧ other.env ≠ c.env ∧ ∃ repo ∈ c.repos, repo ∈ other.repos

instance (members : List Candidate) (c : Candidate) : Decidable (HasPartner members c) :=
  inferInstanceAs (Decidable (∃ other ∈ members, other.row ≠ c.row ∧ other.env ≠ c.env ∧
    ∃ repo ∈ c.repos, repo ∈ other.repos))

/-- The row is in the group of its identity's stem, under the identity's environment, and has a
partner there. -/
def Grounded (cands : List Candidate) (row : Nat) (id : Identity) : Prop :=
  ∃ members shared, formGroup (byStem cands id.key) = some (members, shared) ∧
    ∃ c ∈ members, c.row = row ∧ c.env = id.env ∧ HasPartner members c

def GuardHolds (casing : Casing) (feeds : Feeds) (rows : List Row) : Prop :=
  ∀ row id, (resolveAppIdentities casing feeds rows)[row]? = some (some id) → id.Heuristic →
    Grounded (candidates casing feeds rows) row id

/-- A group that only a declared path holds together. -/
structure Unshared (cands : List Candidate) : Prop where
  declared : (declaredStems cands).length = 1
  enough : 2 ≤ (core cands).length
  spread : 2 ≤ distinctEnvCount (core cands)
  apart : sharedRepo (core cands) = ""

/-- A later tier gives the row an identity of its own. -/
def Retagged (feeds : Feeds) (info : RowInfo) : Prop :=
  info.nameLabel ≠ "" ∨ (fanout feeds info).isSome ∨ info.appAnno ≠ ""

/-- The undeclared rows that are tagged without looking at a repository. -/
structure Unchecked (feeds : Feeds) (infos : List RowInfo) (c : Candidate) : Prop where
  undeclared : c.declared = none
  tagged : c.labelEnv ≠ "" ∨ 2 ≤ c.prio
  kept : ∀ info ∈ infos, info.row = c.row → ¬ Retagged feeds info

section Rows
variable {casing : Casing} {rows : List Row} {info : RowInfo} {feeds : Feeds} {d : Declared}

theorem mem_row_infos {row : Nat} : (rowInfos casing feeds rows)[row]? = some info ↔
      info ∈ rowInfos casing feeds rows ∧ info.row = row := by
  have position : ∀ (i : Nat) (x : RowInfo), (rowInfos casing feeds rows)[i]? = some x → x.row = i := by
    intro i x held
    rw [rowInfos, getElem?_mapIdx] at held
    obtain ⟨r, _, rfl⟩ := Option.map_eq_some_iff.mp held
    rfl
  constructor
  · intro held
    exact ⟨mem_of_getElem? held, position row info held⟩
  · rintro ⟨member, rfl⟩
    obtain ⟨i, held⟩ := getElem?_of_mem member
    rw [position i info held]
    exact held

theorem row_infos_alone {a b : RowInfo}
    (one : a ∈ rowInfos casing feeds rows) (other : b ∈ rowInfos casing feeds rows)
    (same : a.row = b.row) : a = b := by
  have first := mem_row_infos.mpr ⟨one, same⟩
  have second := mem_row_infos.mpr ⟨other, rfl⟩
  exact Option.some.inj (first.symm.trans second)

theorem declared_path_source {paths : String → Option String} {source : Source}
    {key : String} (found : declaredPath casing paths source key = some d) :
    d.source = source := by
  obtain ⟨path, _, parsed⟩ := Option.bind_eq_some_iff.mp found
  dsimp only at parsed
  split at parsed
  · exact absurd parsed (by simp)
  · rw [← Option.some.inj parsed]

/-- A declared path is never a heuristic. -/
theorem info_declared
    (member : info ∈ rowInfos casing feeds rows) (declared : info.declared = some d) :
    d.source = .argoPath ∨ d.source = .fluxSource := by
  obtain ⟨row, held⟩ := getElem?_of_mem member
  rw [rowInfos, getElem?_mapIdx] at held
  obtain ⟨r, _, rfl⟩ := Option.map_eq_some_iff.mp held
  simp only [rowInfo] at declared
  split at declared
  · exact Or.inl (declared_path_source declared)
  · split at declared
    · exact Or.inr (declared_path_source declared)
    · exact absurd declared (by simp)

theorem candidate_of_info {qualifies : String → Bool}
    (made : candidate casing qualifies info = some c) :
    c.row = info.row ∧ (c.declared = none ∨ c.declared = info.declared) := by
  unfold candidate at made
  split at made
  next rd chosen =>
    rw [← Option.some.inj made]
    exact ⟨rfl, Or.inr rfl⟩
  next none_chosen =>
    split at made
    · obtain ⟨rd, _, rfl⟩ := Option.map_eq_some_iff.mp made
      exact ⟨rfl, Or.inl rfl⟩
    · rw [← Option.some.inj made]
      exact ⟨rfl, Or.inr rfl⟩

variable {feeds : Feeds} {rows : List Row}

theorem candidates_alone {a b : Candidate} (one : a ∈ candidates casing feeds rows)
    (other : b ∈ candidates casing feeds rows) (same : a.row = b.row) : a = b := by
  obtain ⟨x, xHeld, xMade⟩ := mem_filterMap.mp one
  obtain ⟨y, yHeld, yMade⟩ := mem_filterMap.mp other
  rw [(candidate_of_info xMade).1, (candidate_of_info yMade).1] at same
  obtain rfl := row_infos_alone xHeld yHeld same
  exact Option.some.inj (xMade.symm.trans yMade)

theorem candidate_info (member : c ∈ candidates casing feeds rows) :
    ∃ info ∈ rowInfos casing feeds rows, info.row = c.row := by
  obtain ⟨info, held, made⟩ := mem_filterMap.mp member
  exact ⟨info, held, (candidate_of_info made).1.symm⟩

theorem candidate_declared (member : c ∈ candidates casing feeds rows)
    (declared : c.declared = some d) :
    d.source = .argoPath ∨ d.source = .fluxSource := by
  obtain ⟨info, held, made⟩ := mem_filterMap.mp member
  rcases (candidate_of_info made).2 with unread | read
  · rw [unread] at declared
    exact absurd declared (by simp)
  · exact info_declared held (read ▸ declared)

end Rows

section Groups
variable {cands members : List Candidate} {shared : String}

theorem mem_by_stem {stem : String} : c ∈ byStem cands stem ↔ c ∈ cands ∧ c.stem = stem := by
  simp [byStem]

theorem shared_repo_common (given : sharedRepo cands ≠ "") : ∀ c ∈ cands, sharedRepo cands ∈ c.repos := by
  intro c member
  have first : sharedRepo cands ∈
      sortedTexts ((repoOf cands).filter fun repo => cands.all fun c => repo ∈ c.repos) := by
    rw [sharedRepo] at given ⊢
    cases sorted : sortedTexts ((repoOf cands).filter fun repo => cands.all fun c => repo ∈ c.repos) with
    | nil => exact absurd (by rw [sorted, headD_nil]) given
    | cons repo rest =>
      rw [headD_cons]
      exact mem_cons_self
  rw [sortedTexts, mem_mergeSort, mem_filter, all_eq_true] at first
  exact of_decide_eq_true (first.2 c member)

/-- Where two environments are met, no candidate is alone with its own. -/
theorem other_env (spread : 2 ≤ distinctEnvCount cands) (env : String) :
    ∃ other ∈ cands, other.env ≠ env := by
  by_contra alone
  push Not at alone
  have same : (cands.map Candidate.env).dedup ⊆ [env] := by
    intro found member
    obtain ⟨c, held, rfl⟩ := mem_map.mp (mem_dedup.mp member)
    exact mem_singleton.mpr (alone c held)
  have few := ((nodup_dedup (cands.map Candidate.env)).subperm same).length_le
  rw [distinctEnvCount, distinctCount] at spread
  simp only [length_singleton] at few
  omega

theorem unique_repo_core_shared (given : (uniqueRepoCore cands).1 ≠ "") :
    (∀ c ∈ (uniqueRepoCore cands).2, c ∈ cands ∧ (uniqueRepoCore cands).1 ∈ c.repos) ∧
      2 ≤ distinctEnvCount (uniqueRepoCore cands).2 := by
  unfold uniqueRepoCore at given ⊢
  dsimp only at given ⊢
  split at given
  next repo only =>
    have picked : repo ∈ (repoOf cands).filter fun repo =>
        decide (2 ≤ (cands.filter fun c => repo ∈ c.repos).length ∧
          2 ≤ distinctEnvCount (cands.filter fun c => repo ∈ c.repos)) := by
      rw [only]
      exact mem_singleton_self repo
    rw [mem_filter, decide_eq_true_eq] at picked
    exact ⟨fun c member => by simpa using member, picked.2.2⟩
  next => exact absurd rfl given

/-- The members that prove a group by a repository of theirs. -/
structure Proven (cands members : List Candidate) (shared : String) : Prop where
  inside : members ⊆ cands
  common : ∀ c ∈ members, shared ∈ c.repos
  spread : ∀ env, ∃ other ∈ members, other.env ≠ env

def adoptees (cands : List Candidate) (shared : String) : List Candidate :=
  cands.filter fun c => c.adopted ∧ shared ≠ "" ∧ shared ∈ c.repos

theorem core_inside : core cands ⊆ cands := fun _ member => (mem_filter.mp member).1

theorem Proven.adopt (proven : Proven cands members shared) :
    Proven cands (members ++ adoptees cands shared) shared where
  inside := by
    intro c member
    rcases mem_append.mp member with proof | adopted
    · exact proven.inside proof
    · exact (mem_filter.mp adopted).1
  common := by
    intro c member
    rcases mem_append.mp member with proof | adopted
    · exact proven.common c proof
    · exact (of_decide_eq_true (mem_filter.mp adopted).2).2.2
  spread env := by
    obtain ⟨other, held, different⟩ := proven.spread env
    exact ⟨other, mem_append_left _ held, different⟩

/-- How a group is formed: all of the core shares a repository, or only one repository is shared
at all, or a declared path stands in for it. -/
theorem form_group_cases (formed : formGroup cands = some (members, shared)) :
    (shared ≠ "" ∧ ∃ proof, Proven cands proof shared ∧ members = proof ++ adoptees cands shared) ∨
      (shared = "" ∧ Unshared cands ∧ members = core cands) := by
  unfold formGroup at formed
  dsimp only at formed
  split at formed
  · exact absurd formed (by simp)
  next single =>
  split at formed
  · exact absurd formed (by simp)
  next large =>
  push Not at large
  by_cases partly : sharedRepo (core cands) = "" ∧ (declaredStems cands).length ≠ 1
  · rw [if_pos partly] at formed
    split at formed
    · exact absurd formed (by simp)
    next proved =>
    obtain ⟨rfl, rfl⟩ := Prod.mk.inj (Option.some.inj formed)
    have found : (uniqueRepoCore (core cands)).1 ≠ "" := fun empty => proved ⟨empty, partly.2⟩
    obtain ⟨sharing, spread⟩ := unique_repo_core_shared found
    refine Or.inl ⟨found, (uniqueRepoCore (core cands)).2, ⟨?_, ?_, other_env spread⟩, rfl⟩
    · exact fun c member => core_inside (sharing c member).1
    · exact fun c member => (sharing c member).2
  · rw [if_neg partly] at formed
    split at formed
    · exact absurd formed (by simp)
    obtain ⟨rfl, rfl⟩ := Prod.mk.inj (Option.some.inj formed)
    by_cases apart : sharedRepo (core cands) = ""
    · have declared : (declaredStems cands).length = 1 := by
        by_contra several
        exact partly ⟨apart, several⟩
      refine Or.inr ⟨apart, ⟨declared, large.1, large.2, apart⟩, ?_⟩
      simp [apart]
    · exact Or.inl ⟨apart, core cands, ⟨core_inside, shared_repo_common apart, other_env large.2⟩, rfl⟩

theorem form_group_unshared (unshared : Unshared cands) : formGroup cands = some (core cands, "") := by
  have small : ¬ ((core cands).length < 2 ∨ distinctEnvCount (core cands) < 2) := by
    rintro (few | narrow)
    · exact absurd unshared.enough (Nat.not_le.mpr few)
    · exact absurd unshared.spread (Nat.not_le.mpr narrow)
  unfold formGroup
  dsimp only
  rw [unshared.declared, unshared.apart, if_neg (lt_irrefl 1), if_neg small]
  simp

theorem form_group_inside (formed : formGroup cands = some (members, shared)) : members ⊆ cands := by
  rcases form_group_cases formed with ⟨_, proof, proven, rfl⟩ | ⟨_, _, rfl⟩
  · exact proven.adopt.inside
  · exact core_inside

end Groups

section Members
variable {cands members : List Candidate} {stem shared : String} {id : Identity}

theorem member_identity_key (made : memberIdentity stem shared c = some id) :
    id.key = stem ∧ id.env = c.env := by
  unfold memberIdentity at made
  split at made
  · rw [← Option.some.inj made]
    exact ⟨rfl, rfl⟩
  · split_ifs at made
    all_goals
      rw [← Option.some.inj made]
      exact ⟨rfl, rfl⟩

/-- A member without a declared path is tagged for its label, for its namespace, or for the
repository its group shares, and always as a heuristic. -/
theorem member_identity_undeclared (stem shared : String) (undeclared : c.declared = none) :
    (∃ id, memberIdentity stem shared c = some id ∧ id.Heuristic ∧ id.confidence = .medium) ∨
      (memberIdentity stem shared c = none ∧ c.labelEnv = "" ∧ c.prio < 2 ∧ shared = "") := by
  unfold memberIdentity
  rw [undeclared]
  by_cases labelled : c.labelEnv ≠ ""
  · exact Or.inl ⟨_, if_pos labelled, Or.inl rfl, rfl⟩
  by_cases spaced : 2 ≤ c.prio
  · exact Or.inl ⟨_, (if_neg labelled).trans (if_pos spaced), Or.inr rfl, rfl⟩
  by_cases proved : shared ≠ ""
  · exact Or.inl ⟨_, (if_neg labelled).trans ((if_neg spaced).trans (if_pos proved)), Or.inl rfl, rfl⟩
  · exact Or.inr ⟨(if_neg labelled).trans ((if_neg spaced).trans (if_neg proved)),
      not_not.mp labelled, Nat.not_le.mp spaced, not_not.mp proved⟩

/-- Without a repository only a label or a namespace tags. -/
theorem member_identity_unshared (undeclared : c.declared = none)
    (made : memberIdentity stem "" c = some id) : c.labelEnv ≠ "" ∨ 2 ≤ c.prio := by
  by_contra untold
  push Not at untold
  simp [memberIdentity, undeclared, untold.1, Nat.not_le.mpr untold.2] at made

theorem member_identity_heuristic (made : memberIdentity stem shared c = some id)
    (heuristic : id.Heuristic)
    (origins : ∀ d, c.declared = some d → d.source = .argoPath ∨ d.source = .fluxSource) :
    c.declared = none ∧ id.confidence = .medium := by
  cases declared : c.declared with
  | some d =>
    have source : id.source = d.source := by
      unfold memberIdentity at made
      rw [declared] at made
      rw [← Option.some.inj made]
    rcases origins d declared with argo | flux
    · rw [Identity.Heuristic, source, argo] at heuristic
      exact absurd heuristic (by decide)
    · rw [Identity.Heuristic, source, flux] at heuristic
      exact absurd heuristic (by decide)
  | none =>
    rcases member_identity_undeclared stem shared declared with
      ⟨same, tagged, _, medium⟩ | ⟨untagged, _⟩
    · rw [Option.some.inj (made.symm.trans tagged)]
      exact ⟨rfl, medium⟩
    · exact absurd (made.symm.trans untagged) (by simp)

theorem mem_grouped {row : Nat} : (row, id) ∈ grouped cands ↔ ∃ stem members shared,
      formGroup (byStem cands stem) = some (members, shared) ∧
        ∃ c ∈ members, c.row = row ∧ memberIdentity stem shared c = some id := by
  rw [grouped, mem_flatMap]
  constructor
  · rintro ⟨stem, _, member⟩
    cases formed : formGroup (byStem cands stem) with
    | none =>
      rw [formed] at member
      exact absurd member not_mem_nil
    | some group =>
      rw [formed] at member
      obtain ⟨c, held, tagged⟩ := mem_filterMap.mp member
      obtain ⟨given, made, same⟩ := Option.map_eq_some_iff.mp tagged
      obtain ⟨rfl, rfl⟩ := Prod.mk.inj same
      exact ⟨stem, group.1, group.2, formed, c, held, rfl, made⟩
  · rintro ⟨stem, members, shared, formed, c, held, rfl, made⟩
    have inGroup := mem_by_stem.mp (form_group_inside formed held)
    refine ⟨stem, mem_dedup.mpr (mem_map.mpr ⟨c, inGroup⟩), ?_⟩
    rw [formed]
    exact mem_filterMap.mpr ⟨c, held, by rw [made]; rfl⟩

end Members

section Lookup
variable {cands : List Candidate} {row : Nat} {id id' : Identity}

theorem grouped_alone (alone : ∀ a ∈ cands, ∀ b ∈ cands, a.row = b.row → a = b)
    (one : (row, id) ∈ grouped cands) (other : (row, id') ∈ grouped cands) : id = id' := by
  obtain ⟨stem, members, shared, formed, c, held, atRow, made⟩ := mem_grouped.mp one
  obtain ⟨stem', members', shared', formed', c', held', atRow', made'⟩ := mem_grouped.mp other
  obtain ⟨inside, ofStem⟩ := mem_by_stem.mp (form_group_inside formed held)
  obtain ⟨inside', ofStem'⟩ := mem_by_stem.mp (form_group_inside formed' held')
  obtain rfl := alone c inside c' inside' (atRow.trans atRow'.symm)
  obtain rfl := ofStem.symm.trans ofStem'
  obtain ⟨rfl, rfl⟩ := Prod.mk.inj (Option.some.inj (formed.symm.trans formed'))
  exact Option.some.inj (made.symm.trans made')

theorem lookup_grouped (alone : ∀ a ∈ cands, ∀ b ∈ cands, a.row = b.row → a = b) :
    (grouped cands).lookup row = some id ↔ (row, id) ∈ grouped cands := by
  have held : ∀ found, (grouped cands).lookup row = some found → (row, found) ∈ grouped cands := by
    intro found named
    obtain ⟨before, after, whole, _⟩ := lookup_eq_some_iff.mp named
    rw [whole]
    exact mem_append_right _ mem_cons_self
  constructor
  · exact held id
  · intro member
    cases named : (grouped cands).lookup row with
    | none =>
      have missing := lookup_eq_none_iff.mp named _ member
      exact absurd missing (by simp)
    | some found => rw [grouped_alone alone (held found named) member]

end Lookup

section Tiers
variable {casing : Casing} {qualifies : String → Bool} {feeds : Feeds} {info : RowInfo}
  {cur : Option Identity} {id : Identity}

theorem label_tier_heuristic (tagged : labelTier casing qualifies info cur = some id)
    (heuristic : id.Heuristic)
    (medium : ∀ id, cur = some id → id.Heuristic → id.confidence = .medium) :
    cur = some id ∧ info.nameLabel = "" := by
  unfold labelTier at tagged
  split at tagged
  next unnamed => exact ⟨tagged, unnamed⟩
  next =>
    split at tagged
    next high =>
      rw [tagged, Option.any_some, decide_eq_true_eq, medium id tagged heuristic] at high
      exact absurd high (by decide)
    next =>
      rw [← Option.some.inj tagged] at heuristic
      exact absurd heuristic (by simp [Identity.Heuristic])

theorem app_set_tier_heuristic (tagged : appSetTier casing qualifies feeds info cur = some id)
    (heuristic : id.Heuristic) : cur = some id ∧ fanout feeds info = none := by
  unfold appSetTier at tagged
  split at tagged
  next declared =>
    rw [tagged, Option.any_some, decide_eq_true_eq] at declared
    rcases heuristic with stem | space
    · simp [stem] at declared
    · simp [space] at declared
  next =>
    split at tagged
    next outside => exact ⟨tagged, outside⟩
    next =>
      rw [← Option.some.inj tagged] at heuristic
      exact absurd heuristic (by simp [Identity.Heuristic])

theorem explicit_tier_heuristic (tagged : explicitTier casing qualifies info cur = some id)
    (heuristic : id.Heuristic) : cur = some id ∧ info.appAnno = "" := by
  unfold explicitTier at tagged
  split at tagged
  next unnamed => exact ⟨tagged, unnamed⟩
  next =>
    rw [← Option.some.inj tagged] at heuristic
    exact absurd heuristic (by simp [Identity.Heuristic])

/-- A heuristic identity is what the groups gave, to a row that no later tier retags. -/
theorem tiers_keep_heuristic (medium : ∀ id, cur = some id → id.Heuristic → id.confidence = .medium)
    (heuristic : id.Heuristic) :
    explicitTier casing qualifies info
        (appSetTier casing qualifies feeds info (labelTier casing qualifies info cur)) = some id ↔
      cur = some id ∧ ¬ Retagged feeds info := by
  constructor
  · intro tagged
    obtain ⟨beforeExplicit, unmarked⟩ := explicit_tier_heuristic tagged heuristic
    obtain ⟨beforeSet, outside⟩ := app_set_tier_heuristic beforeExplicit heuristic
    obtain ⟨formed, unnamed⟩ := label_tier_heuristic beforeSet heuristic medium
    exact ⟨formed, by simp [Retagged, unmarked, outside, unnamed]⟩
  · rintro ⟨formed, kept⟩
    simp only [Retagged, not_or, not_not, Option.not_isSome_iff_eq_none] at kept
    obtain ⟨unnamed, outside, unmarked⟩ := kept
    simp [explicitTier, appSetTier, labelTier, unnamed, outside, unmarked, formed]

end Tiers

section Guard
variable {casing : Casing} {feeds : Feeds} {rows : List Row}

theorem tagged_heuristic_iff {row : Nat} {id : Identity} (heuristic : id.Heuristic) :
    (resolveAppIdentities casing feeds rows)[row]? = some (some id) ↔
      (row, id) ∈ grouped (candidates casing feeds rows) ∧
        ∃ info ∈ rowInfos casing feeds rows, info.row = row ∧ ¬ Retagged feeds info := by
  have alone : ∀ a ∈ candidates casing feeds rows, ∀ b ∈ candidates casing feeds rows,
      a.row = b.row → a = b := fun a one b other => candidates_alone one other
  have medium : ∀ given, (grouped (candidates casing feeds rows)).lookup row = some given →
      given.Heuristic → given.confidence = .medium := by
    intro given formed guess
    obtain ⟨stem, members, shared, group, c, held, _, made⟩ :=
      mem_grouped.mp ((lookup_grouped alone).mp formed)
    have member := (mem_by_stem.mp (form_group_inside group held)).1
    exact (member_identity_heuristic made guess fun _ => candidate_declared member).2
  unfold resolveAppIdentities
  rw [getElem?_map, Option.map_eq_some_iff]
  constructor
  · rintro ⟨info, held, tagged⟩
    obtain ⟨member, rfl⟩ := mem_row_infos.mp held
    obtain ⟨formed, kept⟩ := (tiers_keep_heuristic medium heuristic).mp tagged
    exact ⟨(lookup_grouped alone).mp formed, info, member, rfl, kept⟩
  · rintro ⟨formed, info, member, rfl, kept⟩
    refine ⟨info, mem_row_infos.mpr ⟨member, rfl⟩, ?_⟩
    exact (tiers_keep_heuristic medium heuristic).mpr ⟨(lookup_grouped alone).mpr formed, kept⟩

/-- A repository that the members share makes every one of them a partner of another. -/
theorem Proven.has_partner {cands members : List Candidate} {shared : String}
    (proven : Proven cands members shared)
    (alone : ∀ a ∈ cands, ∀ b ∈ cands, a.row = b.row → a = b) (member : c ∈ members) :
    HasPartner members c := by
  obtain ⟨other, held, different⟩ := proven.spread c.env
  refine ⟨other, held, ?_, different, shared, proven.common c member, proven.common other held⟩
  intro same
  rw [alone other (proven.inside held) c (proven.inside member) same] at different
  exact different rfl

/-- The heuristic identities have a shared repository behind them exactly where the groups that only
a declared path holds together have one for their unchecked members. -/
theorem identities_grounded_iff (casing : Casing) (feeds : Feeds) (rows : List Row) :
    GuardHolds casing feeds rows ↔ ∀ stem, Unshared (byStem (candidates casing feeds rows) stem) →
        ∀ c ∈ core (byStem (candidates casing feeds rows) stem),
          Unchecked feeds (rowInfos casing feeds rows) c →
            HasPartner (core (byStem (candidates casing feeds rows) stem)) c := by
  constructor
  · intro guarded stem unshared c member unchecked
    have formed := form_group_unshared unshared
    rcases member_identity_undeclared stem "" unchecked.undeclared with
      ⟨id, made, heuristic, _⟩ | ⟨_, unlabelled, early, _⟩
    · obtain ⟨inside, _⟩ := mem_by_stem.mp (core_inside member)
      obtain ⟨info, held, atRow⟩ := candidate_info inside
      have tagged := (tagged_heuristic_iff heuristic).mpr
        ⟨mem_grouped.mpr ⟨stem, _, _, formed, c, member, rfl, made⟩,
          info, held, atRow, unchecked.kept info held atRow⟩
      obtain ⟨members, shared, group, other, inGroup, same, _, partner⟩ := guarded c.row id tagged heuristic
      rw [(member_identity_key made).1, formed] at group
      obtain ⟨rfl, rfl⟩ := Prod.mk.inj (Option.some.inj group)
      have otherInside := (mem_by_stem.mp (core_inside inGroup)).1
      rwa [candidates_alone otherInside inside same] at partner
    · rcases unchecked.tagged with labelled | spaced
      · exact absurd unlabelled labelled
      · exact absurd early (Nat.not_lt.mpr spaced)
  · intro paired row id tagged heuristic
    obtain ⟨formed, info, held, atRow, kept⟩ := (tagged_heuristic_iff heuristic).mp tagged
    obtain ⟨stem, members, shared, group, c, member, sameRow, made⟩ := mem_grouped.mp formed
    obtain ⟨sameKey, sameEnv⟩ := member_identity_key made
    have inside := (mem_by_stem.mp (form_group_inside group member)).1
    obtain rfl := sameKey
    refine ⟨members, shared, group, c, member, sameRow, sameEnv.symm, ?_⟩
    rcases form_group_cases group with ⟨_, proof, proven, rfl⟩ | ⟨rfl, unshared, rfl⟩
    · apply proven.adopt.has_partner _ member
      intro a one b other same
      exact candidates_alone (mem_by_stem.mp one).1 (mem_by_stem.mp other).1 same
    · have undeclared := (member_identity_heuristic made heuristic fun _ => candidate_declared inside).1
      refine paired id.key unshared c member
        ⟨undeclared, member_identity_unshared undeclared made, ?_⟩
      intro other otherHeld otherRow
      rwa [row_infos_alone otherHeld held (otherRow.trans (sameRow.trans atRow.symm))]

/-- An Application with a declared path, and a workload of another image in an environment's
namespace. -/
def billingRows : List Row :=
  [⟨"argocd/Application/billing-prod", "billing-prod", "billing", ["billing"], 3,
      [⟨"repo.dev/team-a/billing:1", "", "", ""⟩]⟩,
    ⟨"staging/Deployment/billing", "billing", "staging", ["staging"], 0,
      [⟨"repo.dev/team-b/other:1", "", "", ""⟩]⟩]

def billingFeeds : Feeds where
  argoSourcePaths key := if key = "argocd/billing-prod" then some "billing/overlays/prod" else none
  appSetByKey _ := none
  nsEnvLabels _ := ""
  fluxPaths _ := none

def billingGroup : List Candidate :=
  byStem (candidates Neighborhood.asciiCasing billingFeeds billingRows) "billing"

/-- The workload's evidence names a shared repository, and there is none. -/
theorem billing_ungrounded : ¬ GuardHolds Neighborhood.asciiCasing billingFeeds billingRows := by
  intro guarded
  have tagged : (resolveAppIdentities Neighborhood.asciiCasing billingFeeds billingRows)[1]? =
      some (some ⟨"billing", "staging", .medium, "namespace stem \"billing\" + shared image repo ",
        false, .namespace_, ""⟩) := by
    decide +kernel
  obtain ⟨members, shared, formed, c, held, _, _, partner⟩ := guarded 1 _ tagged (Or.inr rfl)
  have whole : formGroup billingGroup = some (billingGroup, "") := by decide +kernel
  obtain ⟨rfl, rfl⟩ := Prod.mk.inj (Option.some.inj (whole.symm.trans formed))
  have alone : ∀ member ∈ billingGroup, ¬ HasPartner billingGroup member := by decide +kernel
  exact alone c held partner

end Guard

end AppIdentity
