import Radar.Base.Firsts
import Radar.Server.StreamRun

/- The lists that handleSSE subscribes clients with, which broadcasts tell apart by their names
   joined with commas. -/
namespace EventStream
open GoText NamespaceScope List
variable {listed : List String}

/-- A namespace's name, as the API server admits it. -/
structure ProperName (name : String) : Prop where
  named : name ≠ ""
  commaless : ',' ∉ name.toList
  trimmed : trimSpace name = name

/-- Some names, none of them empty or with a comma. -/
structure PlainList (listed : List String) : Prop where
  some_ : listed ≠ []
  names : ∀ name ∈ listed, name ≠ "" ∧ ',' ∉ name.toList

def PlainScope (namespaces : Option (List String)) : Prop :=
  ∀ listed, namespaces = some listed → PlainList listed

theorem plain_pieces (plain : PlainList listed) :
    ∀ piece ∈ listed.map String.toList, piece ≠ [] ∧ ',' ∉ piece := by
  intro piece member
  obtain ⟨name, own, rfl⟩ := mem_map.mp member
  exact ⟨by simpa using (plain.names name own).1, (plain.names name own).2⟩

/-- Only the nil list and an empty one, or names with commas, share a key. -/
theorem plain_keys_apart {info info' : ClientInfo} (plain : PlainScope info.namespaces)
    (plain' : PlainScope info'.namespaces) (same : info.key = info'.key) :
    info.namespaces = info'.namespaces := by
  have joined : join ',' ((info.namespaces.getD []).map String.toList) =
      join ',' ((info'.namespaces.getD []).map String.toList) := congrArg Prod.fst same
  cases own : info.namespaces with
  | none =>
    cases own' : info'.namespaces with
    | none => rfl
    | some listed' =>
      rw [own, own'] at joined
      have empty := join_empty (plain_pieces (plain' listed' own')) joined.symm
      exact absurd (map_eq_nil_iff.mp empty) (plain' listed' own').some_
  | some listed =>
    cases own' : info'.namespaces with
    | none =>
      rw [own, own'] at joined
      have empty := join_empty (plain_pieces (plain listed own)) joined
      exact absurd (map_eq_nil_iff.mp empty) (plain listed own).some_
    | some listed' =>
      rw [own, own'] at joined
      have pieces := join_pieces_inj (plain_pieces (plain listed own))
        (plain_pieces (plain' listed' own')) joined
      rw [(map_injective_iff.mpr fun s t => String.toList_inj.mp) pieces]

theorem dedupe_firsts (values kept : List String) :
    values.foldl (fun out v => if out.contains v then out else out ++ [v]) kept =
      Firsts.firsts id kept values := by
  induction values generalizing kept with
  | nil => rfl
  | cons v rest ih =>
    rw [foldl_cons, Firsts.firsts, ih]
    by_cases seen : v ∈ kept
    · simp [seen]
    · simp [seen]

theorem mem_dedupe {values : List String} {v : String} : v ∈ dedupeStrings values ↔ v ∈ values := by
  rw [dedupeStrings, dedupe_firsts, Firsts.firsts_id_iff]

/-- The filter that a request asks for names each namespace once. -/
theorem parsed_once (query : Values) : ((parseNamespaces query).getD []).Nodup := by
  unfold parseNamespaces
  split
  · have start : (([] : List String).map id).Nodup := nodup_nil
    have distinct := Firsts.firsts_nodup start
      (((split ',' (query.get "namespaces")).map trimSpace).filter fun p => p ≠ "")
    rw [map_id] at distinct
    rw [Option.getD_some, dedupeStrings, dedupe_firsts]
    exact distinct
  · split
    · exact nodup_singleton _
    · exact nodup_nil

theorem plain_of_proper (some_ : listed ≠ [])
    (proper : ∀ name ∈ listed, ProperName name) : PlainList listed where
  some_ := some_
  names := fun name own => ⟨(proper name own).named, (proper name own).commaless⟩

theorem plain_congr {given listed : List String} (same : ∀ name, name ∈ given ↔ name ∈ listed)
    (plain : PlainList given) : PlainList listed where
  some_ := by
    obtain ⟨name, member⟩ := exists_mem_of_ne_nil given plain.some_
    exact ne_nil_of_mem ((same name).mp member)
  names := fun name member => plain.names name ((same name).mpr member)

theorem split_names (some_ : listed ≠ []) (proper : ∀ name ∈ listed, ProperName name) :
    split ',' (String.ofList (join ',' (listed.map String.toList))) = listed := by
  have pieces : ∀ piece ∈ listed.map String.toList, ',' ∉ piece := by
    intro piece member
    obtain ⟨name, own, rfl⟩ := mem_map.mp member
    exact (proper name own).commaless
  rw [split, String.toList_ofList, split_join (by simpa using some_), whole_pieces pieces, map_map]
  exact map_id'' (fun name => String.ofList_toList) listed

/-- What the user may see is what the stream is opened for; no access is a namespace of a name
that none has. -/
theorem stream_namespaces_eq (proper : ∀ name ∈ listed, ProperName name) : streamNamespaces (some listed) =
      some (if listed = [] then ["__no_access__"] else dedupeStrings listed) := by
  by_cases none : listed = []
  · subst none
    rfl
  · have asked : String.ofList (join ',' (listed.map String.toList)) ≠ "" := by
      intro blank
      have empty : join ',' (listed.map String.toList) = [] := by
        simpa using congrArg String.toList blank
      have lost := join_empty (plain_pieces (plain_of_proper none proper)) empty
      exact none (map_eq_nil_iff.mp lost)
    have trimmed : listed.map trimSpace = listed :=
      (map_congr_left fun name own => (proper name own).trimmed).trans (map_id listed)
    have named : listed.filter (fun name => decide (name ≠ "")) = listed :=
      filter_eq_self.mpr fun name own => decide_eq_true (proper name own).named
    have get : Values.get (fun key => if key ≠ "namespaces" then []
        else if listed.length = 0 then ["__no_access__"]
        else [String.ofList (join ',' (listed.map String.toList))]) "namespaces" =
        String.ofList (join ',' (listed.map String.toList)) := by
      simp [Values.get, none]
    simp only [streamNamespaces, parseNamespaces]
    rw [get, if_pos asked, split_names none proper, trimmed, named, if_neg none]

theorem stream_namespaces_plain {namespaces : Option (List String)}
    (proper : ∀ listed, namespaces = some listed → ∀ name ∈ listed, ProperName name) :
    PlainScope (sortNamespaces (streamNamespaces namespaces)) := by
  intro listed own
  cases given : namespaces with
  | none =>
    subst given
    cases own
  | some names =>
    have names_proper := proper names given
    rw [given, stream_namespaces_eq names_proper] at own
    obtain ⟨opened, same, members⟩ := sorted_names own
    obtain rfl := Option.some.inj same
    refine plain_congr members ?_
    split
    next => exact ⟨by decide, by decide⟩
    next some_ => exact plain_congr (fun name => mem_dedupe.symm) (plain_of_proper some_ names_proper)

section Handled
variable {Object : Type} {build : Build Object} {b t : SSEBroadcaster Object}

/-- Discreet, where the lists subscribed with are those handleSSE makes of proper names. -/
def Handled (build : Build Object) (b : SSEBroadcaster Object) : Step Object → Prop
  | .subscribe namespaces viewMode showPolicyEffect status =>
    (∃ visible, namespaces = streamNamespaces visible ∧
      ∀ listed, visible = some listed → ∀ name ∈ listed, ProperName name) ∧
    Discreet build b (.subscribe namespaces viewMode showPolicyEffect status)
  | .grouped _ => True
  | a => Discreet build b a

def Plain (b : SSEBroadcaster Object) : Prop := ∀ c ∈ b.clients, PlainScope c.2.namespaces

/-- A client is connected already or by this step. -/
theorem step_clients {a : Step Object}
    (first : step build b a = some t) : ∀ c ∈ t.clients, c ∈ b.clients ∨
      ∃ namespaces viewMode showPolicyEffect status,
        a = .subscribe namespaces viewMode showPolicyEffect status ∧
        c.2.namespaces = sortNamespaces namespaces := by
  intro c member
  cases a with
  | subscribe namespaces viewMode showPolicyEffect status =>
    obtain rfl := Option.some.inj first
    rw [SSEBroadcaster.subscribe] at member
    split at member
    next => exact .inl member
    next =>
      rcases mem_append.mp member with old | new
      · exact .inl old
      · obtain rfl := mem_singleton.mp new
        exact .inr ⟨namespaces, viewMode, showPolicyEffect, status, rfl, rfl⟩
  | unsubscribe channel =>
    obtain rfl := Option.some.inj first
    exact .inl (mem_filter.mp member).1
  | watched change =>
    obtain rfl := Option.some.inj first
    split at member
    next => exact .inl member
    next => exact .inl member
  | grouped => exact .inl (grouped_clients first ▸ member)
  | sent position =>
    obtain ⟨group, _, rfl⟩ := Option.map_eq_some_iff.mp first
    exact .inl ((send_group_clients _ _ group).1 ▸ member)
  | stored | switched | notified | delivered =>
    obtain rfl := Option.some.inj first
    exact .inl member

theorem plain_step {a : Step Object} (plain : Plain b)
    (handled : Handled build b a) (first : step build b a = some t) : Plain t := by
  intro c member
  rcases step_clients first c member with old | ⟨namespaces, _, _, _, rfl, own⟩
  · exact plain c old
  · obtain ⟨⟨visible, rfl, proper⟩, _⟩ := handled
    rw [own]
    exact stream_namespaces_plain proper

/-- Behind handleSSE, no two lists are grouped together: the groups need no condition. -/
theorem handled_discreet {steps : List (Step Object)}
    (handled : Runs.Guarded (step build) (Handled build) initial steps) :
    Runs.Guarded (step build) (Discreet build) initial steps := by
  refine Runs.guarded_strengthen Plain (fun _ _ _ => plain_step) ?_ (fun _ => nofun) handled
  intro b a plain handled
  cases a with
  | subscribe => exact handled.2
  | grouped order =>
    intro c member c' member' same listed own
    rw [← plain_keys_apart (plain c member) (plain c' member') same]
    exact own
  | _ => exact handled

/-- A stream for whoever may see "shop". -/
theorem shop_discreet : Runs.Guarded (step podBuild) (Discreet podBuild) initial
    [.subscribe (streamNamespaces (some ["shop"])) "resources" false ⟨true, "connected"⟩, .grouped []] := by
  refine handled_discreet ⟨⟨⟨_, rfl, ?_⟩, nofun⟩, fun t _ => ⟨trivial, fun _ _ => trivial⟩⟩
  rintro listed ⟨rfl⟩ name member
  obtain rfl := mem_singleton.mp member
  exact ⟨by decide, by decide, by decide +kernel⟩

end Handled

end EventStream
