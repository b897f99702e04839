import Radar.Topology.NodeRef

/- internal/search/score.go: what a query asks of an object, and how well it fits. -/
namespace Search
open GoText NodeRef

structure LabelEq where
  key : String
  value : String
  deriving DecidableEq

structure Query where
  tokens : List String
  kindFilter : List String
  nsFilter : List String
  labelFilter : List LabelEq
  imageFilter : List String
  deriving DecidableEq

structure ContentField where
  path : String
  value : String
  deriving DecidableEq

/-- The maps of labels and annotations in the order in which they are visited. -/
structure Candidate where
  kind : String
  group : String
  namespace_ : String
  name : String
  labels : List (String × String)
  annotations : List (String × String)
  images : List String
  content : List ContentField
  deriving DecidableEq

structure MatchedField where
  token : String
  site : String
  score : Nat
  deriving DecidableEq

section Weights

def scoreNameExact : Nat := 100
def scoreNamePrefix : Nat := 60
def scoreNameSubstr : Nat := 40
def scoreNSExact : Nat := 30
def scoreNSSubstr : Nat := 20
def scoreLabelValExact : Nat := 25
def scoreLabelValSubstr : Nat := 18
def scoreAnnoSubstr : Nat := 15
def scoreImageSubstr : Nat := 20
def scoreContentExact : Nat := 16
def scoreContentSubstr : Nat := 12
def scoreKindExact : Nat := 10
def scoreKindSubstr : Nat := 5

end Weights

section Matching
variable (casing : Casing)

def kindMatches (kind : String) (filters : List String) : Bool := let low := casing.toLower kind
  let plural := low ++ "s"
  filters.any fun f => let fLow := casing.toLower f
    fLow == low || fLow == plural || fLow ++ "s" == plural || fLow == trimSuffix 's' low

def sliceContainsFold (haystack : List String) (needle : String) : Bool :=
  haystack.any fun h => casing.equalFold h needle

def anyContainsFold (haystack : List String) (needle : String) : Bool :=
  haystack.any fun h => contains (casing.toLower h) (casing.toLower needle)

/-- What one text adds for being a token, or for holding it. -/
def site (low text name : String) (exact_ substr : Nat) : List (Nat × String) := if text = "" then []
  else if casing.toLower text = low then [(exact_, name)]
  else if contains (casing.toLower text) low then [(substr, name)]
  else []

def nameSite (low : String) (c : Candidate) : List (Nat × String) := if c.name = "" then []
  else if casing.toLower c.name = low then [(scoreNameExact, "name")]
  else if hasPrefix (casing.toLower c.name) low then [(scoreNamePrefix, "name")]
  else if contains (casing.toLower c.name) low then [(scoreNameSubstr, "name")]
  else []

/-- An empty label value is compared like any other, unlike an empty name. -/
def labelSite (low : String) (pair : String × String) : List (Nat × String) :=
  if casing.toLower pair.2 = low then [(scoreLabelValExact, "label:" ++ pair.1)]
  else if contains (casing.toLower pair.2) low then [(scoreLabelValSubstr, "label:" ++ pair.1)]
  else []

def sites (low : String) (c : Candidate) : List (Nat × String) := nameSite casing low c ++
  site casing low c.namespace_ "namespace" scoreNSExact scoreNSSubstr ++
  c.labels.flatMap (labelSite casing low) ++
  (c.annotations.filter fun pair => contains (casing.toLower pair.2) low).map (fun pair =>
    (scoreAnnoSubstr, "annotation:" ++ pair.1)) ++
  (c.images.filter fun image => contains (casing.toLower image) low).map (fun _ =>
    (scoreImageSubstr, "image")) ++
  c.content.flatMap (fun field =>
    site casing low field.value ("content:" ++ field.path) scoreContentExact scoreContentSubstr) ++
  site casing low c.kind "kind" scoreKindExact scoreKindSubstr

/-- The first of the best sites, if any. -/
def scoreToken (tok : String) (c : Candidate) : Option (Nat × String) :=
  let best := (sites casing (casing.toLower tok) c).foldl
    (fun best found => if best.1 < found.1 then found else best) (0, "")
  if best.1 = 0 then none else some best

def passesFilters (q : Query) (c : Candidate) : Bool :=
  (q.kindFilter.isEmpty || kindMatches casing c.kind q.kindFilter) &&
  (q.nsFilter.isEmpty || sliceContainsFold casing q.nsFilter c.namespace_) &&
  (q.labelFilter.all fun lf => (c.labels.lookup lf.key).any fun v => lf.value == "" || v == lf.value) &&
  q.imageFilter.all (anyContainsFold casing c.images)

def scoreTokens : List String → Candidate → Option (List MatchedField)
  | [], _ => some []
  | tok :: rest, c =>
    (scoreToken casing tok c).bind fun best =>
      (scoreTokens rest c).map fun matched => ⟨tok, best.2, best.1⟩ :: matched

/-- Every token has to land somewhere; without tokens a candidate gets a flat score. -/
def match_ (q : Query) (c : Candidate) : Option (Nat × List MatchedField) :=
  if !passesFilters casing q c then none
  else if q.tokens.isEmpty then some (1, [])
  else
    (scoreTokens casing q.tokens c).map fun matched =>
      (matched.foldl (fun total field => total + field.score) 0, matched)

end Matching
end Search
