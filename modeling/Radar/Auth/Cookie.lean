import Radar.Auth.Permissions
import Radar.Base.GoText

/- pkg/auth/cookie.go: signed session cookies. Expiries in a payload are whole Unix seconds;
   every other instant and duration is in nanoseconds. -/
namespace SessionCookie
open Permissions GoText

structure CookiePayload where
  username : String
  groups : List String
  expiresAt : Int
  idToken : String
  sid : String
  deriving DecidableEq, Repr

/-- encoding/json and base64 on a payload, and the keyed HMAC: an encoded payload decodes to
    itself and holds no dot. -/
structure Codec where
  encode : CookiePayload → String
  decode : String → Option CookiePayload
  signData : String → String → String
  decode_encode : ∀ p, decode (encode p) = some p
  undotted : ∀ p, '.' ∉ (encode p).toList

/-- What NewSessionID and a non-empty `sid` claim provide; CreateSessionCookie panics on less. -/
structure SessionID where
  text : String
  nonempty : text ≠ ""

structure Session where
  user : User
  sid : String
  idToken : String
  expiresAt : Int

structure Cookie where
  name : String
  value : String
  path : String
  httpOnly : Bool
  secure : Bool
  sameSiteLax : Bool
  maxAge : Int

def defaultCookieName : String := "radar_session"

def maxCookieSize : Nat := 3800

def second : Int := 1000000000

/-- time.Time.Unix: whole seconds, rounded down. -/
def unix (t : Int) : Int := t / second

section Codec
variable (codec : Codec)

def buildCookieValue (p : CookiePayload) (secret : String) : String :=
  codec.encode p ++ String.ofList ['.'] ++ codec.signData (codec.encode p) secret

def createSessionCookie (user : User) (sid : SessionID) (idToken secret : String) (ttl : Int)
    (secure : Bool) (now : Int) : Cookie :=
  let payload : CookiePayload := ⟨user.username, user.groups, unix (now + ttl), idToken, sid.text⟩
  let value := buildCookieValue codec payload secret
  -- An oversized cookie loses its ID token first.
  let value := if maxCookieSize < value.utf8ByteSize ∧ idToken ≠ ""
    then buildCookieValue codec { payload with idToken := "" } secret else value
  ⟨defaultCookieName, value, "/", true, secure, true, ttl.tdiv second⟩

def clearSessionCookie : Cookie := ⟨defaultCookieName, "", "/", true, false, false, -1⟩

def parseSessionCookie (cookie : Option String) (secret : String) (now : Int) : Option Session :=
  match cookie with
  | none => none
  | some value =>
    match cut '.' value with
    | none => none
    | some (encoded, sig) =>
      if sig ≠ codec.signData encoded secret then none
      else match codec.decode encoded with
        | none => none
        | some p =>
          if p.expiresAt < unix now then none
          else some ⟨⟨p.username, p.groups⟩, p.sid, p.idToken, p.expiresAt * second⟩

/-- The payload a cookie value carries, whether or not its signature is good. -/
def payloadOf (value : String) : Option CookiePayload :=
  (cut '.' value).bind fun parts => codec.decode parts.1

theorem payload_of_build (p : CookiePayload) (secret : String) :
    payloadOf codec (buildCookieValue codec p secret) = some p := by
  simp only [payloadOf, buildCookieValue, cut_append (codec.undotted p), Option.bind_some]
  exact codec.decode_encode p

theorem payload_of_clear : payloadOf codec clearSessionCookie.value = none := rfl

theorem payload_of_create (user : User) (sid : SessionID) (idToken secret : String) (ttl : Int)
    (secure : Bool) (now : Int) :
    ∃ p, payloadOf codec (createSessionCookie codec user sid idToken secret ttl secure now).value =
        some p ∧ p.sid = sid.text ∧ p.expiresAt = unix (now + ttl) := by
  simp only [createSessionCookie]
  split
  · exact ⟨_, payload_of_build codec _ secret, rfl, rfl⟩
  · exact ⟨_, payload_of_build codec _ secret, rfl, rfl⟩

theorem parse_some {value secret : String} {now : Int} {session : Session}
    (parsed : parseSessionCookie codec (some value) secret now = some session) :
    ∃ p, payloadOf codec value = some p ∧ session.sid = p.sid ∧
      session.expiresAt = p.expiresAt * second ∧ unix now ≤ p.expiresAt := by
  simp only [parseSessionCookie] at parsed
  split at parsed
  · contradiction
  · rename_i encoded sig parts
    split at parsed
    · contradiction
    · split at parsed
      · contradiction
      · rename_i p decoded
        split at parsed
        · contradiction
        · rename_i unexpired
          simp only [Option.some.injEq] at parsed
          subst parsed
          exact ⟨p, by simp [payloadOf, parts, decoded], rfl, rfl, by omega⟩

/-- A cookie the process built parses to its own payload until its expiry second has passed. -/
theorem parse_build (p : CookiePayload) (secret : String) {now : Int}
    (live : unix now ≤ p.expiresAt) :
    parseSessionCookie codec (some (buildCookieValue codec p secret)) secret now =
      some ⟨⟨p.username, p.groups⟩, p.sid, p.idToken, p.expiresAt * second⟩ := by
  have unexpired : ¬ p.expiresAt < unix now := by omega
  simp [parseSessionCookie, buildCookieValue, cut_append (codec.undotted p), codec.decode_encode, unexpired]

end Codec

/- A codec with the two laws: pieces of text, each character two characters wide. -/
section PlainCodec

def escape (c : Char) : List Char := if c = '.' then ['\\', 'd'] else ['_', c]

def encodePieces (pieces : List (List Char)) : List Char :=
  pieces.flatMap fun piece => piece.flatMap escape ++ [',', ',']

def decodePieces : List Char → List Char → Option (List (List Char))
  | [], [] => some []
  | '_' :: c :: rest, piece => decodePieces rest (piece ++ [c])
  | '\\' :: _ :: rest, piece => decodePieces rest (piece ++ ['.'])
  | ',' :: _ :: rest, piece => (decodePieces rest []).map fun pieces => piece :: pieces
  | _, _ => none

theorem decode_escaped (text rest piece : List Char) :
    decodePieces (text.flatMap escape ++ rest) piece = decodePieces rest (piece ++ text) := by
  induction text generalizing piece with
  | nil => simp
  | cons c text ih =>
    by_cases dot : c = '.'
    · simp [escape, dot, decodePieces, ih]
    · simp [escape, dot, decodePieces, ih]

theorem decode_pieces (pieces : List (List Char)) :
    decodePieces (encodePieces pieces) [] = some pieces := by
  induction pieces with
  | nil => rfl
  | cons piece rest ih =>
    have head : encodePieces (piece :: rest) =
        piece.flatMap escape ++ (',' :: ',' :: encodePieces rest) := by
      simp [encodePieces]
    rw [head, decode_escaped]
    simp [decodePieces, ih]

theorem undotted_pieces (pieces : List (List Char)) : '.' ∉ encodePieces pieces := by
  intro dotted
  simp only [encodePieces, List.mem_flatMap, List.mem_append] at dotted
  obtain ⟨piece, _, ⟨c, _, inside⟩ | ends⟩ := dotted
  · by_cases dot : c = '.'
    · simp [escape, dot] at inside
    · simp [escape, dot] at inside
      exact dot inside.symm
  · simp at ends

def tally : Int → List Char
  | .ofNat n => List.replicate n '1'
  | .negSucc n => '-' :: List.replicate n '1'

def untally : List Char → Int
  | '-' :: ones => .negSucc ones.length
  | ones => .ofNat ones.length

theorem untally_tally (e : Int) : untally (tally e) = e := by
  cases e with
  | ofNat n => cases n <;> simp [tally, untally, List.replicate_succ]
  | negSucc n => simp [tally, untally]

def payloadPieces (p : CookiePayload) : List (List Char) :=
  [p.username.toList, tally p.expiresAt, p.idToken.toList, p.sid.toList] ++ p.groups.map String.toList

def piecesPayload : List (List Char) → Option CookiePayload
  | username :: expiresAt :: idToken :: sid :: groups =>
    some ⟨String.ofList username, groups.map String.ofList, untally expiresAt,
      String.ofList idToken, String.ofList sid⟩
  | _ => none

theorem pieces_payload (p : CookiePayload) : piecesPayload (payloadPieces p) = some p := by
  simp [piecesPayload, payloadPieces, Function.comp_def, untally_tally]

def plainCodec : Codec where
  encode p := String.ofList (encodePieces (payloadPieces p))
  decode encoded := (decodePieces encoded.toList []).bind piecesPayload
  signData encoded secret := secret ++ encoded
  decode_encode p := by simp [decode_pieces, pieces_payload]
  undotted p := by simpa using undotted_pieces (payloadPieces p)

end PlainCodec

theorem unix_mono {s t : Int} (le : s ≤ t) : unix s ≤ unix t := Int.ediv_le_ediv (by decide) le

end SessionCookie
