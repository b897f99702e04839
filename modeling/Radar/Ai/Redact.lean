import Radar.Base.GoText

/- RedactSecrets of pkg/ai/context: what looks like a key, a token or a password in a text is
   written over. -/
namespace Redact

/-- How far a pattern matches from the start of a text, `none` where it does not. -/
abbrev Pattern := List Char → Option Nat

def letterOrDigit (c : Char) : Bool := ('A' ≤ c && c ≤ 'Z') || ('a' ≤ c && c ≤ 'z') || ('0' ≤ c && c ≤ '9')

/-- The \s of a regular expression. -/
def blank (c : Char) : Bool := c ∈ ['\t', '\n', '\x0c', '\r', ' ']

def runOf (inClass : Char → Bool) (text : List Char) : Nat := (text.takeWhile inClass).length

/-- A fixed start and at least so many characters of a class, as many as there are. -/
def startThenRun (start : String) (inClass : Char → Bool) (least : Nat) : Pattern := fun text =>
  let run := runOf inClass (text.drop start.toList.length)
  if start.toList.isPrefixOf text && least ≤ run then some (start.toList.length + run) else none

/-- A fixed start and exactly so many characters of a class. -/
def startThenExactly (start : String) (inClass : Char → Bool) (count : Nat) : Pattern := fun text =>
  if start.toList.isPrefixOf text && count ≤ runOf inClass (text.drop start.toList.length) then
    some (start.toList.length + count)
  else none

def bearerToken : Pattern := fun text => let start := "Bearer".toList
  let gap := runOf blank (text.drop start.length)
  let run := runOf (fun c => letterOrDigit c || "-._~+/".toList.contains c)
    (text.drop (start.length + gap))
  if start.isPrefixOf text && 1 ≤ gap && 20 ≤ run then some (start.length + gap + run) else none

/-- A letter up to case, where the long s counts as an s. -/
def folds (letter c : Char) : Bool := c == letter || c == letter.toUpper || (letter == 's' && c == 'ſ')

def startsFolded (start text : List Char) : Bool := match start, text with
  | [], _ => true
  | _ :: _, [] => false
  | letter :: start, c :: text => folds letter c && startsFolded start text

def passwordValue : Pattern := fun text => let start := "password".toList
  match text.drop start.length with
  | [] => none
  | sign :: behind =>
    let gap := runOf blank behind
    let run := runOf (fun c => !blank c) (behind.drop gap)
    if startsFolded start text && (sign == '=' || sign == ':') && 8 ≤ run then
      some (start.length + 1 + gap + run)
    else none

def base64Block : Pattern := startThenRun "" (fun c => letterOrDigit c || "+/=".toList.contains c) 50

def upperOrDigit (c : Char) : Bool := ('A' ≤ c && c ≤ 'Z') || ('0' ≤ c && c ≤ '9')

def secretPatterns : List Pattern := [startThenRun "sk-" letterOrDigit 20,
   startThenExactly "ghp_" letterOrDigit 36,
   startThenExactly "gho_" letterOrDigit 36,
   startThenExactly "ghs_" letterOrDigit 36,
   startThenRun "github_pat_" (fun c => letterOrDigit c || c == '_') 22,
   startThenExactly "AKIA" upperOrDigit 16,
   bearerToken,
   passwordValue,
   base64Block]

/-- What a match is replaced by: a bearer token keeps its name, a password its key. -/
def redactMatch (found : List Char) : List Char :=
  if "Bearer ".toList.isPrefixOf found || "bearer ".toList.isPrefixOf found then
    found.take 7 ++ "[REDACTED]".toList
  else if "password".toList.isPrefixOf (found.map Char.toLower) &&
      found.any fun c => c == '=' || c == ':' then
    let key := found.takeWhile fun c => !(c == '=' || c == ':')
    found.take (key.length + 1) ++ " [REDACTED]".toList
  else "[REDACTED]".toList

/-- Every match from the left replaced; `skip` counts what is left of the match at hand. -/
def replaceAll (pattern : Pattern) : Nat → List Char → List Char
  | _, [] => []
  | skip + 1, _ :: rest => replaceAll pattern skip rest
  | 0, c :: rest =>
    match pattern (c :: rest) with
    | some (length + 1) => redactMatch ((c :: rest).take (length + 1)) ++ replaceAll pattern length rest
    | _ => c :: replaceAll pattern 0 rest

def redactSecrets (text : String) : String :=
  String.ofList (secretPatterns.foldl (fun result pattern => replaceAll pattern 0 result) text.toList)

end Redact
