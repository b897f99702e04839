import Mathlib.Data.List.Basic

/- Queries as their lexer reads them: what is outside of strings, character by character, and the strings with the texts they
   stand for. A query is written by fmt.Sprintf, from a format with as many verbs as there are arguments. Left out of the lexer are
   comments and the numeric escapes. -/
namespace QuotedText

section Lexer

inductive Token where
  | sign (c : Char)
  | string (value : List Char)

inductive Mode where
  | code
  | quoted (q : Char) (read : List Char)
  | escape (q : Char) (read : List Char)
  | raw (read : List Char)

/-- What a backslash and `c` stand for in a string between quotes `q`; a lenient lexer also takes the other quote. -/
def unescape (lenient : Bool) (q c : Char) : Option Char := if c = '\\' then some c
  else if c = '\'' ∨ c = '"' then if lenient = true ∨ c = q then some c else none
  else match c with
    | 'a' => some '\x07'
    | 'b' => some '\x08'
    | 'f' => some '\x0c'
    | 'n' => some '\n'
    | 'r' => some '\r'
    | 't' => some '\t'
    | 'v' => some '\x0b'
    | _ => none

variable (lenient : Bool)

def step (m : Mode) (c : Char) : Option (Mode × List Token) := match m with
  | .code =>
    if c = '\'' ∨ c = '"' then some (.quoted c [], [])
    else if c = '\x60' then some (.raw [], [])
    else some (.code, [.sign c])
  | .quoted q read =>
    if c = q then some (.code, [.string read])
    else if c = '\\' then some (.escape q read, [])
    else if c = '\n' then none
    else some (.quoted q (read ++ [c]), [])
  | .escape q read => (unescape lenient q c).map fun d => (.quoted q (read ++ [d]), [])
  | .raw read => if c = '\x60' then some (.code, [.string read]) else some (.raw (read ++ [c]), [])

def run (m : Mode) : List Char → Option (Mode × List Token)
  | [] => some (m, [])
  | c :: rest => (step lenient m c).bind fun x => (run x.1 rest).map fun y => (y.1, x.2 ++ y.2)

def lex (text : List Char) : Option (List Token) := match run lenient .code text with
  | some (.code, tokens) => some tokens
  | _ => none

theorem run_append (m : Mode) (first second : List Char) : run lenient m (first ++ second) =
      (run lenient m first).bind fun x => (run lenient x.1 second).map fun y => (y.1, x.2 ++ y.2) := by
  induction first generalizing m with
  | nil => simp [run]
  | cons c rest ih =>
    rw [List.cons_append, run, run, Option.bind_assoc]
    refine congrArg _ (funext fun x => ?_)
    rw [ih, Option.bind_map, Option.map_bind]
    refine congrArg _ (funext fun y => ?_)
    simp only [Function.comp_apply, Option.map_map, Function.comp_def, List.append_assoc]

end Lexer

section Formats

/-- fmt.Sprintf, each argument as its verb writes it. -/
def sprintf : List Char → List (List Char) → List Char
  | '%' :: _ :: rest, a :: args => a ++ sprintf rest args
  | c :: rest, args => c :: sprintf rest args
  | [], _ => []

/-- What is meant to stand at a verb: a part of the query itself, or the value of a string between single quotes. -/
inductive Slot where
  | part (text : List Char)
  | value (v : List Char)

variable (lenient : Bool)

def Slot.read : Slot → Mode → Option (Mode × List Token)
  | .part text, m => run lenient m text
  | .value v, .quoted '\'' w => some (.quoted '\'' (w ++ v), [])
  | .value _, _ => none

/-- The tokens of a format, with what is meant to stand at its verbs. -/
def expect : Mode → List Char → List Slot → Option (Mode × List Token)
  | m, '%' :: _ :: rest, s :: slots => (s.read lenient m).bind fun x => (expect x.1 rest slots).map fun y => (y.1, x.2 ++ y.2)
  | m, c :: rest, slots => (step lenient m c).bind fun x => (expect x.1 rest slots).map fun y => (y.1, x.2 ++ y.2)
  | m, [], [] => some (m, [])
  | _, [], _ :: _ => none

def intended (format : List Char) (slots : List Slot) : Option (List Token) :=
  match expect lenient .code format slots with
  | some (.code, tokens) => some tokens
  | _ => none

/-- A text that is read as its slot is meant. -/
def Fits (text : List Char) (s : Slot) : Prop := ∀ m x, s.read lenient m = some x → run lenient m text = some x

variable {lenient}

theorem run_sprintf {format : List Char} {texts : List (List Char)} {slots : List Slot}
    (fits : List.Forall₂ (Fits lenient) texts slots) {m : Mode} {x : Mode × List Token}
    (expected : expect lenient m format slots = some x) : run lenient m (sprintf format texts) = some x := by
  fun_induction expect lenient m format slots generalizing texts x with
  | case1 m verb rest s slots ih =>
    obtain ⟨text, texts, rfl⟩ : ∃ text more, texts = text :: more := by
      cases fits
      exact ⟨_, _, rfl⟩
    obtain ⟨fit, others⟩ := List.forall₂_cons.mp fits
    obtain ⟨y, read, later⟩ := Option.bind_eq_some_iff.mp expected
    obtain ⟨z, found, rfl⟩ := Option.map_eq_some_iff.mp later
    rw [sprintf, run_append, fit m y read, Option.bind_some, ih y others found, Option.map_some]
  | case2 m c rest slots other ih =>
    obtain ⟨y, read, later⟩ := Option.bind_eq_some_iff.mp expected
    obtain ⟨z, found, rfl⟩ := Option.map_eq_some_iff.mp later
    rw [sprintf.eq_2, run, read, Option.bind_some, ih y fits found, Option.map_some]
    intro verb after text more listed same equal
    subst listed
    cases slots with
    | nil => cases fits
    | cons s slots => exact other verb after s slots rfl same equal
  | case3 m =>
    cases fits
    exact expected
  | case4 => cases expected

end Formats

section Places

inductive Place where
  | code
  | quoted (q : Char)
  | escape (q : Char)
  | raw

def Mode.place : Mode → Place
  | .code => .code
  | .quoted q _ => .quoted q
  | .escape q _ => .escape q
  | .raw _ => .raw

/-- Where a lexer is does not depend on what it has read of a string. -/
theorem step_place (lenient : Bool) {m n : Mode} (same : m.place = n.place) (c : Char) :
    (step lenient m c).map (fun x => x.1.place) = (step lenient n c).map fun x => x.1.place := by
  cases m <;> cases n <;> cases same
  · rfl
  · simp only [step]
    split_ifs <;> rfl
  · simp only [step, Option.map_map]
    rfl
  · simp only [step]
    split_ifs <;> rfl

variable {lenient : Bool}

theorem run_place {m n : Mode} (same : m.place = n.place) {text : List Char} {x y : Mode × List Token}
    (first : run lenient m text = some x) (second : run lenient n text = some y) : x.1.place = y.1.place := by
  induction text generalizing m n x y with
  | nil =>
    cases first
    cases second
    exact same
  | cons c rest ih =>
    obtain ⟨u, read, later⟩ := Option.bind_eq_some_iff.mp first
    obtain ⟨v, found, after⟩ := Option.bind_eq_some_iff.mp second
    obtain ⟨w, run_, rfl⟩ := Option.map_eq_some_iff.mp later
    obtain ⟨z, ran, rfl⟩ := Option.map_eq_some_iff.mp after
    have place := step_place lenient same c
    rw [read, found] at place
    have settled : w.1.place = z.1.place := ih (Option.some.inj place) run_ ran
    exact settled

variable (lenient)

/-- A text that leaves the lexer where its slot does. -/
def Stays (text : List Char) (s : Slot) : Prop :=
  ∀ m n x y, s.read lenient m = some x → m.place = n.place → run lenient n text = some y → x.1.place = y.1.place

/-- A text that is read where its slot is. -/
def Reads (text : List Char) (s : Slot) : Prop :=
  ∃ m n x y, s.read lenient m = some x ∧ m.place = n.place ∧ run lenient n text = some y

variable {lenient}

theorem sprintf_reads {format : List Char} {texts : List (List Char)} {slots : List Slot}
    (stays : List.Forall₂ (Stays lenient) texts slots) {m n : Mode} (same : m.place = n.place) {x y : Mode × List Token}
    (expected : expect lenient m format slots = some x) (got : run lenient n (sprintf format texts) = some y) :
    List.Forall₂ (Reads lenient) texts slots := by
  fun_induction expect lenient m format slots generalizing n texts x y with
  | case1 m verb rest s slots ih =>
    obtain ⟨text, texts, rfl⟩ : ∃ text more, texts = text :: more := by
      cases stays
      exact ⟨_, _, rfl⟩
    obtain ⟨stay, others⟩ := List.forall₂_cons.mp stays
    obtain ⟨u, read, later⟩ := Option.bind_eq_some_iff.mp expected
    obtain ⟨w, found, -⟩ := Option.map_eq_some_iff.mp later
    rw [sprintf, run_append] at got
    obtain ⟨v, ran, after⟩ := Option.bind_eq_some_iff.mp got
    obtain ⟨z, finished, -⟩ := Option.map_eq_some_iff.mp after
    exact .cons ⟨m, n, u, v, read, same, ran⟩ (ih u others (stay m n u v read same ran) found finished)
  | case2 m c rest slots other ih =>
    have unread : sprintf (c :: rest) texts = c :: sprintf rest texts := by
      apply sprintf.eq_2
      intro verb after text more listed equal follows
      subst listed
      cases slots with
      | nil => cases stays
      | cons s slots => exact other verb after s slots rfl equal follows
    rw [unread] at got
    obtain ⟨u, read, later⟩ := Option.bind_eq_some_iff.mp expected
    obtain ⟨v, ran, after⟩ := Option.bind_eq_some_iff.mp got
    obtain ⟨w, found, -⟩ := Option.map_eq_some_iff.mp later
    obtain ⟨z, finished, -⟩ := Option.map_eq_some_iff.mp after
    have place := step_place lenient same c
    rw [read, ran] at place
    exact ih u stays (Option.some.inj place) found finished
  | case3 m =>
    cases stays
    exact .nil
  | case4 => cases expected

end Places

end QuotedText
