import BugQuery.Text.Escape

/-!
# Tokens of TOML documents

A document is a row of tokens; blanks and comments between them mean
nothing, line breaks do. Bare words are keys or the flags `true` and `false`:
settings are flags and texts, and numbers and dates are no settings.

Texts stand between quotes, or between tripled quotes if they run over
several lines. Between double quotes a backslash starts an escape, or joins
lines; between single ones everything stands for itself.
-/
namespace BugQuery.Toml

inductive Token where
  | newline
  | dot
  | equals
  | comma
  | openList
  | closeList
  | openTable
  | closeTable
  /-- letters, digits, `-` and `_` without quotes -/
  | bare (word : String)
  /-- a text on one line -/
  | text (s : String)
  /-- a text between tripled quotes -/
  | longText (s : String)
  deriving DecidableEq, Repr

def isSpace (c : Char) : Bool := c = ' ' || c = '\t'

/-- The characters of comments and of texts on one line: tabs, and all that are no controls. -/
def isLineChar (c : Char) : Bool := c = '\t' || (0x20 ≤ c.toNat && c.toNat ≠ 0x7f)

def isBareChar (c : Char) : Bool := c.isAlphanum || c = '-' || c = '_'

/-- The text after a line break at its front, if it has one. -/
def afterNewline? : List Char → Option (List Char)
  | '\n' :: r => some r
  | '\r' :: '\n' :: r => some r
  | _ => none

/-! ## Texts -/

def codeEscape (digits : Nat) (s : List Char) : Option (Char × List Char) :=
  if s.length < digits then none
  else do
    let c ← Text.charOfCode? (← Text.hexNumber? (s.take digits))
    some (c, s.drop digits)

/-- The character that an escape stands for; the text starts after its backslash. -/
def readEscape : List Char → Option (Char × List Char)
  | 'b' :: r => some ('\x08', r)
  | 't' :: r => some ('\t', r)
  | 'n' :: r => some ('\n', r)
  | 'f' :: r => some ('\x0c', r)
  | 'r' :: r => some ('\r', r)
  | 'e' :: r => some ('\x1b', r)
  | '"' :: r => some ('"', r)
  | '\\' :: r => some ('\\', r)
  | 'x' :: r => codeEscape 2 r
  | 'u' :: r => codeEscape 4 r
  | 'U' :: r => codeEscape 8 r
  | _ => none

theorem length_codeEscape {n : Nat} {s r : List Char} {c : Char}
    (h : codeEscape n s = some (c, r)) : r.length ≤ s.length := by
  unfold codeEscape at h
  split at h
  · cases h
  · simp only [Option.bind_eq_bind, Option.bind_eq_some_iff] at h
    obtain ⟨_, _, _, _, h⟩ := h
    cases h
    simp

theorem length_readEscape {s r : List Char} {c : Char} (h : readEscape s = some (c, r)) :
    r.length < s.length := by
  unfold readEscape at h
  split at h
  case h_9 | h_10 | h_11 =>
    have := length_codeEscape h
    simp only [List.length_cons]; omega
  case h_12 => cases h
  all_goals (cases h; simp)

/-- A text up to its closing double quote. -/
def readBasic (s : List Char) : Option (List Char × List Char) :=
  match s with
  | [] => none
  | '"' :: r => some ([], r)
  | '\\' :: r =>
    match _h : readEscape r with
    | none => none
    | some (c, r') => (readBasic r').map fun (cs, t) => (c :: cs, t)
  | c :: r => if isLineChar c then (readBasic r).map fun (cs, t) => (c :: cs, t) else none
termination_by s.length
decreasing_by
  · have := length_readEscape _h; simp; omega
  · simp

/-- A text up to its closing single quote. -/
def readLiteral : List Char → Option (List Char × List Char)
  | [] => none
  | '\'' :: r => some ([], r)
  | c :: r => if isLineChar c then (readLiteral r).map fun (cs, t) => (c :: cs, t) else none

/-- The text without the blanks and line breaks at its front. -/
def dropBlankLines : List Char → List Char
  | '\r' :: '\n' :: r => dropBlankLines r
  | c :: r => if isSpace c || c = '\n' then dropBlankLines r else c :: r
  | [] => []

/-- The text after a backslash that joins lines: a line break follows, and neither it nor the
blanks and empty lines around it count. -/
def afterJoin? (s : List Char) : Option (List Char) :=
  (afterNewline? (s.dropWhile isSpace)).map dropBlankLines

theorem length_afterNewline? {s r : List Char} (h : afterNewline? s = some r) :
    r.length < s.length := by
  unfold afterNewline? at h
  split at h
  case h_3 => cases h
  all_goals (cases h; simp only [List.length_cons]; omega)

theorem length_dropBlankLines (s : List Char) : (dropBlankLines s).length ≤ s.length := by
  fun_induction dropBlankLines s <;> grind

theorem length_afterJoin? {s r : List Char} (h : afterJoin? s = some r) : r.length < s.length := by
  obtain ⟨r', hr, rfl⟩ := Option.map_eq_some_iff.1 h
  have h1 := length_afterNewline? hr
  have h2 := (List.dropWhile_suffix (l := s) isSpace).length_le
  have h3 := length_dropBlankLines r'
  omega

/-- A text up to its three closing double quotes; up to two more before them belong to it. -/
def readLongBasic (s : List Char) : Option (List Char × List Char) :=
  match s with
  | [] => none
  | '"' :: '"' :: '"' :: '"' :: '"' :: r => some (['"', '"'], r)
  | '"' :: '"' :: '"' :: '"' :: r => some (['"'], r)
  | '"' :: '"' :: '"' :: r => some ([], r)
  | '\\' :: r =>
    match _h : afterJoin? r with
    | some r' => readLongBasic r'
    | none =>
      match _h' : readEscape r with
      | none => none
      | some (c, r') => (readLongBasic r').map fun (cs, t) => (c :: cs, t)
  | '\r' :: '\n' :: r => (readLongBasic r).map fun (cs, t) => ('\r' :: '\n' :: cs, t)
  | c :: r =>
    if isLineChar c || c = '\n' then (readLongBasic r).map fun (cs, t) => (c :: cs, t) else none
termination_by s.length
decreasing_by
  · have := length_afterJoin? _h; simp; omega
  · have := length_readEscape _h'; simp; omega
  · simp only [List.length_cons]; omega
  · simp

/-- A text up to its three closing single quotes; up to two more before them belong to it. -/
def readLongLiteral : List Char → Option (List Char × List Char)
  | [] => none
  | '\'' :: '\'' :: '\'' :: '\'' :: '\'' :: r => some (['\'', '\''], r)
  | '\'' :: '\'' :: '\'' :: '\'' :: r => some (['\''], r)
  | '\'' :: '\'' :: '\'' :: r => some ([], r)
  | '\r' :: '\n' :: r => (readLongLiteral r).map fun (cs, t) => ('\r' :: '\n' :: cs, t)
  | c :: r =>
    if isLineChar c || c = '\n' then (readLongLiteral r).map fun (cs, t) => (c :: cs, t) else none

/-- A line break right after the opening quotes is no part of the text. -/
def dropFirstNewline (s : List Char) : List Char := (afterNewline? s).getD s

/-! ## Tokens -/

/-- The first token of a text that starts with one, and the rest. -/
def readToken : List Char → Option (Token × List Char)
  | '\n' :: r => some (.newline, r)
  | '\r' :: '\n' :: r => some (.newline, r)
  | '.' :: r => some (.dot, r)
  | '=' :: r => some (.equals, r)
  | ',' :: r => some (.comma, r)
  | '[' :: r => some (.openList, r)
  | ']' :: r => some (.closeList, r)
  | '{' :: r => some (.openTable, r)
  | '}' :: r => some (.closeTable, r)
  | '"' :: '"' :: '"' :: r =>
    (readLongBasic (dropFirstNewline r)).map fun (cs, t) => (.longText (String.ofList cs), t)
  | '"' :: r => (readBasic r).map fun (cs, t) => (.text (String.ofList cs), t)
  | '\'' :: '\'' :: '\'' :: r =>
    (readLongLiteral (dropFirstNewline r)).map fun (cs, t) => (.longText (String.ofList cs), t)
  | '\'' :: r => (readLiteral r).map fun (cs, t) => (.text (String.ofList cs), t)
  | s =>
    if s.takeWhile isBareChar = [] then none
    else some (.bare (String.ofList (s.takeWhile isBareChar)), s.dropWhile isBareChar)

/-- All tokens of a text of at most as many tokens, blanks and comments as the first argument
says. -/
def tokensWithin : Nat → List Char → Option (List Token)
  | _, [] => some []
  | 0, _ => none
  | n + 1, c :: r =>
    if isSpace c then tokensWithin n r
    else if c = '#' then tokensWithin n (r.dropWhile isLineChar)
    else do
      let (k, t) ← readToken (c :: r)
      let ks ← tokensWithin n t
      some (k :: ks)

/-- All tokens of a text, or `none` if some part of it is no token. -/
def tokens? (s : List Char) : Option (List Token) := tokensWithin s.length s

end BugQuery.Toml
