import BugQuery.Text.Escape

/-!
# Tokens of JSON texts

A JSON text is a row of tokens with blanks between them. `Token.write` gives
the one spelling used in output; `tokens?` reads any spelling. Numbers are
whole numbers: `1.0`, `1e2` and `-0` are no tokens here.

Texts are quoted: `"` and `\` and the control characters below U+0020 are
written as escapes, everything else as itself.
-/
namespace BugQuery.Json

inductive Token where
  | openObject
  | closeObject
  | openList
  | closeList
  | comma
  | colon
  | null
  | bool (b : Bool)
  | int (n : Int)
  | text (s : String)
  deriving DecidableEq, Repr

/-! ## Writing -/

/-- How one character of a text is written. -/
def escape (c : Char) : List Char :=
  if c = '"' then ['\\', '"']
  else if c = '\\' then ['\\', '\\']
  else if c = '\x08' then ['\\', 'b']
  else if c = '\x0c' then ['\\', 'f']
  else if c = '\n' then ['\\', 'n']
  else if c = '\r' then ['\\', 'r']
  else if c = '\t' then ['\\', 't']
  else if c.toNat < 0x20 then
    ['\\', 'u', '0', '0', Nat.digitChar (c.toNat / 16), Nat.digitChar (c.toNat % 16)]
  else [c]

def quote (s : List Char) : List Char := '"' :: (s.flatMap escape ++ ['"'])

def writeInt (n : Int) : List Char :=
  if n < 0 then '-' :: Nat.toDigits 10 n.natAbs else Nat.toDigits 10 n.natAbs

def Token.write : Token → List Char
  | openObject => ['{']
  | closeObject => ['}']
  | openList => ['[']
  | closeList => [']']
  | comma => [',']
  | colon => [':']
  | null => ['n', 'u', 'l', 'l']
  | bool true => ['t', 'r', 'u', 'e']
  | bool false => ['f', 'a', 'l', 's', 'e']
  | int n => writeInt n
  | text s => quote s.toList

/-! ## Reading -/

/-- The blanks that JSON allows between tokens. -/
def isSpace (c : Char) : Bool := c = ' ' || c = '\t' || c = '\n' || c = '\r'

/-- The character that two code units of UTF-16 stand for. -/
def ofSurrogates? (hi lo : Nat) : Option Char :=
  if 0xd800 ≤ hi ∧ hi < 0xdc00 ∧ 0xdc00 ≤ lo ∧ lo < 0xe000 then
    Text.charOfCode? (0x10000 + (hi - 0xd800) * 0x400 + (lo - 0xdc00))
  else none

/-- The character that an escape stands for; the text starts after its backslash.
A character beyond U+FFFF is two escaped units, and half a pair is refused. -/
def readEscape : List Char → Option (Char × List Char)
  | '"' :: r => some ('"', r)
  | '\\' :: r => some ('\\', r)
  | '/' :: r => some ('/', r)
  | 'b' :: r => some ('\x08', r)
  | 'f' :: r => some ('\x0c', r)
  | 'n' :: r => some ('\n', r)
  | 'r' :: r => some ('\r', r)
  | 't' :: r => some ('\t', r)
  | 'u' :: a :: b :: c :: d :: r => do
    let unit ← Text.hexNumber? [a, b, c, d]
    match Text.charOfCode? unit with
    | some x => some (x, r)
    | none =>
      match r with
      | '\\' :: 'u' :: a' :: b' :: c' :: d' :: r' =>
        let x ← ofSurrogates? unit (← Text.hexNumber? [a', b', c', d'])
        some (x, r')
      | _ => none
  | _ => none

theorem length_readEscape {s r : List Char} {c : Char} (h : readEscape s = some (c, r)) :
    r.length < s.length := by
  unfold readEscape at h
  split at h
  case h_9 =>
    simp only [Option.bind_eq_bind, Option.bind_eq_some_iff] at h
    obtain ⟨unit, _, h⟩ := h
    split at h
    · cases h; simp; omega
    · split at h
      · simp only [Option.bind_eq_some_iff] at h
        obtain ⟨_, _, _, _, h⟩ := h
        cases h; simp; omega
      · cases h
  case h_10 => cases h
  all_goals (cases h; simp)

/-- The characters up to the closing quote, and what follows it. -/
def readQuoted (s : List Char) : Option (List Char × List Char) :=
  match s with
  | [] => none
  | '"' :: r => some ([], r)
  | '\\' :: r =>
    match _h : readEscape r with
    | none => none
    | some (c, r') => (readQuoted r').map fun (cs, t) => (c :: cs, t)
  | c :: r =>
    if c.toNat < 0x20 then none else (readQuoted r).map fun (cs, t) => (c :: cs, t)
termination_by s.length
decreasing_by
  · have := length_readEscape _h; simp; omega
  · simp

/-- A natural number: digits without a leading zero. -/
def readNat? (s : List Char) : Option (Nat × List Char) :=
  match s.takeWhile Char.isDigit with
  | [] => none
  | ['0'] => some (0, s.dropWhile Char.isDigit)
  | '0' :: _ => none
  | ds => some (Nat.ofDigitChars 10 ds 0, s.dropWhile Char.isDigit)

/-- The first token of a text that starts with one, and the rest. -/
def readToken : List Char → Option (Token × List Char)
  | '{' :: r => some (.openObject, r)
  | '}' :: r => some (.closeObject, r)
  | '[' :: r => some (.openList, r)
  | ']' :: r => some (.closeList, r)
  | ',' :: r => some (.comma, r)
  | ':' :: r => some (.colon, r)
  | 'n' :: 'u' :: 'l' :: 'l' :: r => some (.null, r)
  | 't' :: 'r' :: 'u' :: 'e' :: r => some (.bool true, r)
  | 'f' :: 'a' :: 'l' :: 's' :: 'e' :: r => some (.bool false, r)
  | '"' :: r => (readQuoted r).map fun (cs, t) => (.text (String.ofList cs), t)
  | '-' :: r =>
    match readNat? r with
    | none | some (0, _) => none
    | some (n, t) => some (.int (-n), t)
  | s => (readNat? s).map fun (n, t) => (.int n, t)

/-! ## Each token is read off the front -/

theorem length_readQuoted {s t cs : List Char} (h : readQuoted s = some (cs, t)) :
    t.length < s.length := by
  fun_induction readQuoted s generalizing cs t with
  | case1 => simp at h
  | case2 r => cases h; simp
  | case3 r hr => cases h
  | case4 r c r' hr ih =>
    obtain ⟨⟨cs', t'⟩, h', heq⟩ := Option.map_eq_some_iff.1 h
    cases heq
    have := ih h'; have := length_readEscape hr
    simp; omega
  | case5 c r _ _ hc => simp at h
  | case6 c r _ _ hc ih =>
    obtain ⟨⟨cs', t'⟩, h', heq⟩ := Option.map_eq_some_iff.1 h
    cases heq
    have := ih h'
    simp; omega

theorem length_dropWhile_lt {p : Char → Bool} {s : List Char} (h : s.takeWhile p ≠ []) :
    (s.dropWhile p).length < s.length := by
  have h1 := congrArg List.length (List.takeWhile_append_dropWhile (p := p) (l := s))
  rw [List.length_append] at h1
  have h2 := List.length_pos_iff.2 h
  omega

theorem length_readNat? {s t : List Char} {n : Nat} (h : readNat? s = some (n, t)) :
    t.length < s.length := by
  unfold readNat? at h
  split at h
  · cases h
  · rename_i hs; cases h; exact length_dropWhile_lt (by simp [hs])
  · cases h
  · rename_i h0 _ _ ; cases h; exact length_dropWhile_lt h0

theorem length_readToken {s t : List Char} {k : Token} (h : readToken s = some (k, t)) :
    t.length < s.length := by
  unfold readToken at h
  split at h
  case h_10 =>
    obtain ⟨⟨cs, t'⟩, h', heq⟩ := Option.map_eq_some_iff.1 h
    cases heq
    have := length_readQuoted h'
    simp; omega
  case h_11 =>
    split at h
    · cases h
    · cases h
    · rename_i hn; cases h; have := length_readNat? hn; simp; omega
  case h_12 =>
    obtain ⟨⟨n, t'⟩, h', heq⟩ := Option.map_eq_some_iff.1 h
    cases heq
    exact length_readNat? h'
  all_goals (cases h; simp only [List.length_cons]; omega)

/-- All tokens of a text, or `none` if some part of it is no token. -/
def tokens? (s : List Char) : Option (List Token) :=
  match s with
  | [] => some []
  | c :: r =>
    if isSpace c then tokens? r
    else match _h : readToken (c :: r) with
      | none => none
      | some (k, t) => (tokens? t).map (k :: ·)
termination_by s.length
decreasing_by
  · simp
  · have := length_readToken _h; simpa using this

end BugQuery.Json
