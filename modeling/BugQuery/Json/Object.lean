import BugQuery.Backend
import BugQuery.Json.Token
import BugQuery.OptionSet
import BugQuery.Payload

/-!
# Payloads, option sets and backends as JSON

Payloads and option sets are flat objects: every value is a flag, a text or a
list of texts, and a payload may hold numbers besides. The one-line text and
the indented text differ in blanks between tokens only. A key that is written
twice keeps its last value.

A backend is written as its name. Read, it may go by an alias too, and the
name may also be the one key of an object, with `null` for its value. Letter
case counts.
-/
namespace BugQuery.Json

/-! ## Writing -/

/-- `xs` with a comma between neighbours. -/
def commaJoin : List (List Token) → List Token
  | [] => []
  | [x] => x
  | x :: y :: xs => x ++ .comma :: commaJoin (y :: xs)

def valueTokens : PayloadValue → List Token
  | .bool b => [.bool b]
  | .int n => [.int n.toInt]
  | .text s => [.text s]
  | .list items => .openList :: commaJoin (items.map fun s => [.text s]) ++ [.closeList]

def payloadTokens (p : Payload) : List Token :=
  .openObject :: commaJoin (p.entries.map fun e => .text e.1 :: .colon :: valueTokens e.2)
    ++ [.closeObject]

/-- The payload on one line, without blanks. -/
def compact (p : Payload) : String := String.ofList ((payloadTokens p).flatMap Token.write)

/-- A line break and the indentation of `depth` levels, two blanks each. -/
def newline (depth : Nat) : List Char := '\n' :: List.replicate (2 * depth) ' '

/-- Each of `items` on a line of its own between brackets; none, and the brackets touch. -/
def block (opening closing : Token) (depth : Nat) : List (List Char) → List Char
  | [] => opening.write ++ closing.write
  | x :: xs =>
    opening.write ++ newline (depth + 1) ++ x
      ++ xs.flatMap (fun y => Token.comma.write ++ newline (depth + 1) ++ y)
      ++ newline depth ++ closing.write

def indentedValue : PayloadValue → List Char
  | .list items => block .openList .closeList 1 (items.map fun s => (Token.text s).write)
  | v => (valueTokens v).flatMap Token.write

/-- The payload with a line for every entry and every list item. -/
def indented (p : Payload) : String :=
  String.ofList <| block .openObject .closeObject 0 <| p.entries.map fun e =>
    (Token.text e.1).write ++ Token.colon.write ++ [' '] ++ indentedValue e.2

/-! ## Reading -/

/-- The further texts of a list, up to its end. -/
def moreTexts : List Token → Option (List String × List Token)
  | .closeList :: r => some ([], r)
  | .comma :: .text s :: r => (moreTexts r).map fun (ss, t) => (s :: ss, t)
  | _ => none

/-- The texts of a list that has been opened. -/
def readTexts : List Token → Option (List String × List Token)
  | .closeList :: r => some ([], r)
  | .text s :: r => (moreTexts r).map fun (ss, t) => (s :: ss, t)
  | _ => none

def readValue : List Token → Option (PayloadValue × List Token)
  | .bool b :: r => some (.bool b, r)
  | .int n :: r =>
    if Int64.minValue.toInt ≤ n ∧ n ≤ Int64.maxValue.toInt then some (.int (Int64.ofInt n), r)
    else none
  | .text s :: r => some (.text s, r)
  | .openList :: r => (readTexts r).map fun (ss, t) => (.list ss, t)
  | _ => none

theorem length_moreTexts {s t : List Token} {ss : List String} (h : moreTexts s = some (ss, t)) :
    t.length < s.length := by
  fun_induction moreTexts s generalizing ss t with
  | case1 r => cases h; simp
  | case2 s r ih =>
    obtain ⟨⟨ss', t'⟩, h', heq⟩ := Option.map_eq_some_iff.1 h
    cases heq
    have := ih h'
    simp; omega
  | case3 => cases h

theorem length_readTexts {s t : List Token} {ss : List String} (h : readTexts s = some (ss, t)) :
    t.length < s.length := by
  unfold readTexts at h
  split at h
  · cases h; simp
  · obtain ⟨⟨ss', t'⟩, h', heq⟩ := Option.map_eq_some_iff.1 h
    cases heq
    have := length_moreTexts h'
    simp; omega
  · cases h

theorem length_readValue {s t : List Token} {v : PayloadValue} (h : readValue s = some (v, t)) :
    t.length < s.length := by
  unfold readValue at h
  split at h
  · cases h; simp
  · split at h
    · cases h; simp
    · cases h
  · cases h; simp
  · obtain ⟨⟨ss, t'⟩, h', heq⟩ := Option.map_eq_some_iff.1 h
    cases heq
    have := length_readTexts h'
    simp; omega
  · cases h

/-- The further entries of an object, up to its end. -/
def moreEntries (s : List Token) : Option (List (String × PayloadValue) × List Token) :=
  match s with
  | .closeObject :: r => some ([], r)
  | .comma :: .text k :: .colon :: r =>
    match _h : readValue r with
    | none => none
    | some (v, r') => (moreEntries r').map fun (es, t) => ((k, v) :: es, t)
  | _ => none
termination_by s.length
decreasing_by have := length_readValue _h; simp; omega

/-- The entries of an object that has been opened. -/
def readEntries : List Token → Option (List (String × PayloadValue) × List Token)
  | .closeObject :: r => some ([], r)
  | .text k :: .colon :: r => do
    let (v, r') ← readValue r
    let (es, t) ← moreEntries r'
    some ((k, v) :: es, t)
  | _ => none

/-- The entries of an object, as written: in order and with repeated keys. -/
def entries? (s : String) : Option (List (String × PayloadValue)) := do
  match ← tokens? s.toList with
  | .openObject :: r =>
    match ← readEntries r with
    | (es, []) => some es
    | _ => none
  | _ => none

def payload? (s : String) : Option Payload := (entries? s).map SortedMap.ofList

/-- Option values are the payload values that are not numbers. -/
def optionValue? : PayloadValue → Option OptionValue
  | .bool b => some (.flag b)
  | .int _ => none
  | .text s => some (.text s)
  | .list items => some (.list items)

/-- Every written value has to be an option value, that of a key written again too. -/
def optionSet? (s : String) : Option OptionSet := do
  let es ← entries? s
  let os ← es.mapM fun e => (optionValue? e.2).map fun v => (e.1, v)
  some (SortedMap.ofList os)

/-! ## Backends -/

def ofBackend (b : Backend) : String := String.ofList (Token.text b.name).write

/-- The name that a text gives, as a text or as the one key of an object. -/
def backendName? : List Token → Option String
  | [.text name] => some name
  | [.openObject, .text name, .colon, .null, .closeObject] => some name
  | _ => none

def backend? (s : String) : Option Backend := do
  Backend.ofExactName? (← backendName? (← tokens? s.toList))

end BugQuery.Json
