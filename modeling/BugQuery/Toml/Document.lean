import BugQuery.Toml.Table
import BugQuery.Toml.Token

/-!
# Reading TOML documents of settings

```text
document  := (statement? newline)*
statement := key '=' value | '[' key ']'
key       := part ('.' part)*
value     := true | false | text | '[' text, … ']' | '{' key '=' value, … '}'
```

A statement after a header goes to the table of that header. Lists and inline
tables may end in a comma and run over several lines, also between a key, its
`=` and its value, but not within a dotted key. Arrays of tables are no
settings, and a document with one is refused like one with numbers.
-/
namespace BugQuery.Toml

def skipNewlines : List Token → List Token
  | .newline :: r => skipNewlines r
  | r => r

/-- The parts of a dotted key. -/
def readKey : List Token → Option (List String × List Token)
  | .bare k :: .dot :: r | .text k :: .dot :: r => (readKey r).map fun (ks, t) => (k :: ks, t)
  | .bare k :: r | .text k :: r => some ([k], r)
  | _ => none

mutual

/-- The texts of a list that has been opened. -/
def readTexts : List Token → Option (List String × List Token)
  | .newline :: r => readTexts r
  | .closeList :: r => some ([], r)
  | .text s :: r | .longText s :: r => (afterText r).map fun (ss, t) => (s :: ss, t)
  | _ => none

/-- The further texts of a list, from behind a text. -/
def afterText : List Token → Option (List String × List Token)
  | .newline :: r => afterText r
  | .comma :: r => readTexts r
  | .closeList :: r => some ([], r)
  | _ => none

end

mutual

/-- A value, within at most `fuel` steps. -/
def readValue : Nat → List Token → Option (Node × List Token)
  | _, .bare "true" :: r => some (.setting (.flag true), r)
  | _, .bare "false" :: r => some (.setting (.flag false), r)
  | _, .text s :: r | _, .longText s :: r => some (.setting (.text s), r)
  | _, .openList :: r => (readTexts r).map fun (ss, t) => (.setting (.list ss), t)
  | n + 1, .openTable :: r => (readPairs n [] r).map fun (es, t) => (.table .inline es, t)
  | _, _ => none

/-- The further pairs of an inline table that holds `es`, within at most `fuel` steps. -/
def readPairs : Nat → Entries → List Token → Option (Entries × List Token)
  | 0, _, _ => none
  | n + 1, es, s =>
    match skipNewlines s with
    | .closeTable :: r => some (es, r)
    | r => do
      let (ks, r) ← readKey r
      match skipNewlines r with
      | .equals :: r =>
        let (v, r) ← readValue n (skipNewlines r)
        let es ← Entries.assign v ks es
        match skipNewlines r with
        | .comma :: r => readPairs n es r
        | .closeTable :: r => some (es, r)
        | _ => none
      | _ => none

end

/-- The rest after the end of a line. -/
def endOfLine : List Token → Option (List Token)
  | [] => some []
  | .newline :: r => some r
  | _ => none

/-- The tree of a document of at most `fuel` statements: `root` is the tree so far, and
`path` the header in force. -/
def readStatements : Nat → Entries → List String → List Token → Option Entries
  | 0, _, _, _ => none
  | n + 1, root, path, s =>
    match skipNewlines s with
    | [] => some root
    | .openList :: r => do
      let (ks, r) ← readKey r
      match r with
      | .closeList :: r =>
        let root ← Entries.openTable ks root
        readStatements n root ks (← endOfLine r)
      | _ => none
    | r => do
      let (ks, r) ← readKey r
      match r with
      | .equals :: r =>
        let (v, r) ← readValue s.length r
        let root ← Entries.within (Entries.assign v ks) path root
        readStatements n root path (← endOfLine r)
      | _ => none

/-- The tree of a document; a byte order mark at its front is no part of it. -/
def document? (s : String) : Option Entries := do
  let ks ← tokens? (match s.toList with | '\ufeff' :: r => r | r => r)
  readStatements (ks.length + 1) [] [] ks

/-- A document that gives option values and nothing else. -/
def optionSet? (s : String) : Option OptionSet := (document? s).bind Entries.toOptionSet?

end BugQuery.Toml
