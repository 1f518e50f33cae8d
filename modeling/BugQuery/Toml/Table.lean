import BugQuery.OptionSet

/-!
# Tables of settings

A document builds a tree of tables. A key is given once; a table is opened by
one header, or grows by dotted keys, or stands between braces, and what has
been made one way is not extended another.
-/
namespace BugQuery.Toml

/-- How a table came to be. -/
inductive Origin where
  /-- by a header of its own -/
  | header
  /-- by the header of a table inside it -/
  | implied
  /-- by dotted keys -/
  | dotted
  /-- between braces -/
  | inline
  deriving DecidableEq, Repr

inductive Node where
  | setting (v : OptionValue)
  | table (origin : Origin) (entries : List (String × Node))

abbrev Entries := List (String × Node)

namespace Entries

/-- Puts `n` in the place of what `k` names. -/
def replace (es : Entries) (k : String) (n : Node) : Entries :=
  es.map fun e => if e.1 = k then (k, n) else e

/-- Gives the key at the end of a dotted path its value, making tables on the way. -/
def assign (n : Node) : List String → Entries → Option Entries
  | [], _ => none
  | [k], es => if (es.lookup k).isSome then none else some (es ++ [(k, n)])
  | k :: ks, es =>
    match es.lookup k with
    | none => (assign n ks []).map fun sub => es ++ [(k, .table .dotted sub)]
    | some (.table .dotted sub) => (assign n ks sub).map fun sub => es.replace k (.table .dotted sub)
    | some _ => none

/-- Opens the table at a path by its header, making the tables above it if need be. -/
def openTable : List String → Entries → Option Entries
  | [], _ => none
  | [k], es =>
    match es.lookup k with
    | none => some (es ++ [(k, .table .header [])])
    | some (.table .implied sub) => some (es.replace k (.table .header sub))
    | some _ => none
  | k :: ks, es =>
    match es.lookup k with
    | none => (openTable ks []).map fun sub => es ++ [(k, .table .implied sub)]
    | some (.table .inline _) | some (.setting _) => none
    | some (.table origin sub) => (openTable ks sub).map fun sub => es.replace k (.table origin sub)

/-- Changes the entries of the table at a path. -/
def within (change : Entries → Option Entries) : List String → Entries → Option Entries
  | [], es => change es
  | k :: ks, es =>
    match es.lookup k with
    | some (.table origin sub) =>
      (within change ks sub).map fun sub => es.replace k (.table origin sub)
    | _ => none

/-- The setting that a key has; a table is none. -/
def setting? : String × Node → Option (String × OptionValue)
  | (k, .setting v) => some (k, v)
  | (_, .table _ _) => none

/-- The entries as option values, if none of them is a table. -/
def toOptionSet? (es : Entries) : Option OptionSet := (es.mapM setting?).map SortedMap.ofList

end Entries

end BugQuery.Toml
