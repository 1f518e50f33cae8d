import BugQuery.Chart
import BugQuery.OptionSet
import BugQuery.Placeholder

/-!
# The edit of an option

Every option of a query stands for an edit of the payload. It depends on the
option's own value, on the modifiers, which are read where they are used, and
on two running numbers: charts count from 0 and indexed addresses from 1,
through all options.
-/
namespace BugQuery

/-- Options for a backend, and the files that they may name. -/
structure Query where
  backend : Backend
  options : OptionSet
  files : Files

/-- The numbers of the next chart and of the next address. -/
structure Numbering where
  chart : Nat := 0
  address : Nat := 1
  deriving DecidableEq, Repr

namespace Query

def includeFieldsKey : String := "include_fields"

/-- Marks a payload that uses charts or indexed addresses. -/
def advancedMark : String × PayloadValue := ("query_format", .text "advanced")

/-- The match type and the operator where no modifier gives another. -/
def defaultMatch : String := "substring"

/-! ## Values -/

/-- The value given for an option. -/
def given? (q : Query) (o : SearchOption) : Option OptionValue := q.options.get? o.name

def textOf (o : SearchOption) (v : OptionValue) : Except QueryError String :=
  match v.text? with
  | some s => .ok s
  | none => .error (.invalidOptionValue o .text)

def textsOf (o : SearchOption) (v : OptionValue) : Except QueryError (List String) :=
  match v.toList? with
  | some items => .ok items
  | none => .error (.invalidOptionValue o .textOrTexts)

@[simp] theorem textOf_eq_ok {o : SearchOption} {v : OptionValue} {s : String} :
    textOf o v = .ok s ↔ v = .text s := by
  cases v <;> simp [textOf, OptionValue.text?]

@[simp] theorem textsOf_eq_ok {o : SearchOption} {v : OptionValue} {items : List String} :
    textsOf o v = .ok items ↔ v.toList? = some items := by
  cases v <;> simp [textsOf, OptionValue.toList?]

/-- The text of a modifier, or the default where it is not given. -/
def modifierText (q : Query) (o : SearchOption) : Except QueryError String :=
  match q.given? o with
  | some v => textOf o v
  | none => .ok defaultMatch

/-- The entries of a text that separates them by `sep`. -/
def entriesOf (sep : Char) (s : String) : List String :=
  (Text.entries sep s.toList).map String.ofList

/-! ## Copied options and statuses -/

def copyEdit (q : Query) (o : SearchOption) (shape : Shape) (v : OptionValue) :
    Except QueryError Edit := do
  let key ← q.backend.wireName o.name
  match shape with
  | .verbatim =>
    match v with
    | .text s => return .set key (.text s)
    | .list items => return .set key (.list items)
    | .flag _ => throw (.invalidOptionValue o .textOrList)
  | .list => return .setList key (← textsOf o v)
  | .commaList => return .setList key ((← textsOf o v).flatMap (entriesOf ','))
  | .file =>
    let path ← textOf o v
    match q.files.read path with
    | .ok content => return .setList key (entriesOf '\n' content)
    | .error cause => throw (.fileRead path cause)
  | .longText =>
    let s ← textOf o v
    return .setAll [(key, .text s), (key ++ "_type", .text "allwordssubstr")]

def statusEdit (q : Query) (o : SearchOption) (v : OptionValue) : Except QueryError Edit := do
  let key ← q.backend.wireName o.name
  let raw ← textOf o v
  match q.backend.statuses.expand? raw with
  | some .any => return .clear key
  | some (.codes codes) => return .set key (.list codes)
  | none => throw (.unsupportedOption (o.name ++ "='" ++ raw ++ "'") q.backend.name)

/-! ## Addresses -/

/-- The entries of the address with number `n`. -/
def indexedRole (n : Nat) (role address matchType : String) : List (String × PayloadValue) :=
  [("email" ++ toString n, .text address),
   ("emailtype" ++ toString n, .text matchType),
   ("email" ++ role ++ toString n, .bool true),
   advancedMark]

def emailEdit (q : Query) (o : SearchOption) (v : OptionValue) (n : Numbering) :
    Except QueryError (Edit × Numbering) := do
  let role ← q.backend.wireName o.name
  let address ← textOf o v
  match q.backend.emailStyle with
  | .plain => return (.set role (.text address), n)
  | .indexedRoles =>
    let matchType ← q.modifierText .emailType
    return (.setAll (indexedRole n.address role address matchType),
      { n with address := n.address + 1 })

/-! ## Charts -/

/-- The expression that an entry of a chart option writes. -/
def chartExpr (o : SearchOption) (form : ChartForm) (operator raw : String) :
    Except QueryError Expr :=
  match form with
  | .terms => Expr.parse raw
  | .values => Expr.parseValues o.name operator raw

/-- The charts of an option's entries, numbered from `n`. -/
def charts (q : Query) (o : SearchOption) (form : ChartForm) (operator : String) :
    List String → Nat → Traced QueryError Payload
  | [], _ => .ok .empty
  | raw :: raws, n => do
    let e ← Traced.ofExcept (chartExpr o form operator raw)
    Traced.note (.assignedChart o n)
    let here ← Chart.encode q.backend.fields q.backend.name n e
    let later ← charts q o form operator raws (n + 1)
    return here.merge later

def chartEdit (q : Query) (o : SearchOption) (form : ChartForm) (v : OptionValue)
    (n : Numbering) : Traced QueryError (Edit × Numbering) := do
  let operator ← Traced.ofExcept (q.modifierText .booleanType)
  let raws ← Traced.ofExcept (textsOf o v)
  let entries ← q.charts o form operator raws n.chart
  let marked := if raws.isEmpty then entries else entries.insert advancedMark.1 advancedMark.2
  return ({ entries := marked }, { n with chart := n.chart + raws.length })

/-! ## Modifiers and output -/

/-- A modifier changes nothing by itself, but has to be sound. -/
def modifierEdit (o : SearchOption) (kind : Modifier) (v : OptionValue) :
    Except QueryError Edit := do
  let s ← textOf o v
  match kind with
  | .matchType => return .none
  | .operator =>
    if s ∈ Expr.operators then return .none
    else throw (.malformedExpression s (.unknownOperator s))

/-- The returned fields that an output format selects, by their names on the wire. -/
def selectedFields (aliases : FieldTable) (format : String) : List String :=
  Placeholder.distinct ((Placeholder.fields format).map aliases.translate)

def outputEdit (q : Query) (o : SearchOption) (choice : OutputChoice) (v : OptionValue) :
    Except QueryError Edit :=
  match choice with
  | .oneline =>
    match v.flag? with
    | some true => return .set includeFieldsKey (.list onelineIncludeFields)
    | some false => return .none
    | none => throw (.invalidOptionValue o .flag)
  | .format => do
    let format ← textOf o v
    match q.backend.outputFields with
    | some aliases => return .set includeFieldsKey (.list (selectedFields aliases format))
    -- without a choice of fields the server returns whole records
    | none => return .clear includeFieldsKey

/-- The edit of an option, and the numbers that are next after it. -/
def edit (q : Query) (o : SearchOption) (v : OptionValue) (n : Numbering) :
    Traced QueryError (Edit × Numbering) :=
  match o.handling with
  | .direct shape => .ofExcept ((q.copyEdit o shape v).map (·, n))
  | .status => .ofExcept ((q.statusEdit o v).map (·, n))
  | .email => .ofExcept (q.emailEdit o v n)
  | .chart form => q.chartEdit o form v n
  | .modifier kind => .ofExcept ((modifierEdit o kind v).map (·, n))
  | .output choice => .ofExcept ((q.outputEdit o choice v).map (·, n))

end Query

end BugQuery
