import BugQuery.Query.Step

/-!
# Compiling a query

A query first has to hold nothing but options of its backend. Then the edits
of its options are made in the order of the backend, each as a whole; the
first option without an edit ends the run, and what was put on the payload
before stays there.
-/
namespace BugQuery

/-- What a run leaves: its events, the payload, and how it ended. -/
structure Outcome where
  events : List Event
  payload : Payload
  result : Except QueryError Unit

namespace Query

/-- A payload under construction, and the numbers that are next. -/
structure State where
  payload : Payload
  numbering : Numbering := {}

/-- Makes the edit of an option, if the option is given. -/
def step (q : Query) (o : SearchOption) (s : State) : Traced QueryError State :=
  match q.given? o with
  | none => .ok s
  | some v => do
    Traced.note (.compilingOption o)
    let (edit, numbering) ← q.edit o v s.numbering
    return ⟨edit.apply s.payload, numbering⟩

/-- Makes the edits of options in turn, up to the first that has none. -/
def runFrom (q : Query) : List SearchOption → State → Outcome
  | [], s => ⟨[], s.payload, .ok ()⟩
  | o :: os, s =>
    match q.step o s with
    | ⟨events, .ok s'⟩ =>
      let rest := q.runFrom os s'
      { rest with events := events ++ rest.events }
    | ⟨events, .error e⟩ => ⟨events, s.payload, .error e⟩

/-- The least name that is no option of the backend. -/
def unsupported? (q : Query) : Option String :=
  q.options.keys.find? fun name => !q.backend.supportsName name

/-- The payload with the fields that are returned by default. -/
def initial (q : Query) (p : Payload) : Payload :=
  p.insert includeFieldsKey (.list q.backend.defaultIncludeFields)

/-- Compiles a query on top of a payload. -/
def compileOnto (q : Query) (p : Payload) : Outcome :=
  match q.unsupported? with
  | some name => ⟨[], p, .error (.unsupportedOption name q.backend.name)⟩
  | none =>
    let run := q.runFrom q.backend.order { payload := q.initial p }
    { run with events := .compilingQuery q.backend.name q.options.size :: run.events }

/-- The payload of a query. -/
def compile (q : Query) : Traced QueryError Payload :=
  let run := q.compileOnto .empty
  ⟨run.events, run.result.map fun _ => run.payload⟩

end Query

end BugQuery
