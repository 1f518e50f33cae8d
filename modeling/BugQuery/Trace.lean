import BugQuery.SearchOption
import BugQuery.Text.Escape

/-!
# Traces

A run notes what it does as events, in order; the notes of a run that fails
stay. `Traced` is a computation with its events and its result, and the
events of two computations in a row are those of the first and then those of
the second.
-/
namespace BugQuery

/-- Chart, row and column of a term. -/
structure Position where
  chart : Nat
  row : Nat
  column : Nat
  deriving DecidableEq, Repr

/-- The numbers of a position, joined by hyphens. -/
def Position.text (p : Position) : String :=
  toString p.chart ++ "-" ++ toString p.row ++ "-" ++ toString p.column

inductive Event where
  | loadedConfig (path : String)
  | gatheredOptions (names : List String)
  | compilingQuery (backend : String) (options : Nat)
  | compilingOption (option : SearchOption)
  | assignedChart (option : SearchOption) (chart : Nat)
  | chartTerm (index : Position) (field operator : String)
  | compiledPayload (keys : Nat)
  deriving DecidableEq, Repr

namespace Event

inductive Level where
  | debug
  | trace
  deriving DecidableEq, Repr

def Level.name : Level → String
  | debug => "DEBUG"
  | trace => "TRACE"

def level : Event → Level
  | chartTerm .. => .trace
  | _ => .debug

def message : Event → String
  | loadedConfig _ => "loaded config"
  | gatheredOptions _ => "gathered options"
  | compilingQuery .. => "compiling query"
  | compilingOption _ => "compiling option"
  | assignedChart .. => "assigned chart"
  | chartTerm .. => "chart term"
  | compiledPayload _ => "compiled payload"

/-- What an event says, by name. -/
def fields : Event → List (String × String)
  | loadedConfig path => [("path", path)]
  | gatheredOptions names => [("names", Text.quotedList names)]
  | compilingQuery backend options => [("backend", backend), ("options", toString options)]
  | compilingOption option => [("option", option.name)]
  | assignedChart option chart => [("option", option.name), ("chart", toString chart)]
  | chartTerm index field operator =>
    [("index", index.text), ("field", field), ("operator", operator)]
  | compiledPayload keys => [("keys", toString keys)]

end Event

/-- A computation that may fail, with the events it notes. -/
structure Traced (ε α : Type) where
  events : List Event
  result : Except ε α

namespace Traced

variable {ε ε' α β : Type}

def ok (a : α) : Traced ε α := ⟨[], .ok a⟩

def error (e : ε) : Traced ε α := ⟨[], .error e⟩

def ofExcept (r : Except ε α) : Traced ε α := ⟨[], r⟩

def note (e : Event) : Traced ε Unit := ⟨[e], .ok ()⟩

def bind (x : Traced ε α) (f : α → Traced ε β) : Traced ε β :=
  match x.result with
  | .ok a => ⟨x.events ++ (f a).events, (f a).result⟩
  | .error e => ⟨x.events, .error e⟩

def mapError (f : ε → ε') (x : Traced ε α) : Traced ε' α := ⟨x.events, x.result.mapError f⟩

instance : Monad (Traced ε) where
  pure := ok
  bind := bind

@[simp] theorem pure_eq (a : α) : (pure a : Traced ε α) = ok a := rfl

@[simp] theorem bind_eq (x : Traced ε α) (f : α → Traced ε β) : (x >>= f) = x.bind f := rfl

@[simp] theorem ok_bind (a : α) (f : α → Traced ε β) : (ok a).bind f = f a := rfl

@[simp] theorem error_bind (e : ε) (f : α → Traced ε β) : (error e).bind f = error e := rfl

@[simp] theorem result_ok (a : α) : (ok a : Traced ε α).result = .ok a := rfl

@[simp] theorem result_error (e : ε) : (error e : Traced ε α).result = .error e := rfl

@[simp] theorem result_ofExcept (r : Except ε α) : (ofExcept r).result = r := rfl

@[simp] theorem result_note (e : Event) : (note e : Traced ε Unit).result = .ok () := rfl

theorem bind_of_ok {x : Traced ε α} {a : α} (h : x.result = .ok a) (f : α → Traced ε β) :
    x.bind f = ⟨x.events ++ (f a).events, (f a).result⟩ := by
  simp [bind, h]

theorem bind_of_error {x : Traced ε α} {e : ε} (h : x.result = .error e) (f : α → Traced ε β) :
    x.bind f = ⟨x.events, .error e⟩ := by
  simp [bind, h]

theorem result_bind (x : Traced ε α) (f : α → Traced ε β) :
    (x.bind f).result = x.result.bind fun a => (f a).result := by
  unfold bind
  cases x.result <;> rfl

theorem events_bind_ok (x : Traced ε α) (f : α → β) :
    (x.bind fun a => ok (f a)).events = x.events := by
  unfold bind
  cases x.result with
  | ok a => exact List.append_nil x.events
  | error e => rfl

end Traced

end BugQuery
