import BugQuery.Backend

/-!
# The command line

```text
bzq [--config PATH] [-v] compile [-b BACKEND] [--options FILE] [-o KEY=VALUE]… [--pretty]
bzq [--config PATH] [-v] backends
```

Arguments are read from the left, first those of the program and, from the
name of a command on, those of the command. `--config` and `--verbose` stand
on either side. A flag stands once on a side, `-o` any number of times. The value
of a flag is the next argument, unless that starts with a hyphen, or is
attached to it; one-letter flags may share a hyphen. A value that is the next
argument is checked when the next flag is read, or at the end.

Asking for help or for the version ends the reading where it stands; so does
the first mistake.
-/
namespace BugQuery

namespace CommandLine

/-- What the arguments ask for. -/
inductive Command where
  | compile (backend : Option Backend) (options : Option String) (given : List String)
      (pretty : Bool)
  | backends
  deriving DecidableEq, Repr

structure Invocation where
  config : Option String
  verbose : Bool
  command : Command
  deriving DecidableEq, Repr

/-- Why there is nothing to run. -/
inductive Stop where
  | usage
  | help
  | version
  deriving DecidableEq, Repr

def versionText : String := "bzq 0.1.0\n"

/-- Whose arguments are read. -/
inductive Side where
  | program
  | compile
  | backends
  deriving DecidableEq, Repr

inductive Flag where
  | config
  | verbose
  | help
  | version
  | backend
  | options
  | opt
  | pretty
  deriving DecidableEq, Repr

namespace Flag

def takesValue : Flag → Bool
  | config | backend | options | opt => true
  | verbose | help | version | pretty => false

def repeats : Flag → Bool
  | opt => true
  | _ => false

def longNames : Side → List (String × Flag)
  | .program => [("config", config), ("verbose", verbose), ("help", help), ("version", version)]
  | .compile =>
    [("config", config), ("verbose", verbose), ("help", help), ("backend", backend),
     ("options", options), ("opt", opt), ("pretty", pretty)]
  | .backends => [("config", config), ("verbose", verbose), ("help", help)]

def letters : Side → List (Char × Flag)
  | .program => [('v', verbose), ('h', help), ('V', version)]
  | .compile => [('v', verbose), ('h', help), ('b', backend), ('o', opt)]
  | .backends => [('v', verbose), ('h', help)]

/-- Whether a value may be given to the flag: paths are not empty, backends are known. -/
def accepts : Flag → String → Bool
  | config, s | options, s => !s.isEmpty
  | backend, s => (Backend.ofName? s).isSome
  | _, _ => true

end Flag

/-- The flags read on a side so far, and a flag whose value is still to come, or came as the
last argument. -/
structure Reading where
  flags : List (Flag × String) := []
  pending : Option (Flag × Option String) := none

namespace Reading

def values (r : Reading) (f : Flag) : List String :=
  (r.flags.filter fun e => e.1 = f).map Prod.snd

/-- Enters a flag with its value, which is empty for a flag that takes none. -/
def enter (r : Reading) (f : Flag) (s : String) : Except Stop Reading :=
  if f.accepts s && (f.repeats || (r.values f).isEmpty) then
    .ok { r with flags := r.flags ++ [(f, s)] }
  else .error .usage

/-- Enters the flag that waits for its value; it must have come. -/
def settle (r : Reading) : Except Stop Reading :=
  match r.pending with
  | none => .ok r
  | some (_, none) => .error .usage
  | some (f, some s) => { r with pending := none }.enter f s

/-- Enters a flag without a value. -/
def mark (r : Reading) (f : Flag) : Except Stop Reading := do
  let r ← r.settle
  match f with
  | .help => .error .help
  | .version => .error .version
  | _ => r.enter f ""

/-- Enters a flag with a value that is attached to it. -/
def attach (r : Reading) (f : Flag) (s : String) : Except Stop Reading := do
  (← r.settle).enter f s

/-- Lets a flag wait for its value. -/
def await (r : Reading) (f : Flag) : Except Stop Reading := do
  return { (← r.settle) with pending := some (f, none) }

/-- Reads an argument that starts with two hyphens, given without them. -/
def long (side : Side) (r : Reading) (s : List Char) : Except Stop Reading :=
  let (name, value) := match s.span (· ≠ '=') with
    | (name, _ :: value) => (name, some value)
    | (name, []) => (name, none)
  match (Flag.longNames side).lookup (String.ofList name), value with
  | none, _ => .error .usage
  | some f, none => if f.takesValue then r.await f else r.mark f
  | some f, some value =>
    if f.takesValue then r.attach f (String.ofList value) else .error .usage

/-- Reads the letters of an argument that starts with one hyphen. What follows the letter of
a flag that takes a value is its value, less an `=` in front. -/
def short (side : Side) (r : Reading) : List Char → Except Stop Reading
  | [] => .ok r
  | c :: s =>
    match (Flag.letters side).lookup c with
    | none => .error .usage
    | some f =>
      if f.takesValue then
        match s with
        | [] => r.await f
        | '=' :: value => r.attach f (String.ofList value)
        | value => r.attach f (String.ofList value)
      else do
        short side (← r.mark f) s

/-- Reads an argument that is a flag; `none` if it is none. -/
def flag? (side : Side) (r : Reading) (arg : String) : Option (Except Stop Reading) :=
  match arg.toList with
  | '-' :: '-' :: s => some (r.long side s)
  | ['-'] => none
  | '-' :: s => some (r.short side s)
  | _ => none

/-- Whether a flag waits for a value that has not come yet. -/
def isWaiting (r : Reading) : Option Flag :=
  match r.pending with
  | some (f, none) => some f
  | _ => none

end Reading

/-- Reads arguments up to one that is neither a flag nor a value, and gives that and the
rest. After `--` every argument is such a one. -/
def readFlags (side : Side) (r : Reading) : List String →
    Except Stop (Reading × Option (Option String × List String))
  | [] => .ok (r, none)
  | arg :: args =>
    if arg = "--" then
      match args with
      | [] => .ok (r, none)
      | _ => .ok (r, some (none, args))
    else match r.isWaiting with
      | some f =>
        match r.flag? side arg with
        | some read => do readFlags side (← read) args
        | none => readFlags side { r with pending := some (f, some arg) } args
      | none =>
        match r.flag? side arg with
        | some read => do readFlags side (← read) args
        | none => .ok (r, some (some arg, args))

/-- Reads the arguments of a command, which are all flags and values. -/
def readCommand (side : Side) (args : List String) : Except Stop Reading := do
  match ← readFlags side {} args with
  | (r, none) => r.settle
  | (_, some _) => .error .usage

def commandNames : List String := ["compile", "backends", "help"]

/-- The command line that the readings of both sides give. A flag of the command goes before
the same flag of the program. -/
def invocation (program command : Reading) (c : Command) : Invocation :=
  { config := (command.values .config).head?.or (program.values .config).head?
    verbose := !(program.values .verbose).isEmpty || !(command.values .verbose).isEmpty
    command := c }

def compileCommand (r : Reading) : Command :=
  .compile ((r.values .backend).head?.bind Backend.ofName?) (r.values .options).head?
    (r.values .opt) !(r.values .pretty).isEmpty

/-- Reads the arguments of the program. -/
def parse (args : List String) : Except Stop Invocation := do
  match ← readFlags .program {} args with
  | (program, some (some "compile", rest)) =>
    let command ← readCommand .compile rest
    return invocation (← program.settle) command (compileCommand command)
  | (program, some (some "backends", rest)) =>
    let command ← readCommand .backends rest
    return invocation (← program.settle) command .backends
  | (_, some (some "help", [])) => .error .help
  | (_, some (some "help", [name])) =>
    if name ∈ commandNames then .error .help else .error .usage
  | _ => .error .usage

end CommandLine

end BugQuery
