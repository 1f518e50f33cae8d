import BugQuery.Command.Run
import BugQuery.Proofs.Command.SettingsFile
import BugQuery.Proofs.Json.Indented

/-!
# The stages of a compile command

A compile command loads its settings, resolves the backend, gathers the
options and compiles them. It prints something just if all four stages pass,
and else ends with the error of the first one that fails. What it prints is
one document and a line break, and the document reads as the payload that
the query compiles to, on one line or indented.

* `result_run_eq_ok`, `result_run_eq_error`: how a compile command ends, from its stages.
* `payload?_document`: what is printed before the line break reads as the payload.
* `run_compile`: both together.
-/
namespace BugQuery

open FirstFailure

namespace Json

theorem getLast?_block (opening closing : Token) (depth : Nat) (items : List (List Char)) :
    (block opening closing depth items).getLast? = closing.write.getLast? := by
  obtain ⟨c, s, hc, -⟩ := exists_write_eq_cons closing
  cases items <;> rw [block, List.getLast?_append, hc, List.getLast?_cons, Option.some_or]

end Json

namespace Command

/-- What a command prints for a payload, less the line break at the end. -/
def document (pretty : Bool) (p : Payload) : String :=
  if pretty then Json.indented p else Json.compact p

theorem print_eq (pretty : Bool) (p : Payload) : print pretty p = document pretty p ++ "\n" := rfl

theorem payload?_document (pretty : Bool) (p : Payload) :
    Json.payload? (document pretty p) = some p := by
  cases pretty
  · exact Json.payload?_of_spells (by
      rw [document, if_neg (by simp), Json.compact, String.toList_ofList]
      exact Json.compact_payloadTokens p)
  · exact Json.payload?_indented p

/-- The document ends with its closing bracket. -/
theorem getLast?_document (pretty : Bool) (p : Payload) :
    (document pretty p).toList.getLast? = some '}' := by
  cases pretty
  · show (Json.compact p).toList.getLast? = _
    rw [Json.compact, String.toList_ofList, Json.payloadTokens_eq, Json.objectTokens,
      ← List.cons_append, List.flatMap_append]
    exact List.getLast?_concat
  · show (Json.indented p).toList.getLast? = _
    rw [Json.indented, String.toList_ofList, Json.getLast?_block]
    rfl

section

variable (files : Files) (usual config : Option String) (backend : Option Backend)
  (file : Option String) (given : List String)

/-- Every stage of a compile command passes: with the settings `s` it asks for the query `q`,
which compiles to the payload `p`. -/
structure Passes (s : Settings) (q : Query) (p : Payload) : Prop where
  load : (Settings.loadOrDefault files usual config).result = .ok s
  resolve : s.resolve backend = .ok q.backend
  gather : Gather.options files s.defaults file given = .ok q.options
  files : q.files = files
  compile : q.compile.result = .ok p

/-- The first stage of a compile command that fails, with its error. -/
inductive FailsFirst : CommandError → Prop where
  | load {e : CommandError}
      (h : (Settings.loadOrDefault files usual config).result = .error e) : FailsFirst e
  | resolve {s : Settings} {e : CommandError}
      (hs : (Settings.loadOrDefault files usual config).result = .ok s)
      (h : s.resolve backend = .error e) : FailsFirst e
  | gather {s : Settings} {b : Backend} {e : CommandError}
      (hs : (Settings.loadOrDefault files usual config).result = .ok s)
      (hb : s.resolve backend = .ok b)
      (h : Gather.options files s.defaults file given = .error e) : FailsFirst e
  | compile {s : Settings} {b : Backend} {o : OptionSet} {x : QueryError}
      (hs : (Settings.loadOrDefault files usual config).result = .ok s)
      (hb : s.resolve backend = .ok b)
      (ho : Gather.options files s.defaults file given = .ok o)
      (h : (Query.mk b o files).compile.result = .error x) : FailsFirst (.query x)

variable {files usual config backend file given}

theorem result_query : (query files usual config backend file given).result = (do
    let s ← (Settings.loadOrDefault files usual config).result
    let b ← s.resolve backend
    let o ← Gather.options files s.defaults file given
    return ⟨b, o, files⟩) := by
  unfold query
  simp only [Traced.bind_eq, Traced.result_bind, Traced.result_ofExcept]
  rfl

theorem result_run (verbose pretty : Bool) :
    (run files usual ⟨config, verbose, .compile backend file given pretty⟩).result = (do
      let q ← (query files usual config backend file given).result
      let p ← q.compile.result.mapError CommandError.query
      return print pretty p) := by
  simp only [run, compile, Traced.bind_eq, Traced.result_bind, Traced.mapError, Traced.result_note]
  cases (query files usual config backend file given).result with
  | error e => rfl
  | ok q => cases hc : q.compile.result <;> simp only [Except.bind, bind, hc] <;> rfl

theorem result_run_eq_ok {verbose pretty : Bool} {text : String} :
    (run files usual ⟨config, verbose, .compile backend file given pretty⟩).result = .ok text ↔
      ∃ s q p, Passes files usual config backend file given s q p ∧ print pretty p = text := by
  simp only [result_run, result_query, bind_eq_ok, pure_eq_ok, mapError_eq_ok]
  constructor
  · intro hex
    obtain ⟨q, ⟨s, hs, b, hb, o, ho, rfl⟩, p, hp, rfl⟩ := hex
    exact ⟨s, _, p, ⟨hs, hb, ho, rfl, hp⟩, rfl⟩
  · intro hex
    obtain ⟨s, ⟨b, o, _⟩, p, ⟨hs, hb, ho, rfl, hp⟩, rfl⟩ := hex
    exact ⟨_, ⟨s, hs, b, hb, o, ho, rfl⟩, p, hp, rfl⟩

theorem result_run_eq_error {verbose pretty : Bool} {e : CommandError} :
    (run files usual ⟨config, verbose, .compile backend file given pretty⟩).result = .error e ↔
      FailsFirst files usual config backend file given e := by
  rw [result_run, result_query]
  constructor
  · intro h
    rcases bind_eq_error.1 h with h | ⟨q, hq, h⟩
    · rcases bind_eq_error.1 h with h | ⟨s, hs, h⟩
      · exact .load h
      · rcases bind_eq_error.1 h with h | ⟨b, hb, h⟩
        · exact .resolve hs h
        · rcases bind_eq_error.1 h with h | ⟨o, -, h⟩
          · exact .gather hs hb h
          · simp at h
    · simp only [bind_eq_ok, pure_eq_ok] at hq
      obtain ⟨s, hs, b, hb, o, ho, rfl⟩ := hq
      cases hc : (Query.mk b o files).compile.result with
      | ok p =>
        rw [hc] at h
        cases h
      | error x =>
        rw [hc] at h
        cases h
        exact .compile hs hb ho hc
  · intro h
    cases h with
    | load h => rw [h]; rfl
    | resolve hs h => rw [hs, ok_bind, h]; rfl
    | gather hs hb h => rw [hs, ok_bind, hb, ok_bind, h]; rfl
    | compile hs hb ho h =>
      rw [hs, ok_bind, hb, ok_bind, ho, ok_bind]
      simp only [pure, Except.pure, ok_bind, h]
      rfl

end

/-- A compile command prints just if all its stages pass, and else gives the error of the first
one that fails instead. What it prints is a document and a line break. The document ends with a
bracket, and reads as the payload that the gathered options compile to for the backend; so it
does indented or not. The first stage loads the settings file that was asked for, or else the
usual one, and any settings can be written to it. -/
theorem run_compile (files : Files) (usual config : Option String) (verbose : Bool)
    (backend : Option Backend) (file : Option String) (given : List String) (pretty : Bool) :
    let r := (run files usual ⟨config, verbose, .compile backend file given pretty⟩).result
    ((∃ text, r = .ok text) ↔ ∃ s q p, Passes files usual config backend file given s q p) ∧
    (∀ e, r = .error e ↔ FailsFirst files usual config backend file given e) ∧
    (∀ text, r = .ok text → ∃ s q p doc, Passes files usual config backend file given s q p ∧
      text = doc ++ "\n" ∧ doc.toList.getLast? = some '}' ∧ Json.payload? doc = some p) ∧
    (∀ p, Json.payload? (Json.indented p) = some p ∧ Json.payload? (Json.compact p) = some p) ∧
    (∀ loaded, (Settings.loadOrDefault files usual config).result = loaded ↔
      Settings.LoadGives files usual config loaded) ∧
    ∀ path, config = some path → ∀ s, (∃ text, Settings.Writes s text) ∧
      ∀ text, Settings.Writes s text → files.read path = .ok text →
        (Settings.loadOrDefault files usual config).result = .ok s := by
  refine ⟨?_, fun e => result_run_eq_error, ?_, ?_,
    fun loaded => Settings.result_loadOrDefault_eq_iff, ?_⟩
  · simp only [result_run_eq_ok]
    constructor
    · intro hex
      obtain ⟨_, s, q, p, h, -⟩ := hex
      exact ⟨s, q, p, h⟩
    · intro hex
      obtain ⟨s, q, p, h⟩ := hex
      exact ⟨_, s, q, p, h, rfl⟩
  · intro text htext
    obtain ⟨s, q, p, h, rfl⟩ := result_run_eq_ok.1 htext
    exact ⟨s, q, p, document pretty p, h, print_eq pretty p, getLast?_document pretty p,
      payload?_document pretty p⟩
  · intro p
    exact ⟨payload?_document true p, payload?_document false p⟩
  · rintro path rfl s
    refine ⟨Settings.exists_writes s, fun text hw hread => ?_⟩
    exact Settings.result_loadOrDefault_eq_iff.2
      (.asked (.settings hread (Settings.gives_of_writes hw)))

end Command

end BugQuery
