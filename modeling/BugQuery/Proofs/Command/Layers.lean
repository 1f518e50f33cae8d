import BugQuery.Proofs.Command.OptionsFile
import Mathlib.Data.List.DropRight
import Mathlib.Data.List.ReduceOption

/-!
# What gathered options are

Options are gathered one by one, and what a name stands for in the end
depends on what was given for that name alone: on the values since it last
stood bare, and on whether it ever did. Names that were not given are filled
from the options file, and then from the defaults.

* `parse_eq`: a text is cut at its first `=`.
* `settled_append`: what one more occurrence of a name changes.
* `get?_added`: what a name stands for after all that was given.
* `fileLayer_eq_iff`: the layer of the options file, by what the file is.
* `options_layered`: the options of all layers, and how gathering them fails.
-/
namespace BugQuery.Gather

open FirstFailure

/-! ## One text -/

/-- The name in a text: what precedes its first `=`, or else all of it, trimmed. -/
def nameOf (raw : String) : String :=
  String.ofList (Text.trim (raw.toList.takeWhile (· ≠ '=')))

/-- The value in a text: what follows its first `=`, as it is. -/
def valueOf? (raw : String) : Option String :=
  match raw.toList.dropWhile (· ≠ '=') with
  | [] => none
  | _ :: value => some (String.ofList value)

theorem parse_eq (raw : String) : parse raw =
    if nameOf raw = "" then .error (.invalidOpt raw) else .ok (nameOf raw, valueOf? raw) := by
  have hempty : ∀ s : List Char, String.ofList s = "" ↔ s = [] := fun s => by
    rw [← String.ofList_nil, String.ofList_inj]
  unfold parse nameOf valueOf?
  simp only [hempty]
  cases hcut : Text.cut? '=' raw.toList with
  | none =>
    have hall : ∀ c ∈ raw.toList, decide (c ≠ '=') = true := fun c hc =>
      decide_eq_true fun h => Text.cut?_eq_none.1 hcut (h ▸ hc)
    rw [List.takeWhile_eq_self_iff.2 hall, List.dropWhile_eq_nil_iff.2 hall]
  | some sides =>
    obtain ⟨name, value⟩ := sides
    obtain ⟨hraw, hname⟩ := Text.cut?_eq_some.1 hcut
    have hall : ∀ c ∈ name, decide (c ≠ '=') = true := fun c hc =>
      decide_eq_true fun h => hname (h ▸ hc)
    rw [hraw, List.takeWhile_append_of_pos hall, List.dropWhile_append_of_pos hall]
    simp

/-! ## All that is given for a name -/

/-- What is given for a name, in order: a value, or none where the name stands bare. -/
def occurrences (n : String) (given : List String) : List (Option String) :=
  (given.filter fun raw => nameOf raw = n).map valueOf?

/-- The values behind the last place where the name stands bare. -/
def valuesSinceBare (os : List (Option String)) : List String :=
  (os.rtakeWhile Option.isSome).reduceOption

/-- What the occurrences of a name make of it: a flag where no value comes last, a text where a
value is all there is, and else a list. -/
def settled (os : List (Option String)) : Option OptionValue :=
  if os = [] then none
  else match valuesSinceBare os with
    | [] => some (.flag true)
    | [v] => if none ∈ os then some (.list [v]) else some (.text v)
    | vs => some (.list vs)

theorem valuesSinceBare_append_none (os : List (Option String)) :
    valuesSinceBare (os ++ [none]) = [] := by
  rw [valuesSinceBare, List.rtakeWhile_concat_neg _ _ _ (by simp), List.reduceOption_nil]

theorem valuesSinceBare_append_some (os : List (Option String)) (s : String) :
    valuesSinceBare (os ++ [some s]) = valuesSinceBare os ++ [s] := by
  rw [valuesSinceBare, List.rtakeWhile_concat_pos _ _ _ rfl, List.reduceOption_append]
  rfl

/-- Without a value at the end, a name that occurs stands bare there. -/
theorem none_mem_of_valuesSinceBare {os : List (Option String)} (hne : os ≠ [])
    (h : valuesSinceBare os = []) : none ∈ os := by
  induction os using List.reverseRecOn with
  | nil => exact absurd rfl hne
  | append_singleton os o _ =>
    cases o with
    | none => simp
    | some s =>
      rw [valuesSinceBare_append_some] at h
      simp at h

/-- A further value makes a text of a new name, and is pushed to the others. -/
theorem settled_append_some (os : List (Option String)) (s : String) :
    settled (os ++ [some s]) = some (((settled os).map (OptionValue.push s)).getD (.text s)) := by
  have hmem : none ∈ os ++ [some s] ↔ none ∈ os := by simp
  rw [settled, if_neg (by simp), valuesSinceBare_append_some, settled]
  by_cases hos : os = []
  · subst hos
    rfl
  · rw [if_neg hos]
    cases hv : valuesSinceBare os with
    | nil =>
      -- the name stands bare last, and the flag gives way
      simp only [List.nil_append, if_pos (hmem.2 (none_mem_of_valuesSinceBare hos hv))]
      rfl
    | cons v vs =>
      cases vs with
      | nil => by_cases hbare : none ∈ os <;> simp [hbare, OptionValue.push]
      | cons w vs => simp [OptionValue.push]

theorem settled_append (os : List (Option String)) (o : Option String) :
    settled (os ++ [o]) = some (match o with
      | none => .flag true
      | some s => ((settled os).map (OptionValue.push s)).getD (.text s)) := by
  cases o with
  | none => rw [settled, if_neg (by simp), valuesSinceBare_append_none]
  | some s => exact settled_append_some os s

example : settled [some "a", none, some "b"] = some (.list ["b"]) ∧
    settled [some "a", some "b"] = some (.list ["a", "b"]) ∧
    settled [some "a", none] = some (.flag true) := by decide

/-! ## Adding what is given -/

theorem get?_add (o : OptionSet) (name : String) (value : Option String) (k : String) :
    (add o name value).get? k = if name = k then some (match value with
      | none => .flag true
      | some s => ((o.get? name).map (OptionValue.push s)).getD (.text s)) else o.get? k := by
  cases value with
  | none => exact SortedMap.get?_insert o name _ k
  | some s =>
    cases hv : o.get? name with
    | none => simp [add, SortedMap.contains, hv]
    | some v =>
      have hpush : add o name (some s) = o.push name s := if_pos (by simp [SortedMap.contains, hv])
      rw [hpush, OptionSet.get?_push]
      by_cases h : name = k
      · subst h
        simp [hv]
      · rw [if_neg h, if_neg h]

/-- The options made of all that is given, where everything has a name. -/
def added (given : List String) : OptionSet :=
  given.foldl (fun o raw => add o (nameOf raw) (valueOf? raw)) SortedMap.empty

theorem addAll_eq_foldl : ∀ (given : List String) (o : OptionSet), addAll o given =
    match given.find? fun raw => nameOf raw = "" with
    | some raw => .error (.invalidOpt raw)
    | none => .ok (given.foldl (fun o raw => add o (nameOf raw) (valueOf? raw)) o)
  | [], _ => rfl
  | raw :: given, o => by
    rw [addAll, parse_eq]
    by_cases h : nameOf raw = ""
    · rw [if_pos h, List.find?_cons_of_pos (by simpa using h)]
      rfl
    · rw [if_neg h, List.find?_cons_of_neg (by simpa using h), ok_bind, List.foldl_cons]
      exact addAll_eq_foldl given _

theorem occurrences_append (n : String) (given : List String) (raw : String) :
    occurrences n (given ++ [raw]) =
      occurrences n given ++ if nameOf raw = n then [valueOf? raw] else [] := by
  by_cases h : nameOf raw = n <;> simp [occurrences, h]

/-- A name stands for what its occurrences make of it. -/
theorem get?_added (given : List String) (n : String) :
    (added given).get? n = settled (occurrences n given) := by
  induction given using List.reverseRecOn with
  | nil => rfl
  | append_singleton given raw ih =>
    have hstep : added (given ++ [raw]) = add (added given) (nameOf raw) (valueOf? raw) := by
      simp [added]
    rw [hstep, get?_add, occurrences_append]
    by_cases h : nameOf raw = n
    · rw [if_pos h, if_pos h, settled_append, h, ih]
    · rw [if_neg h, if_neg h, List.append_nil, ih]

/-! ## Layers -/

/-- The options of the options file, and none where no file is named. -/
def fileLayer (files : Files) : Option String → Except CommandError OptionSet
  | none => .ok .empty
  | some path => fromFile files path

theorem fileLayer_eq_iff {files : Files} {file : Option String}
    {r : Except CommandError OptionSet} : fileLayer files file = r ↔ FileGives files file r := by
  cases file with
  | none =>
    constructor
    · rintro rfl
      exact .unnamed
    · intro h
      cases h
      rfl
  | some path => exact fromFile_eq_iff

theorem options_eq (files : Files) (defaults : OptionSet) (file : Option String)
    (given : List String) : options files defaults file given =
      match given.find? fun raw => nameOf raw = "" with
      | some raw => .error (.invalidOpt raw)
      | none => (fileLayer files file).map fun layer =>
          ((added given).withDefaults layer).withDefaults defaults := by
  unfold options
  rw [addAll_eq_foldl]
  cases given.find? fun raw => nameOf raw = "" with
  | some raw => rfl
  | none =>
    rw [ok_bind]
    cases file with
    | none =>
      simp only [fileLayer, Except.map, OptionSet.withDefaults, SortedMap.empty_merge]
      rfl
    | some path =>
      simp only [fileLayer]
      cases fromFile files path <;> rfl

/-- Where the same is given for every name, in the same order, the same is gathered. -/
theorem options_congr (files : Files) (defaults : OptionSet) (file : Option String)
    {given given' : List String}
    (h : ∀ n, (given'.filter fun raw => nameOf raw = n) = given.filter fun raw => nameOf raw = n) :
    options files defaults file given' = options files defaults file given := by
  have hnameless : (given'.find? fun raw => nameOf raw = "") =
      given.find? fun raw => nameOf raw = "" := by
    rw [← List.head?_filter, ← List.head?_filter, h]
  have hadded : added given' = added given := SortedMap.ext_get? fun n => by
    rw [get?_added, get?_added, occurrences, occurrences, h]
  rw [options_eq, options_eq, hnameless, hadded]

/-- A text without a name is refused, the first one, whatever the file. Otherwise, once the file
loads, a name that was given stands for what its occurrences make of it, and any other for what
the file, or else the defaults have for it. What is given for different names may be given in
any order. The file is read as its name says, and any options can be written to it. -/
theorem options_layered (files : Files) (defaults : OptionSet) (file : Option String)
    (given : List String) :
    (∀ raw, (given.find? fun raw => nameOf raw = "") = some raw →
      options files defaults file given = .error (.invalidOpt raw)) ∧
    ((∀ raw ∈ given, nameOf raw ≠ "") →
      (∀ e, fileLayer files file = .error e → options files defaults file given = .error e) ∧
      ∀ layer, fileLayer files file = .ok layer →
        ∃ o, options files defaults file given = .ok o ∧ ∀ n, o.get? n =
          (settled (occurrences n given)).or ((layer.get? n).or (defaults.get? n))) ∧
    (∀ given', (∀ n, (given'.filter fun raw => nameOf raw = n) =
        given.filter fun raw => nameOf raw = n) →
      options files defaults file given' = options files defaults file given) ∧
    (∀ r, fileLayer files file = r ↔ FileGives files file r) ∧
    ∀ path, file = some path → Path.EndsIn path "json" ∨ Path.EndsIn path "toml" →
      ∀ o, (∃ text, Writes path o text) ∧
        ∀ text, Writes path o text → files.read path = .ok text → fileLayer files file = .ok o := by
  refine ⟨?_, ?_, fun given' h => options_congr files defaults file h, fun r => fileLayer_eq_iff,
    ?_⟩
  · intro raw hraw
    rw [options_eq, hraw]
  · intro hnames
    have hnone : (given.find? fun raw => nameOf raw = "") = none :=
      List.find?_eq_none.2 fun raw hraw => by simpa using hnames raw hraw
    refine ⟨?_, ?_⟩
    · intro e he
      rw [options_eq, hnone, he]
      rfl
    · intro layer hlayer
      refine ⟨_, by rw [options_eq, hnone, hlayer]; rfl, fun n => ?_⟩
      rw [OptionSet.get?_withDefaults, OptionSet.get?_withDefaults, get?_added, Option.or_assoc]
  · rintro path rfl hpath o
    refine ⟨exists_writes hpath o, fun text hw hread => ?_⟩
    exact fileLayer_eq_iff.2 (fileGives_of_writes hread hw)

end BugQuery.Gather
