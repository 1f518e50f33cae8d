import BugQuery.Command.Gather
import BugQuery.Proofs.Json.RoundTrip
import BugQuery.Proofs.Text.Entries
import BugQuery.Proofs.Toml.Lines

/-!
# What an options file gives

The end of its name tells how an options file is read: `.json` or `.toml`,
behind at least one character that is no slash. The file has to be there,
its name has to end in one of the two, and its text has to give options; the
first of these that fails is the error.

* `Path.extension?_eq_some`: which paths have an extension.
* `FileGives`, `fromFile_eq_iff`: what reading an options file comes to, in every case.
* `fileGives_of_writes`, `exists_writes`: any options can be given by a file of either kind.
-/
namespace BugQuery

/-! ## Names of files -/

namespace Path

/-- The name at the end of `path` goes on, after something else, with a point and `ext`. -/
def EndsIn (path ext : String) : Prop :=
  ∃ front c, c ≠ '/' ∧ path.toList = front ++ c :: '.' :: ext.toList

theorem rtakeWhile_append_slash (s t : List Char) :
    (s ++ '/' :: t).rtakeWhile (· ≠ '/') = t.rtakeWhile (· ≠ '/') := by
  induction t using List.reverseRecOn with
  | nil => exact List.rtakeWhile_concat_neg _ s '/' (by simp)
  | append_singleton t c ih =>
    have hconcat : s ++ '/' :: (t ++ [c]) = (s ++ '/' :: t) ++ [c] := by simp
    rw [hconcat, List.rtakeWhile_concat, List.rtakeWhile_concat, ih]

/-- The file name is what follows the last slash. -/
theorem fileName_eq_rtakeWhile (path : String) :
    fileName path = path.toList.rtakeWhile (· ≠ '/') := by
  unfold fileName names
  induction path.toList using Text.cut_induction '/' with
  | solid s hs =>
    have hall : ∀ c ∈ s, decide (c ≠ '/') = true := fun c hc =>
      decide_eq_true fun h => hs (h ▸ hc)
    rw [Text.pieces_eq_splitOn, List.splitOn_eq_singleton hs, List.rtakeWhile_eq_self_iff.2 hall]
    rfl
  | joined s t hs ih =>
    rw [rtakeWhile_append_slash, ← ih, Text.pieces_append_sep, List.getLastD_eq_getLast?,
      List.getLast?_append_of_ne_nil _ (Text.pieces_ne_nil '/' t), ← List.getLastD_eq_getLast?]

/-- A path has the extension that its name ends in. -/
theorem extension?_eq_some {path ext : String} (hpoint : '.' ∉ ext.toList)
    (hslash : '/' ∉ ext.toList) : extension? path = some ext ↔ EndsIn path ext := by
  unfold extension?
  rw [fileName_eq_rtakeWhile]
  constructor
  · intro h
    split at h
    · cases h
    · cases h
    rename_i x rest hrest hcut
    cases h
    obtain ⟨hname, -⟩ := Text.cut?_eq_some.1 hcut
    -- the name was cut from behind: `c` is the last character before the point
    cases rest with
    | nil => exact absurd rfl hrest
    | cons c rest =>
      have hback : path.toList.rtakeWhile (· ≠ '/') = rest.reverse ++ c :: '.' :: x.reverse := by
        rw [← List.reverse_reverse (path.toList.rtakeWhile _), hname]
        simp
      have hc : c ∈ path.toList.rtakeWhile (· ≠ '/') := by
        rw [hback]
        simp
      have hne := List.mem_rtakeWhile_imp hc
      refine ⟨path.toList.rdropWhile (· ≠ '/') ++ rest.reverse, c, of_decide_eq_true hne, ?_⟩
      rw [String.toList_ofList, List.append_assoc, ← hback, List.rdropWhile_append_rtakeWhile]
  · intro h
    obtain ⟨front, c, hc, hpath⟩ := h
    have hsuffix : ∀ d ∈ (c :: '.' :: ext.toList).reverse, decide (d ≠ '/') = true := by
      intro d hd
      rw [List.mem_reverse, List.mem_cons, List.mem_cons] at hd
      refine decide_eq_true ?_
      rcases hd with rfl | rfl | hd
      · exact hc
      · decide
      · exact fun h => hslash (h ▸ hd)
    have hcut : Text.cut? '.' (path.toList.rtakeWhile (· ≠ '/')).reverse =
        some (ext.toList.reverse, c :: (front.rtakeWhile (· ≠ '/')).reverse) := by
      rw [hpath, List.rtakeWhile, List.reverse_append, List.takeWhile_append_of_pos hsuffix]
      exact Text.cut?_eq_some.2 ⟨by simp [List.rtakeWhile], by simpa using hpoint⟩
    rw [hcut]
    simp

end Path

/-! ## Options files -/

namespace Gather

/-- What comes of the options file, if one is named. -/
inductive FileGives (files : Files) : Option String → Except CommandError OptionSet → Prop where
  | unnamed : FileGives files none (.ok .empty)
  | unreadable {path : String} {cause : ReadError} (h : files.read path = .error cause) :
      FileGives files (some path) (.error (.optionsRead cause))
  | json {path text : String} {o : OptionSet} (h : files.read path = .ok text)
      (hpath : Path.EndsIn path "json") (ho : Json.Gives text o) :
      FileGives files (some path) (.ok o)
  | jsonSyntax {path text : String} (h : files.read path = .ok text)
      (hpath : Path.EndsIn path "json") (hno : ∀ o, ¬ Json.Gives text o) :
      FileGives files (some path) (.error .optionsJson)
  | toml {path text : String} {o : OptionSet} (h : files.read path = .ok text)
      (hpath : Path.EndsIn path "toml") (ho : Toml.Gives text o) :
      FileGives files (some path) (.ok o)
  | tomlSyntax {path text : String} (h : files.read path = .ok text)
      (hpath : Path.EndsIn path "toml") (hno : ∀ o, ¬ Toml.Gives text o) :
      FileGives files (some path) (.error (.configSyntax path))
  | otherName {path text : String} (h : files.read path = .ok text)
      (hjson : ¬ Path.EndsIn path "json") (htoml : ¬ Path.EndsIn path "toml") :
      FileGives files (some path) (.error (.unsupportedOptionsFile path))

section

variable {files : Files} {path text : String}

theorem fromFile_of_json (h : files.read path = .ok text) (hpath : Path.EndsIn path "json") :
    fromFile files path = (Json.optionSet? text).elim (.error .optionsJson) .ok := by
  have hext := (Path.extension?_eq_some (by decide) (by decide)).2 hpath
  simp only [fromFile, h, hext]
  cases Json.optionSet? text <;> rfl

theorem fromFile_of_toml (h : files.read path = .ok text) (hpath : Path.EndsIn path "toml") :
    fromFile files path = (Toml.optionSet? text).elim (.error (.configSyntax path)) .ok := by
  have hext := (Path.extension?_eq_some (by decide) (by decide)).2 hpath
  simp only [fromFile, h, hext]
  cases Toml.optionSet? text <;> rfl

theorem fromFile_of_otherName (h : files.read path = .ok text)
    (hjson : ¬ Path.EndsIn path "json") (htoml : ¬ Path.EndsIn path "toml") :
    fromFile files path = .error (.unsupportedOptionsFile path) := by
  have hext : ∀ {ext}, '.' ∉ ext.toList → '/' ∉ ext.toList → ¬ Path.EndsIn path ext →
      Path.extension? path ≠ some ext := fun hpoint hslash hends h =>
    hends ((Path.extension?_eq_some hpoint hslash).1 h)
  unfold fromFile
  rw [h]
  dsimp only
  split
  · rename_i hj
    exact absurd hj (hext (by decide) (by decide) hjson)
  · rename_i ht
    exact absurd ht (hext (by decide) (by decide) htoml)
  · rfl

/-- Every path falls under one of the cases. -/
theorem fileGives_fromFile (files : Files) (path : String) :
    FileGives files (some path) (fromFile files path) := by
  cases h : files.read path with
  | error cause =>
    have herror : fromFile files path = .error (.optionsRead cause) := by rw [fromFile, h]
    exact herror ▸ .unreadable h
  | ok text =>
    by_cases hjson : Path.EndsIn path "json"
    · rw [fromFile_of_json h hjson]
      cases ho : Json.optionSet? text with
      | some o => exact .json h hjson (Json.optionSet?_eq_some.1 ho)
      | none => exact .jsonSyntax h hjson (Json.optionSet?_eq_none.1 ho)
    · by_cases htoml : Path.EndsIn path "toml"
      · rw [fromFile_of_toml h htoml]
        cases ho : Toml.optionSet? text with
        | some o => exact .toml h htoml (Toml.optionSet?_eq_some.1 ho)
        | none => exact .tomlSyntax h htoml (Toml.optionSet?_eq_none.1 ho)
      · rw [fromFile_of_otherName h hjson htoml]
        exact .otherName h hjson htoml

/-- The cases do not overlap. -/
theorem FileGives.eq_fromFile {r : Except CommandError OptionSet}
    (h : FileGives files (some path) r) : fromFile files path = r := by
  cases h with
  | unreadable h => rw [fromFile, h]
  | json h hpath ho =>
    rw [fromFile_of_json h hpath, Json.optionSet?_eq_some.2 ho, Option.elim_some]
  | jsonSyntax h hpath hno =>
    rw [fromFile_of_json h hpath, Json.optionSet?_eq_none.2 hno, Option.elim_none]
  | toml h hpath ho =>
    rw [fromFile_of_toml h hpath, Toml.optionSet?_eq_some.2 ho, Option.elim_some]
  | tomlSyntax h hpath hno =>
    rw [fromFile_of_toml h hpath, Toml.optionSet?_eq_none.2 hno, Option.elim_none]
  | otherName h hjson htoml => exact fromFile_of_otherName h hjson htoml

theorem fromFile_eq_iff {r : Except CommandError OptionSet} :
    fromFile files path = r ↔ FileGives files (some path) r := by
  constructor
  · rintro rfl
    exact fileGives_fromFile files path
  · exact FileGives.eq_fromFile

end

/-! ## Files written from options -/

/-- The text is written from the options `o`, in the way that the name of the file tells. -/
inductive Writes (path : String) (o : OptionSet) (text : String) : Prop where
  | json (hpath : Path.EndsIn path "json") (h : Json.Writes o text)
  | toml (hpath : Path.EndsIn path "toml") (h : Toml.Writes o text)

theorem fileGives_of_writes {files : Files} {path text : String} {o : OptionSet}
    (h : files.read path = .ok text) (hw : Writes path o text) :
    FileGives files (some path) (.ok o) := by
  cases hw with
  | json hpath hw => exact .json h hpath (Json.gives_of_writes hw)
  | toml hpath hw => exact .toml h hpath (Toml.gives_of_writes hw)

/-- Any options can be written to a file of either kind. -/
theorem exists_writes {path : String} (h : Path.EndsIn path "json" ∨ Path.EndsIn path "toml")
    (o : OptionSet) : ∃ text, Writes path o text := by
  rcases h with h | h
  · obtain ⟨text, htext⟩ := Json.exists_writes o
    exact ⟨text, .json h htext⟩
  · obtain ⟨text, htext⟩ := Toml.exists_writes o
    exact ⟨text, .toml h htext⟩

end Gather

end BugQuery
