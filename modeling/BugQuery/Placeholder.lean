import BugQuery.Text.Pieces

/-!
# Placeholders of output formats

A placeholder is `%{name}` or `%{name:detail}`: a name is a run of
characters other than `}` and `:`, and a detail runs up to the next `}`. The
text is scanned from the left, and each placeholder is followed by the next
one after its end. The fields of a format are the trimmed names, each once,
in the order of their first use.
-/
namespace BugQuery.Placeholder

def isNameChar (c : Char) : Bool := c ≠ '}' && c ≠ ':'

/-- The name of the placeholder at the front of a text, and what follows it. -/
def atFront : List Char → Option (List Char × List Char)
  | '%' :: '{' :: s =>
    if s.takeWhile isNameChar = [] then none
    else match s.dropWhile isNameChar with
      | '}' :: r => some (s.takeWhile isNameChar, r)
      | ':' :: r =>
        match r.dropWhile (· ≠ '}') with
        | [] => none
        | _ :: t => some (s.takeWhile isNameChar, t)
      | _ => none
  | _ => none

theorem length_atFront {s name r : List Char} (h : atFront s = some (name, r)) :
    r.length < s.length := by
  unfold atFront at h
  split at h
  · rename_i s
    have hs := (List.dropWhile_suffix (l := s) isNameChar).length_le
    split at h
    · cases h
    split at h
    · rename_i hd
      cases h
      rw [hd] at hs
      simp at hs ⊢; omega
    · rename_i q hd
      split at h
      · cases h
      · rename_i hq
        cases h
        have hq' := (List.dropWhile_suffix (l := q) (· ≠ '}')).length_le
        rw [hq] at hq'
        rw [hd] at hs
        simp at hs hq' ⊢; omega
    · cases h
  · cases h

/-- The names of all placeholders, from the left. -/
def names (s : List Char) : List (List Char) :=
  match s with
  | [] => []
  | c :: r =>
    match _h : atFront (c :: r) with
    | some (name, t) => name :: names t
    | none => names r
termination_by s.length
decreasing_by
  · exact length_atFront _h
  · simp

/-- Appends `x` unless it is there already. -/
def addNew (xs : List String) (x : String) : List String := if x ∈ xs then xs else xs ++ [x]

/-- The members of a list, each at its first place only. -/
def distinct (xs : List String) : List String := xs.foldl addNew []

/-- The names that a format selects: trimmed, not blank, without repetition. -/
def fields (format : String) : List String :=
  distinct (((names format.toList).map Text.trim).filter (fun n => !n.isEmpty) |>.map String.ofList)

end BugQuery.Placeholder
