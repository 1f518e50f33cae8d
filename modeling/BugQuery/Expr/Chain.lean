/-!
# Chains: values joined by separators

An expression's text is a chain of segments, joined by `&` and `|`. A chain
has one value more than it has separators, so there is always a first one.
`&` starts a new row, `|` goes on in the row, and neither binds stronger:
`rows` reads a chain from the left.

* `flatten_rows`: the rows hold the values of a chain, in order.
* `mapM_of_ok`, `mapM_of_error`: what mapping gives where every value passes, and where one fails.
* `exists_of_mem_mapM`, `exists_of_mapM_error`, `mapM_map`: mapping a chain goes value by value.
-/
namespace BugQuery.Expr

/-- What stands between two values. -/
inductive Separator where
  /-- `&`: the next value starts a row -/
  | row
  /-- `|`: the next value is one more column -/
  | column
  deriving DecidableEq, Repr

def Separator.char : Separator → Char
  | row => '&'
  | column => '|'

def Separator.ofChar? (c : Char) : Option Separator :=
  if c = '&' then some row else if c = '|' then some column else none

/-- A first value and, after a separator each, further values. -/
structure Chain (α : Type) where
  head : α
  tail : List (Separator × α)
  deriving DecidableEq, Repr

namespace Chain

/-- A value in front of a chain, joined to it by `sep`. -/
def cons {α : Type} (x : α) (sep : Separator) (c : Chain α) : Chain α := ⟨x, (sep, c.head) :: c.tail⟩

def toList {α : Type} (c : Chain α) : List α := c.head :: c.tail.map Prod.snd

/-- The parts of a text between separators. -/
def segments : List Char → Chain (List Char)
  | [] => ⟨[], []⟩
  | c :: s =>
    match Separator.ofChar? c with
    | some sep => cons [] sep (segments s)
    | none =>
      match segments s with
      | ⟨first, rest⟩ => ⟨c :: first, rest⟩

/-- Applies `f` to the further values of a chain, the first failure deciding. -/
def mapTailM {α β ε : Type} (f : α → Except ε β) :
    List (Separator × α) → Except ε (List (Separator × β))
  | [] => .ok []
  | (sep, x) :: xs => do
    let y ← f x
    let ys ← mapTailM f xs
    .ok ((sep, y) :: ys)

/-- Applies `f` to every value, from the left; the first failure decides. -/
def mapM {α β ε : Type} (f : α → Except ε β) (c : Chain α) : Except ε (Chain β) := do
  let y ← f c.head
  let ys ← mapTailM f c.tail
  .ok ⟨y, ys⟩

/-- The rows of a chain that starts with `x`. -/
def rowsFrom {α : Type} (x : α) : List (Separator × α) → List (List α)
  | [] => [[x]]
  | (.row, y) :: ys => [x] :: rowsFrom y ys
  | (.column, y) :: ys =>
    match rowsFrom y ys with
    | [] => [[x]]
    | r :: rs => (x :: r) :: rs

def rows {α : Type} (c : Chain α) : List (List α) := rowsFrom c.head c.tail

/-! ## Laws -/

theorem rowsFrom_ne_nil {α : Type} (x : α) : ∀ xs : List (Separator × α), rowsFrom x xs ≠ []
  | [] => by simp [rowsFrom]
  | (.row, _) :: _ => by simp [rowsFrom]
  | (.column, _) :: _ => by unfold rowsFrom; split <;> simp

theorem rowsFrom_column {α : Type} (x y : α) (ys : List (Separator × α)) :
    ∃ r rs, rowsFrom y ys = r :: rs ∧ rowsFrom x ((.column, y) :: ys) = (x :: r) :: rs := by
  obtain ⟨r, rs, h⟩ := List.exists_cons_of_ne_nil (rowsFrom_ne_nil y ys)
  exact ⟨r, rs, h, by simp [rowsFrom, h]⟩

theorem flatten_rowsFrom {α : Type} (x : α) : ∀ xs : List (Separator × α),
    (rowsFrom x xs).flatten = x :: xs.map Prod.snd
  | [] => rfl
  | (.row, y) :: ys => by simp [rowsFrom, flatten_rowsFrom y ys]
  | (.column, y) :: ys => by
    obtain ⟨r, rs, hy, hx⟩ := rowsFrom_column x y ys
    have ih := flatten_rowsFrom y ys
    rw [hy, List.flatten_cons] at ih
    rw [hx, List.flatten_cons, List.cons_append, ih]
    rfl

theorem flatten_rows {α : Type} (c : Chain α) : c.rows.flatten = c.toList :=
  flatten_rowsFrom c.head c.tail

/-! ## Mapping -/

/-- Applies `f` to every value. -/
def map {α β : Type} (f : α → β) (c : Chain α) : Chain β :=
  ⟨f c.head, c.tail.map fun x => (x.1, f x.2)⟩

theorem rowsFrom_map {α β : Type} (f : α → β) (x : α) : ∀ xs : List (Separator × α),
    rowsFrom (f x) (xs.map fun y => (y.1, f y.2)) = (rowsFrom x xs).map (List.map f)
  | [] => rfl
  | (.row, y) :: ys => by simp [rowsFrom, rowsFrom_map f y ys]
  | (.column, y) :: ys => by
    obtain ⟨r, rs, hy, hx⟩ := rowsFrom_column x y ys
    have ih := rowsFrom_map f y ys
    rw [hy] at ih
    rw [hx, List.map_cons, rowsFrom, ih]
    rfl

theorem rows_map {α β : Type} (f : α → β) (c : Chain α) :
    (c.map f).rows = c.rows.map (List.map f) :=
  rowsFrom_map f c.head c.tail

theorem mapTailM_map {α β γ ε : Type} (f : α → Except ε β) (g : β → γ) :
    ∀ xs : List (Separator × α), mapTailM (fun x => (f x).map g) xs =
      (mapTailM f xs).map (List.map fun y => (y.1, g y.2))
  | [] => rfl
  | (sep, x) :: xs => by
    simp only [mapTailM, mapTailM_map f g xs]
    cases f x with
    | error e => rfl
    | ok y => cases mapTailM f xs <;> rfl

/-- What is done to each value afterwards may be done to the chain. -/
theorem mapM_map {α β γ ε : Type} (f : α → Except ε β) (g : β → γ) (c : Chain α) :
    c.mapM (fun x => (f x).map g) = (c.mapM f).map (map g) := by
  simp only [mapM, mapTailM_map]
  cases f c.head with
  | error e => rfl
  | ok y => cases mapTailM f c.tail <;> rfl

theorem mapTailM_of_ok {α β ε : Type} {f : α → Except ε β} {g : α → β} :
    ∀ {xs : List (Separator × α)}, (∀ x ∈ xs.map Prod.snd, f x = .ok (g x)) →
      mapTailM f xs = .ok (xs.map fun x => (x.1, g x.2))
  | [], _ => rfl
  | (sep, x) :: xs, h => by
    rw [List.map_cons, List.forall_mem_cons] at h
    rw [mapTailM, h.1, mapTailM_of_ok h.2]
    rfl

theorem mapM_of_ok {α β ε : Type} {f : α → Except ε β} {g : α → β} {c : Chain α}
    (h : ∀ x ∈ c.toList, f x = .ok (g x)) : c.mapM f = .ok (c.map g) := by
  rw [toList, List.forall_mem_cons] at h
  rw [mapM, h.1, mapTailM_of_ok h.2]
  rfl

theorem mapTailM_of_error {α β ε : Type} {f : α → Except ε β} {g : α → β} {x : α}
    {after : List α} {e : ε} (hx : f x = .error e) :
    ∀ {xs : List (Separator × α)} {before : List α}, xs.map Prod.snd = before ++ x :: after →
      (∀ y ∈ before, f y = .ok (g y)) → mapTailM f xs = .error e
  | [], before, h, _ => by simp at h
  | (sep, y) :: xs, [], h, _ => by
    cases h
    rw [mapTailM, hx]
    rfl
  | (sep, y) :: xs, z :: before, h, hb => by
    rw [List.map_cons, List.cons_append] at h
    obtain ⟨rfl, htail⟩ := List.cons.inj h
    rw [List.forall_mem_cons] at hb
    rw [mapTailM, hb.1, mapTailM_of_error hx htail hb.2]
    rfl

/-- The first failure decides. -/
theorem mapM_of_error {α β ε : Type} {f : α → Except ε β} {g : α → β} {c : Chain α} {x : α}
    {before after : List α} {e : ε} (h : c.toList = before ++ x :: after)
    (hb : ∀ y ∈ before, f y = .ok (g y)) (hx : f x = .error e) : c.mapM f = .error e := by
  cases before with
  | nil =>
    obtain ⟨hhead, -⟩ := List.cons.inj h
    rw [mapM, hhead, hx]
    rfl
  | cons y before =>
    rw [toList, List.cons_append] at h
    obtain ⟨hhead, htail⟩ := List.cons.inj h
    rw [List.forall_mem_cons] at hb
    rw [mapM, hhead, hb.1, mapTailM_of_error hx htail hb.2]
    rfl

theorem exists_of_mem_mapTailM {α β ε : Type} {f : α → Except ε β} {y : β} :
    ∀ {xs : List (Separator × α)} {ys : List (Separator × β)}, mapTailM f xs = .ok ys →
      y ∈ ys.map Prod.snd → ∃ x, f x = .ok y
  | [], ys, h, hy => by
    cases h
    simp at hy
  | (sep, x) :: xs, ys, h, hy => by
    rw [mapTailM] at h
    cases hx : f x with
    | error e => rw [hx] at h; cases h
    | ok z =>
      rw [hx] at h
      cases ht : mapTailM f xs with
      | error e => rw [ht] at h; cases h
      | ok zs =>
        rw [ht] at h
        cases h
        rcases List.mem_cons.1 hy with rfl | hy
        · exact ⟨x, hx⟩
        · exact exists_of_mem_mapTailM ht hy

theorem exists_of_mem_mapM {α β ε : Type} {f : α → Except ε β} {c : Chain α} {d : Chain β} {y : β}
    (h : c.mapM f = .ok d) (hy : y ∈ d.toList) : ∃ x, f x = .ok y := by
  rw [mapM] at h
  cases hx : f c.head with
  | error e => rw [hx] at h; cases h
  | ok z =>
    rw [hx] at h
    cases ht : mapTailM f c.tail with
    | error e => rw [ht] at h; cases h
    | ok zs =>
      rw [ht] at h
      cases h
      rcases List.mem_cons.1 hy with rfl | hy
      · exact ⟨c.head, hx⟩
      · exact exists_of_mem_mapTailM ht hy

theorem exists_of_mapTailM_error {α β ε : Type} {f : α → Except ε β} {e : ε} :
    ∀ {xs : List (Separator × α)}, mapTailM f xs = .error e → ∃ x, f x = .error e
  | [], h => by cases h
  | (sep, x) :: xs, h => by
    rw [mapTailM] at h
    cases hx : f x with
    | error e' =>
      rw [hx] at h
      cases h
      exact ⟨x, hx⟩
    | ok y =>
      rw [hx] at h
      cases ht : mapTailM f xs with
      | error e' =>
        rw [ht] at h
        cases h
        exact exists_of_mapTailM_error ht
      | ok ys => rw [ht] at h; cases h

theorem exists_of_mapM_error {α β ε : Type} {f : α → Except ε β} {c : Chain α} {e : ε}
    (h : c.mapM f = .error e) : ∃ x, f x = .error e := by
  rw [mapM] at h
  cases hx : f c.head with
  | error e' =>
    rw [hx] at h
    cases h
    exact ⟨c.head, hx⟩
  | ok y =>
    rw [hx] at h
    cases ht : mapTailM f c.tail with
    | error e' =>
      rw [ht] at h
      cases h
      exact exists_of_mapTailM_error ht
    | ok ys => rw [ht] at h; cases h

end Chain

end BugQuery.Expr
