import BugQuery.Proofs.Query.Overlay

/-!
# Two runs side by side

Two queries that differ in some way are run option by option. Where their
edits agree, key by key, except on some keys, so do their payloads. The two
runs need not count alike: a relation between their numberings is carried
along, as far as the edits need it.

* `Edit.AgreeOff`: edits that do the same to every key but some.
* `editAll_agreeOff`: what holds of the two edits of every option holds of the two runs.
* `touches_of_ownsKeys`: the edit of an option that is copied, expanded or chooses the output
  touches the keys of that option alone, and no number.
-/
namespace BugQuery

open FirstFailure

namespace Edit

/-- All keys that the edit sets or clears are in `K`. -/
structure Touches (K : String → Prop) (e : Edit) : Prop where
  entries : ∀ k x, e.entries.get? k = some x → K k
  cleared : ∀ k ∈ e.cleared, K k

/-- The edits do the same to every key that is not in `K`. -/
structure AgreeOff (K : String → Prop) (e f : Edit) : Prop where
  entries : ∀ k, ¬ K k → e.entries.get? k = f.entries.get? k
  cleared : ∀ k, ¬ K k → (k ∈ e.cleared ↔ k ∈ f.cleared)

theorem AgreeOff.refl (K : String → Prop) (e : Edit) : AgreeOff K e e where
  entries _ _ := rfl
  cleared _ _ := Iff.rfl

theorem Touches.mono {K L : String → Prop} {e : Edit} (h : Touches K e) (hsub : ∀ k, K k → L k) :
    Touches L e where
  entries k x hx := hsub k (h.entries k x hx)
  cleared k hk := hsub k (h.cleared k hk)

theorem touches_none (K : String → Prop) : Touches K none where
  entries k x hx := by cases hx
  cleared k hk := by cases hk

theorem Touches.get?_eq_none {K : String → Prop} {e : Edit} (h : Touches K e) {k : String}
    (hk : ¬ K k) : e.entries.get? k = Option.none :=
  Option.eq_none_iff_forall_ne_some.2 fun x hx => hk (h.entries k x hx)

/-- Edits that touch nothing but `K` agree everywhere else. -/
theorem Touches.agreeOff {K : String → Prop} {e f : Edit} (he : Touches K e) (hf : Touches K f) :
    AgreeOff K e f where
  entries k hk := by rw [he.get?_eq_none hk, hf.get?_eq_none hk]
  cleared k hk := ⟨fun hm => absurd (he.cleared k hm) hk, fun hm => absurd (hf.cleared k hm) hk⟩

theorem AgreeOff.get?_apply {K : String → Prop} {e f : Edit} (h : AgreeOff K e f) {p p' : Payload}
    (hp : ∀ k, ¬ K k → p.get? k = p'.get? k) (k : String) (hk : ¬ K k) :
    (e.apply p).get? k = (f.apply p').get? k := by
  simp only [Edit.get?_apply, h.entries k hk, h.cleared k hk, hp k hk]

theorem AgreeOff.andThen {K : String → Prop} {e f e' f' : Edit} (h : AgreeOff K e f)
    (h' : AgreeOff K e' f') : AgreeOff K (e.andThen e') (f.andThen f') where
  entries := h'.get?_apply h.entries
  cleared k hk := by
    simp only [Edit.andThen, List.mem_append, h.cleared k hk, h'.cleared k hk]

end Edit

/-- The option sets, or clears, keys of its own that have no number. -/
def Handling.ownsKeys : Handling → Bool
  | direct _ | status | output _ => true
  | email | chart _ | modifier _ => false

namespace Query

/-! ## Runs -/

/-- Options with the same edit agree on every key. -/
theorem agreeOff_of_editOf_eq {q r : Query} {K : String → Prop} {o : SearchOption}
    {n l l' : Numbering} {e f : Edit} (h : q.editOf o n = r.editOf o n)
    (he : q.editOf o n = .ok (e, l)) (hf : r.editOf o n = .ok (f, l')) :
    e.AgreeOff K f ∧ l = l' := by
  rw [h, hf] at he
  cases he
  exact ⟨.refl K _, rfl⟩

/-- What holds of the two edits of every option holds of the two runs. -/
theorem editAll_agreeOff {q r : Query} {K : String → Prop} {N : Numbering → Numbering → Prop} :
    ∀ {os : List SearchOption} {n n' m m' : Numbering} {e f : Edit},
    (∀ o ∈ os, ∀ {n n' m m' : Numbering} {e f : Edit}, N n m → q.editOf o n = .ok (e, n') →
      r.editOf o m = .ok (f, m') → e.AgreeOff K f ∧ N n' m') →
    N n m → q.editAll os n = .ok (e, n') → r.editAll os m = .ok (f, m') → e.AgreeOff K f ∧ N n' m'
  | [], n, n', m, m', e, f, _, hN, he, hf => by
    cases he
    cases hf
    exact ⟨.refl K _, hN⟩
  | o :: os, n, n', m, m', e, f, hstep, hN, he, hf => by
    obtain ⟨e₁, k, e₂, he₁, he₂, rfl⟩ := editAll_cons_eq_ok.1 he
    obtain ⟨f₁, l, f₂, hf₁, hf₂, rfl⟩ := editAll_cons_eq_ok.1 hf
    obtain ⟨h₁, hN₁⟩ := hstep o (by simp) hN he₁ hf₁
    obtain ⟨h₂, hN₂⟩ := editAll_agreeOff (fun a ha => hstep a (by simp [ha])) hN₁ he₂ hf₂
    exact ⟨h₁.andThen h₂, hN₂⟩

/-- The payload of a query is what the edits of its options make of the returned fields. -/
theorem exists_editAll_of_compile {q : Query} {p : Payload} (h : q.compile.result = .ok p) :
    q.Supported ∧ ∃ e m, q.editAll q.backend.order {} = .ok (e, m) ∧
      p = e.apply (q.initial .empty) := by
  obtain ⟨hs, e, he, rfl⟩ := compile_eq_ok.1 h
  obtain ⟨⟨f, m⟩, hf, rfl⟩ := map_eq_ok.1 he
  exact ⟨hs, f, m, hf, rfl⟩

/-! ## Options with keys of their own -/

theorem mem_fixedKeys_of_clearedBy {q : Query} {o : SearchOption} {k : String}
    (h : q.ClearedBy k o) : k ∈ q.backend.fixedKeys o := by
  rcases h with ⟨rfl, rfl, -⟩ | ⟨rfl, rfl, -⟩
  · simp [Backend.fixedKeys, SearchOption.handling, translate_bugStatus]
  · simp [Backend.fixedKeys, SearchOption.handling]

theorem touches_of_ownsKeys {q : Query} {o : SearchOption} {n m : Numbering} {e : Edit}
    (ho : o ∈ q.backend.order) (hown : o.handling.ownsKeys = true)
    (h : q.editOf o n = .ok (e, m)) : e.Touches (· ∈ q.backend.fixedKeys o) ∧ m = n := by
  have hcleared : ∀ k ∈ e.cleared, k ∈ q.backend.fixedKeys o := fun k hk =>
    mem_fixedKeys_of_clearedBy ((mem_cleared_editOf ho h).1 hk)
  cases made_of_editOf ho h with
  | absent hv => exact ⟨Edit.touches_none _, rfl⟩
  | fixed hv hm hkeys _ => exact ⟨⟨hkeys, hcleared⟩, rfl⟩
  | address hv hh hs hw hm => simp [hh, Handling.ownsKeys] at hown
  | charts hv hh hraws hm hes => simp [hh, Handling.ownsKeys] at hown

example (b : Backend) : b.fixedKeys .longDesc = ["longdesc", "longdesc_type"] ∧
    b.fixedKeys .bugStatus = ["bug_status"] ∧ b.fixedKeys .oneline = ["include_fields"] := by
  cases b <;> decide +kernel

end Query

end BugQuery
