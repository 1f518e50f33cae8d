/-!
# Results in turn, up to the first failure

Laws of results that may be failures: when a sequence of two succeeds, and
what a walk through a list gives that stops at the first failure.

* `forM_eq_ok`, `forM_eq_error`: a walk succeeds when every member does, and else fails as
  the first member that fails.
* `forM_congr`: two walks agree if they agree on every member that both of them reach.
* `forM_filter`: members that pass can be left out of a walk.
* `map_mapM`, `mapM_eq_map`: whether a list can be mapped is settled by a walk, and what mapping
  gives where every member passes.
-/
namespace BugQuery.FirstFailure

variable {ε α β : Type}

@[simp] theorem ok_bind {a : α} {f : α → Except ε β} : (Except.ok a >>= f) = f a := rfl

@[simp] theorem bind_eq_ok {x : Except ε α} {f : α → Except ε β} {b : β} :
    (x >>= f) = .ok b ↔ ∃ a, x = .ok a ∧ f a = .ok b := by
  cases x <;> simp [bind, Except.bind]

theorem bind_eq_error {x : Except ε α} {f : α → Except ε β} {e : ε} :
    (x >>= f) = .error e ↔ x = .error e ∨ ∃ a, x = .ok a ∧ f a = .error e := by
  cases x <;> simp [bind, Except.bind]

@[simp] theorem map_eq_ok {x : Except ε α} {f : α → β} {b : β} :
    x.map f = .ok b ↔ ∃ a, x = .ok a ∧ f a = b := by
  cases x <;> simp [Except.map]

@[simp] theorem map_eq_error {x : Except ε α} {f : α → β} {e : ε} :
    x.map f = .error e ↔ x = .error e := by
  cases x <;> simp [Except.map]

theorem mapError_eq_ok {ε' : Type} {x : Except ε α} {f : ε → ε'} {a : α} :
    x.mapError f = .ok a ↔ x = .ok a := by
  cases x with
  | error e => exact ⟨fun h => (nomatch h), fun h => (nomatch h)⟩
  | ok b => exact ⟨fun h => congrArg _ (Except.ok.inj h), fun h => congrArg _ (Except.ok.inj h)⟩

@[simp] theorem pure_eq_ok {a b : α} : (pure a : Except ε α) = .ok b ↔ a = b := by
  simp [pure, Except.pure]

@[simp] theorem throw_ne_ok {e : ε} {a : α} : (throw e : Except ε α) ≠ .ok a := by
  simp [throw, throwThe, MonadExceptOf.throw]

@[simp] theorem pure_ne_error {a : α} {e : ε} : (pure a : Except ε α) ≠ .error e := by
  simp [pure, Except.pure]

@[simp] theorem throw_eq_error {e x : ε} : (throw e : Except ε α) = .error x ↔ e = x := by
  simp [throw, throwThe, MonadExceptOf.throw]

@[simp] theorem map_map {γ : Type} (x : Except ε α) (f : α → β) (g : β → γ) :
    (x.map f).map g = x.map fun a => g (f a) := by
  cases x <;> rfl

theorem map_mapError {ε' : Type} (x : Except ε α) (f : α → β) (g : ε → ε') :
    (x.mapError g).map f = (x.map f).mapError g := by
  cases x <;> rfl

/-! ## Walks -/

theorem forM_eq_ok {f : α → Except ε Unit} : ∀ {l : List α},
    forM l f = .ok () ↔ ∀ a ∈ l, f a = .ok ()
  | [] => by simp
  | a :: l => by
    rw [List.forM_cons, bind_eq_ok, List.forall_mem_cons, ← forM_eq_ok (l := l)]
    exact ⟨fun ⟨_, ha, hl⟩ => ⟨ha, hl⟩, fun ⟨ha, hl⟩ => ⟨(), ha, hl⟩⟩

theorem forM_eq_error {f : α → Except ε Unit} {e : ε} : ∀ {l : List α},
    forM l f = .error e ↔ ∃ before a after, l = before ++ a :: after ∧
      (∀ b ∈ before, f b = .ok ()) ∧ f a = .error e
  | [] => by simp [pure, Except.pure]
  | a :: l => by
    rw [List.forM_cons]
    cases ha : f a with
    | error e' =>
      simp only [bind, Except.bind, Except.error.injEq]
      constructor
      · rintro rfl
        exact ⟨[], a, l, rfl, by simp, ha⟩
      · intro hex
        obtain ⟨before, b, after, h, hb, hf⟩ := hex
        cases before with
        | nil =>
          cases h
          rw [ha] at hf
          exact Except.error.inj hf
        | cons c before =>
          cases h
          rw [hb a (by simp)] at ha
          cases ha
    | ok u =>
      simp only [bind, Except.bind, forM_eq_error (l := l)]
      constructor
      · intro hex
        obtain ⟨before, b, after, rfl, hb, hf⟩ := hex
        exact ⟨a :: before, b, after, rfl, by simpa [ha] using hb, hf⟩
      · intro hex
        obtain ⟨before, b, after, h, hb, hf⟩ := hex
        cases before with
        | nil =>
          cases h
          rw [ha] at hf
          cases hf
        | cons c before =>
          cases h
          exact ⟨before, b, after, rfl, fun x hx => hb x (by simp [hx]), hf⟩

/-- Only what is reached counts: members after a failure may differ. -/
theorem forM_congr {f g : α → Except ε Unit} {l : List α}
    (h : ∀ before a after, l = before ++ a :: after → (∀ b ∈ before, f b = .ok ()) → f a = g a) :
    forM l f = forM l g := by
  induction l with
  | nil => rfl
  | cons a l ih =>
    have ha : f a = g a := h [] a l rfl (by simp)
    rw [List.forM_cons, List.forM_cons, ← ha]
    cases hf : f a with
    | error e => rfl
    | ok u =>
      refine ih fun before b after hl hb => h (a :: before) b after (by rw [hl]; rfl) ?_
      simpa [hf] using hb

/-- Members that pass can be left out. -/
theorem forM_filter {f : α → Except ε Unit} {p : α → Bool} {l : List α}
    (h : ∀ a ∈ l, p a = false → f a = .ok ()) : forM (l.filter p) f = forM l f := by
  induction l with
  | nil => rfl
  | cons a l ih =>
    rw [List.forall_mem_cons] at h
    cases hp : p a with
    | false =>
      rw [List.filter_cons_of_neg (by simp [hp]), List.forM_cons, h.1 hp, ok_bind, ih h.2]
    | true => rw [List.filter_cons_of_pos hp, List.forM_cons, List.forM_cons, ih h.2]

theorem mapError_forM {ε' : Type} (g : ε → ε') (f : α → Except ε Unit) : ∀ l : List α,
    (forM l f).mapError g = forM l fun a => (f a).mapError g
  | [] => rfl
  | a :: l => by
    rw [List.forM_cons, List.forM_cons, ← mapError_forM g f l]
    cases f a <;> rfl

/-- Whether a list can be mapped is settled by a walk through it. -/
theorem map_mapM (f : α → Except ε β) : ∀ l : List α,
    (l.mapM f).map (fun _ => ()) = forM l fun a => (f a).map fun _ => ()
  | [] => rfl
  | a :: l => by
    rw [List.mapM_cons, List.forM_cons, ← map_mapM f l]
    cases f a with
    | error e => rfl
    | ok b => cases l.mapM f <;> rfl

theorem mapM_eq_map {f : α → Except ε β} {g : α → β} {l : List α}
    (h : ∀ a ∈ l, f a = .ok (g a)) : l.mapM f = .ok (l.map g) := by
  induction l with
  | nil => rfl
  | cons a l ih =>
    rw [List.forall_mem_cons] at h
    rw [List.mapM_cons, h.1, ok_bind, ih h.2]
    rfl

/-- Where not all members pass, there is a first one that does not. -/
theorem exists_first_not {p : α → Prop} {l : List α} (h : ¬ ∀ a ∈ l, p a) :
    ∃ before a after, l = before ++ a :: after ∧ (∀ b ∈ before, p b) ∧ ¬ p a := by
  induction l with
  | nil => exact absurd (by simp) h
  | cons a l ih =>
    by_cases ha : p a
    · obtain ⟨before, b, after, rfl, hbefore, hb⟩ := ih fun hl => h (List.forall_mem_cons.2 ⟨ha, hl⟩)
      exact ⟨a :: before, b, after, rfl, List.forall_mem_cons.2 ⟨ha, hbefore⟩, hb⟩
    · exact ⟨[], a, l, rfl, by simp, ha⟩

theorem exists_of_mapM_error {f : α → Except ε β} {l : List α} {e : ε} (h : l.mapM f = .error e) :
    ∃ a ∈ l, f a = .error e := by
  have hwalk : (forM l fun a => (f a).map fun _ => ()) = .error e := by
    rw [← map_mapM, h]
    rfl
  obtain ⟨before, a, after, rfl, -, ha⟩ := forM_eq_error.1 hwalk
  exact ⟨a, by simp, map_eq_error.1 ha⟩

/-- A list is mapped just if it is made of members that pass, where passing undoes `g`. -/
theorem mapM_eq_some_iff {f : α → Option β} {g : β → α} (h : ∀ {a b}, f a = some b ↔ a = g b) :
    ∀ {l : List α} {bs : List β}, l.mapM f = some bs ↔ l = bs.map g
  | [], bs => by cases bs <;> simp
  | a :: l, bs => by
    simp only [List.mapM_cons, Option.bind_eq_bind, Option.bind_eq_some_iff, h,
      mapM_eq_some_iff h, Option.pure_def, Option.some.injEq]
    constructor
    · intro hex
      obtain ⟨b, rfl, bs, rfl, rfl⟩ := hex
      rfl
    · intro hl
      cases bs with
      | nil => cases hl
      | cons b bs =>
        cases hl
        exact ⟨b, rfl, bs, rfl, rfl⟩

theorem mapM_cons_eq_ok {f : α → Except ε β} {a : α} {l : List α} {bs : List β} :
    (a :: l).mapM f = .ok bs ↔ ∃ b r, f a = .ok b ∧ l.mapM f = .ok r ∧ bs = b :: r := by
  rw [List.mapM_cons]
  simp only [bind_eq_ok, pure_eq_ok]
  constructor
  · intro hex
    obtain ⟨b, hb, r, hr, rfl⟩ := hex
    exact ⟨b, r, hb, hr, rfl⟩
  · intro hex
    obtain ⟨b, r, hb, hr, rfl⟩ := hex
    exact ⟨b, hb, r, hr, rfl⟩

theorem length_of_mapM {f : α → Except ε β} : ∀ {l : List α} {bs : List β},
    l.mapM f = .ok bs → bs.length = l.length
  | [], bs, h => by
    cases h
    rfl
  | a :: l, bs, h => by
    obtain ⟨b, r, -, hr, rfl⟩ := mapM_cons_eq_ok.1 h
    rw [List.length_cons, List.length_cons, length_of_mapM hr]

theorem getElem?_of_mapM {f : α → Except ε β} {a : α} : ∀ {l : List α} {bs : List β} {i : Nat},
    l.mapM f = .ok bs → l[i]? = some a → ∃ b, bs[i]? = some b ∧ f a = .ok b
  | [], bs, i, _, ha => by cases ha
  | c :: l, bs, i, h, ha => by
    obtain ⟨b, r, hb, hr, rfl⟩ := mapM_cons_eq_ok.1 h
    cases i with
    | zero =>
      cases ha
      exact ⟨b, rfl, hb⟩
    | succ i =>
      rw [List.getElem?_cons_succ] at ha ⊢
      exact getElem?_of_mapM hr ha

theorem exists_of_mem_mapM {f : α → Except ε β} {b : β} : ∀ {l : List α} {bs : List β},
    l.mapM f = .ok bs → b ∈ bs → ∃ a ∈ l, f a = .ok b
  | [], bs, h, hb => by
    cases h
    cases hb
  | a :: l, bs, h, hb => by
    obtain ⟨c, r, hc, hr, rfl⟩ := mapM_cons_eq_ok.1 h
    rcases List.mem_cons.1 hb with rfl | hb
    · exact ⟨a, List.mem_cons_self, hc⟩
    · obtain ⟨x, hx, hfx⟩ := exists_of_mem_mapM hr hb
      exact ⟨x, List.mem_cons_of_mem a hx, hfx⟩

/-- What the members give, up to the first failure. -/
def passing (f : α → Except ε β) : List α → List β
  | [] => []
  | a :: l =>
    match f a with
    | .ok b => b :: passing f l
    | .error _ => []

theorem passing_of_mapM {f : α → Except ε β} : ∀ {l : List α} {bs : List β},
    l.mapM f = .ok bs → passing f l = bs
  | [], bs, h => by
    cases h
    rfl
  | a :: l, bs, h => by
    obtain ⟨b, r, hb, hr, rfl⟩ := mapM_cons_eq_ok.1 h
    rw [passing, hb, passing_of_mapM hr]

end BugQuery.FirstFailure
