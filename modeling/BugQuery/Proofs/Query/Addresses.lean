import BugQuery.Proofs.Query.Charts

/-!
# The addresses of a query

Where addresses are written under running numbers, those of the roles that
are given get the numbers 1, 2, 3 and so on, in the order of the roles, and
nothing else in a payload has a key that starts like theirs. `Addressed`
carries this through a run: it ties the number of the next address, and the
keys on the payload, to the roles so far.

* `mem_addressEntries`: the entries of numbered addresses, one by one.
* `addressed_step`, `addressed_editAll`: one option keeps `Addressed`, and so does a run.
* `exists_addressed`: the addresses on the payload of a query.
-/
namespace BugQuery

open FirstFailure

/-- The key starts like those of addresses. -/
def HasEmailStem (k : String) : Prop := "email".toList <+: k.toList

instance : DecidablePred HasEmailStem := fun _ => inferInstanceAs (Decidable (_ <+: _))

theorem not_hasEmailStem_key (s : Chart.Slot) : ¬ HasEmailStem s.key := by
  cases s <;> simp [HasEmailStem, Chart.Slot.key, Position.key, Chart.negateKey]

theorem Backend.not_hasEmailStem_fixedKeys {b : Backend} {o : SearchOption} {k : String}
    (ho : o ∈ b.order) (hk : k ∈ b.fixedKeys o) : ¬ HasEmailStem k := by
  have hall : ∀ o ∈ b.order, ∀ k ∈ b.fixedKeys o, ¬ HasEmailStem k := by
    cases b <;> decide +kernel
  exact hall o ho k hk

/-- A role goes by its own name on the wire. -/
theorem Backend.wireName_of_email {b : Backend} {o : SearchOption} (h : o.handling = .email) :
    b.wireName o.name = .ok o.name := by
  have hall : ∀ o ∈ SearchOption.all, o.handling = .email →
      b.fields.get? o.name = some o.name := by
    cases b <;> decide +kernel
  exact Backend.wireName_eq_ok.2 (hall o o.mem_all h)

namespace Query

/-! ## Numbered addresses -/

/-- The address given for a role, with the name of the role. -/
def addressGiven? (q : Query) (o : SearchOption) : Option (String × String) :=
  ((q.given? o).bind OptionValue.text?).map fun address => (o.name, address)

/-- The addresses of a query with their roles, in the order in which they are numbered. -/
def addresses (q : Query) : List (String × String) := roleOptions.filterMap q.addressGiven?

/-- How addresses are matched. -/
def matchType (q : Query) : String :=
  ((q.given? .emailType).bind OptionValue.text?).getD defaultMatch

/-- The keys of the address with number `n`, that of a role. -/
def addressKeys (n : Nat) (role : String) : List String :=
  ["email" ++ toString n, "emailtype" ++ toString n, "email" ++ role ++ toString n]

/-- The entries of addresses, the first of which has number `n`. -/
def addressEntries (matchType : String) (n : Nat) (as : List (String × String)) :
    List (String × PayloadValue) :=
  (as.zipIdx n).flatMap fun x => indexedRole x.2 x.1.1 x.1.2 matchType

/-- The address that an option gives. -/
def addressOf? (q : Query) (o : SearchOption) : Option (String × String) :=
  match o.handling with
  | .email => q.addressGiven? o
  | _ => none

theorem addressEntries_append (matchType : String) (n : Nat) (as bs : List (String × String)) :
    addressEntries matchType n (as ++ bs) =
      addressEntries matchType n as ++ addressEntries matchType (n + as.length) bs := by
  rw [addressEntries, List.zipIdx_append, List.flatMap_append]
  rfl

theorem mem_addressEntries {matchType : String} {n : Nat} {as : List (String × String)}
    {x : String × PayloadValue} : x ∈ addressEntries matchType n as ↔
      ∃ i role address, as[i]? = some (role, address) ∧
        x ∈ indexedRole (n + i) role address matchType := by
  rw [addressEntries, List.mem_flatMap]
  constructor
  · intro hex
    obtain ⟨⟨⟨role, address⟩, i⟩, hi, hx⟩ := hex
    obtain ⟨hle, hget⟩ := List.mem_zipIdx_iff_le_and_getElem?_sub.1 hi
    exact ⟨i - n, role, address, hget, by rwa [Nat.add_sub_cancel' hle]⟩
  · intro hex
    obtain ⟨i, role, address, hget, hx⟩ := hex
    refine ⟨((role, address), n + i), List.mem_zipIdx_iff_le_and_getElem?_sub.2 ⟨by omega, ?_⟩, hx⟩
    rwa [Nat.add_sub_cancel_left]

theorem mem_keys_indexedRole {n : Nat} {role address matchType : String} {k : String}
    {v : PayloadValue} (h : (k, v) ∈ indexedRole n role address matchType) :
    k ∈ addressKeys n role ∨ k = advancedMark.1 := by
  simp only [indexedRole, List.mem_cons, List.not_mem_nil, or_false, Prod.ext_iff] at h
  simp only [addressKeys, List.mem_cons, List.not_mem_nil, or_false]
  rcases h with ⟨rfl, -⟩ | ⟨rfl, -⟩ | ⟨rfl, -⟩ | ⟨rfl, -⟩ <;> simp

theorem hasEmailStem_of_mem_addressKeys {n : Nat} {role k : String} (h : k ∈ addressKeys n role) :
    HasEmailStem k := by
  simp only [addressKeys, List.mem_cons, List.not_mem_nil, or_false] at h
  rcases h with rfl | rfl | rfl <;> simp [HasEmailStem]

/-- The entries of addresses have keys of addresses, and the mark. -/
theorem hasEmailStem_or_mark_of_mem {matchType : String} {n : Nat} {as : List (String × String)}
    {k : String} {v : PayloadValue} (h : (k, v) ∈ addressEntries matchType n as) :
    HasEmailStem k ∨ k = advancedMark.1 := by
  obtain ⟨i, role, address, -, hx⟩ := mem_addressEntries.1 h
  exact (mem_keys_indexedRole hx).imp_left hasEmailStem_of_mem_addressKeys

theorem eq_of_mark_mem_indexedRole {n : Nat} {role address matchType : String} {v : PayloadValue}
    (h : (advancedMark.1, v) ∈ indexedRole n role address matchType) : v = advancedMark.2 := by
  simp only [indexedRole, List.mem_cons, List.not_mem_nil, or_false, Prod.ext_iff] at h
  have hno : advancedMark.1 ∉ addressKeys n role := fun hk =>
    absurd (hasEmailStem_of_mem_addressKeys hk) (by decide)
  simp only [addressKeys, List.mem_cons, List.not_mem_nil, or_false, not_or] at hno
  rcases h with ⟨hk, -⟩ | ⟨hk, -⟩ | ⟨hk, -⟩ | ⟨-, hv⟩
  · exact absurd hk hno.1
  · exact absurd hk hno.2.1
  · exact absurd hk hno.2.2
  · exact hv

/-- With the first address comes the mark. -/
theorem get?_mark_addressEntries (matchType : String) (n : Nat) (as : List (String × String)) :
    (SortedMap.ofList (addressEntries matchType n as)).get? advancedMark.1 =
      if as = [] then none else some advancedMark.2 := by
  cases as with
  | nil => rfl
  | cons a as =>
    have hmark : ∀ v, (advancedMark.1, v) ∈ addressEntries matchType n (a :: as) →
        v = advancedMark.2 := by
      intro v hv
      obtain ⟨i, role, address, -, hmem⟩ := mem_addressEntries.1 hv
      exact eq_of_mark_mem_indexedRole hmem
    rw [if_neg (by simp), SortedMap.get?_ofList_eq_some_iff fun v w hv hw =>
      (hmark v hv).trans (hmark w hw).symm]
    exact mem_addressEntries.2 ⟨0, a.1, a.2, rfl, by simp [indexedRole]⟩

/-! ## What a run keeps -/

/-- The addresses on the payload are those of the roles so far, and the next number is the
next one. Every role that is given has an address. -/
structure Addressed (q : Query) (done : List SearchOption) (s : State) : Prop where
  next : s.numbering.address = 1 + (done.filterMap q.addressOf?).length
  held : ∀ k, HasEmailStem k → s.payload.get? k =
    (SortedMap.ofList (addressEntries q.matchType 1 (done.filterMap q.addressOf?))).get? k
  given : ∀ o ∈ done, q.GivesAddress o → (q.addressOf? o).isSome = true

/-- An option without an address that leaves the number and the keys of addresses. -/
theorem Addressed.keep {q : Query} {done : List SearchOption} {o : SearchOption} {s s' : State}
    (h : q.Addressed done s) (ha : q.addressOf? o = none) (hgives : ¬ q.GivesAddress o)
    (hn : s'.numbering.address = s.numbering.address)
    (hstem : ∀ k, HasEmailStem k → s'.payload.get? k = s.payload.get? k) :
    q.Addressed (done ++ [o]) s' where
  next := by simp [hn, h.next, List.filterMap_append, ha]
  held k hk := by simp [hstem k hk, h.held k hk, List.filterMap_append, ha]
  given a hmem hgiven := by
    rcases List.mem_append.1 hmem with hmem | hmem
    · exact h.given a hmem hgiven
    · exact absurd (List.mem_singleton.1 hmem ▸ hgiven) hgives

/-- The address of a role is added under the next number. -/
theorem Addressed.address {q : Query} {done : List SearchOption} {o : SearchOption} {s : State}
    {address : String} {m : Numbering} (h : q.Addressed done s)
    (ha : q.addressOf? o = some (o.name, address)) (hn : m.address = s.numbering.address + 1) :
    q.Addressed (done ++ [o])
      ⟨(Edit.setAll (indexedRole s.numbering.address o.name address q.matchType)).apply s.payload,
        m⟩ where
  next := by
    rw [hn, h.next, List.filterMap_append, List.length_append]
    simp [ha, Nat.add_assoc]
  held k hk := by
    rw [List.filterMap_append, addressEntries_append, SortedMap.ofList_append,
      SortedMap.get?_merge, ← h.held k hk, ← h.next, Edit.get?_apply]
    simp [Edit.setAll, addressEntries, ha]
  given a hmem hgiven := by
    rcases List.mem_append.1 hmem with hmem | hmem
    · exact h.given a hmem hgiven
    · rw [List.mem_singleton.1 hmem, ha]
      rfl

theorem addressOf?_of_ne_email {q : Query} {o : SearchOption} (h : o.handling ≠ .email) :
    q.addressOf? o = none := by
  unfold addressOf?
  split
  · rename_i hh
    exact absurd hh h
  · rfl

theorem addressed_step {q : Query} (hs : q.backend.emailStyle = .indexedRoles)
    {done : List SearchOption} {o : SearchOption} {s : State} {m : Numbering} {e : Edit}
    (ho : o ∈ q.backend.order) (h : q.Addressed done s)
    (he : q.editOf o s.numbering = .ok (e, m)) :
    q.Addressed (done ++ [o]) ⟨e.apply s.payload, m⟩ := by
  have hlook : ∀ k, HasEmailStem k → (e.apply s.payload).get? k =
      (e.entries.get? k).or (s.payload.get? k) := by
    intro k hk
    refine get?_apply_editOf ho he ?_ ?_ s.payload
    · rintro rfl
      exact absurd hk (by decide)
    · rintro rfl
      exact absurd hk (by decide)
  cases made_of_editOf ho he with
  | absent hv =>
    refine h.keep ?_ (by simp [GivesAddress, hv]) rfl (by simp)
    simp only [addressOf?, addressGiven?, hv]
    split <;> rfl
  | fixed hv hm hkeys hcleared =>
    have hne : o.handling ≠ .email := fun hh => by simp [Backend.modifier?, hh, hs] at hm
    refine h.keep (addressOf?_of_ne_email hne) (fun hg => hne hg.1) rfl fun k hk => ?_
    have hnone : e.entries.get? k = none := Option.eq_none_iff_forall_ne_some.2 fun x hx =>
      Backend.not_hasEmailStem_fixedKeys ho (hkeys k x hx) hk
    rw [hlook k hk, hnone, Option.none_or]
  | @address role address matchType hv hh hs hw hm =>
    rw [Backend.wireName_of_email hh] at hw
    cases hw
    have hmatch : q.matchType = matchType := getD_text_of_modifierText hm
    rw [← hmatch]
    refine h.address ?_ rfl
    simp [addressOf?, hh, addressGiven?, hv, OptionValue.text?]
  | @charts v form operator raws es hv hh hraws hm hes =>
    have hne : o.handling ≠ .email := by rw [hh]; simp
    refine h.keep (addressOf?_of_ne_email hne) (fun hg => hne hg.1) rfl fun k hk => ?_
    have hmark : k ≠ advancedMark.1 := by
      rintro rfl
      exact absurd hk (by decide)
    have hnone : (chartsEdit q.backend.fields s.numbering.chart es).entries.get? k = none := by
      rw [get?_chartsEdit, if_neg fun hm => hmark hm.1]
      refine Option.eq_none_iff_forall_ne_some.2 fun x hx => ?_
      obtain ⟨slot, i, e, -, -, rfl, -⟩ := Chart.get?_ofList_entriesFrom.1 hx
      exact not_hasEmailStem_key slot hk
    rw [hlook k hk, hnone, Option.none_or]

theorem addressed_editAll {q : Query} (hs : q.backend.emailStyle = .indexedRoles)
    {os : List SearchOption} {s : State} {e : Edit} {m : Numbering}
    (hos : ∀ o ∈ os, o ∈ q.backend.order) (h : q.Addressed [] s)
    (he : q.editAll os s.numbering = .ok (e, m)) : q.Addressed os ⟨e.apply s.payload, m⟩ := by
  have hrun := editAll_induction q (I := q.Addressed)
    (fun _ _ _ _ _ ho hi ha => addressed_step hs ho hi ha) hos h he
  simpa using hrun

/-- The payload of a query before the first option. -/
theorem addressed_initial (q : Query) : q.Addressed [] { payload := q.initial .empty } where
  next := rfl
  held k hk := by
    have hne : includeFieldsKey ≠ k := by
      rintro rfl
      exact absurd hk (by decide)
    simp [initial, SortedMap.get?_insert, hne, addressEntries, SortedMap.get?_ofList,
      SortedMap.find]
  given o hmem := by cases hmem

theorem exists_addressed {q : Query} {p : Payload} (hb : q.backend = .extendedRolesV4)
    (h : q.compile.result = .ok p) : ∃ m, q.Addressed q.backend.order ⟨p, m⟩ := by
  obtain ⟨-, e, he, rfl⟩ := compile_eq_ok.1 h
  obtain ⟨⟨f, m⟩, hf, rfl⟩ := map_eq_ok.1 he
  have hs : q.backend.emailStyle = .indexedRoles := by rw [hb]; rfl
  exact ⟨m, addressed_editAll hs (fun _ ho => ho) q.addressed_initial hf⟩

end Query

end BugQuery
