import BugQuery.Proofs.Query.Agreement
import BugQuery.Proofs.Query.Faults

/-!
# Roles read back from a payload

The roles that are given have the numbers 1, 2, 3 and so on. Three keys of a
number belong to its role, and their texts tell which: what stands between
`email` and the digits is nothing, `type` or the name of a role, none of
which holds a digit. So no two keys of addresses collide, each has one value,
and the payload gives every role its address back.

* `emailKey_injective`: a key of an address has one number and one tag.
* `addressEntries_functional`: no key of addresses has two values.
* `given?_iff_of_compile`: the address of a role, read off the payload.
* `compile_roles`: the keys of addresses on the payload of a query, and what they determine.
-/
namespace BugQuery

open FirstFailure

/-! ## Keys with a tag and a number -/

/-- The key of the number `n` with this tag. -/
def emailKey (tag : String) (n : Nat) : String := "email" ++ tag ++ toString n

/-- The text holds no digit. -/
def NoDigits (s : String) : Prop := ∀ c ∈ s.toList, c.isDigit = false

instance (s : String) : Decidable (NoDigits s) :=
  List.decidableBAll (fun c : Char => c.isDigit = false) s.toList

/-- A number is written with a digit at the front. -/
theorem exists_toString_cons (n : Nat) :
    ∃ c s, (toString n).toList = c :: s ∧ c.isDigit = true := by
  rw [Nat.toString_eq_ofList_toDigits, String.toList_ofList]
  have hdigits : ∀ c ∈ Nat.toDigits 10 n, c.isDigit = true := fun _ hc =>
    Nat.isDigit_of_mem_toDigits (by decide) (by decide) hc
  obtain ⟨c, s, h⟩ := List.exists_cons_of_ne_nil (Nat.toDigits_ne_nil (n := n) (b := 10))
  exact ⟨c, s, h, hdigits c (by simp [h])⟩

/-- What comes before the digits is the tag. -/
theorem takeWhile_tag {tag : String} (h : NoDigits tag) (n : Nat) :
    (tag.toList ++ (toString n).toList).takeWhile (fun c => !c.isDigit) = tag.toList := by
  obtain ⟨c, s, hn, hc⟩ := exists_toString_cons n
  rw [hn, List.takeWhile_append_of_pos fun d hd => by simp [h d hd],
    List.takeWhile_cons_of_neg (by simp [hc]), List.append_nil]

theorem emailKey_injective {tag tag' : String} {m n : Nat} (ht : NoDigits tag)
    (ht' : NoDigits tag') (h : emailKey tag m = emailKey tag' n) : tag = tag' ∧ m = n := by
  have hlist : tag.toList ++ (toString m).toList = tag'.toList ++ (toString n).toList := by
    have := congrArg String.toList h
    simpa [emailKey] using this
  have htag : tag.toList = tag'.toList := by
    rw [← takeWhile_tag ht m, hlist, takeWhile_tag ht' n]
  rw [htag, List.append_cancel_left_eq] at hlist
  exact ⟨String.toList_inj.1 htag, eq_of_toList_toString hlist⟩

/-- A key with a number has a digit. -/
theorem not_noDigits_emailKey (tag : String) (n : Nat) : ¬ NoDigits (emailKey tag n) := by
  intro h
  obtain ⟨c, s, hn, hc⟩ := exists_toString_cons n
  have hmem : c ∈ (emailKey tag n).toList := by
    rw [emailKey, String.toList_append, hn]
    simp
  rw [h c hmem] at hc
  cases hc

theorem hasEmailStem_emailKey (tag : String) (n : Nat) : HasEmailStem (emailKey tag n) := by
  simp [HasEmailStem, emailKey]

namespace Query

/-! ## The three parts of an address -/

/-- What the keys of a number say of an address. -/
inductive AddressPart where
  | address
  | matchType
  | role
  deriving DecidableEq, Repr

namespace AddressPart

/-- What stands between `email` and the number, for the address of this role. -/
def tag (role : String) : AddressPart → String
  | .address => ""
  | .matchType => "type"
  | .role => role

def value (address matchType : String) : AddressPart → PayloadValue
  | .address => .text address
  | .matchType => .text matchType
  | .role => .bool true

/-- The name can stand in a key of an address. -/
structure RoleName (name : String) : Prop where
  noDigits : NoDigits name
  ne_empty : name ≠ ""
  ne_type : name ≠ "type"

theorem roleName_of_mem {o : SearchOption} (ho : o ∈ roleOptions) : RoleName o.name := by
  have hall : ∀ o ∈ roleOptions, NoDigits o.name ∧ o.name ≠ "" ∧ o.name ≠ "type" := by
    decide +kernel
  obtain ⟨hdigits, hempty, htype⟩ := hall o ho
  exact ⟨hdigits, hempty, htype⟩

theorem noDigits_tag {role : String} (h : RoleName role) (part : AddressPart) :
    NoDigits (part.tag role) := by
  cases part with
  | address => exact (by decide : NoDigits "")
  | matchType => exact (by decide : NoDigits "type")
  | role => exact h.noDigits

theorem tag_injective {role : String} (h : RoleName role) {part part' : AddressPart}
    (he : part.tag role = part'.tag role) : part = part' := by
  cases part <;> cases part' <;> simp [tag, h.ne_empty, h.ne_type, Ne.symm h.ne_empty,
    Ne.symm h.ne_type] at he ⊢

end AddressPart

open AddressPart

theorem mem_indexedRole {n : Nat} {role address matchType k : String} {v : PayloadValue} :
    (k, v) ∈ indexedRole n role address matchType ↔
      (∃ part : AddressPart, k = emailKey (part.tag role) n ∧ v = part.value address matchType) ∨
        (k, v) = advancedMark := by
  simp only [indexedRole, List.mem_cons, List.not_mem_nil, or_false, Prod.mk.injEq]
  constructor
  · intro hcases
    rcases hcases with ⟨rfl, rfl⟩ | ⟨rfl, rfl⟩ | ⟨rfl, rfl⟩ | hmark
    · exact .inl ⟨.address, rfl, rfl⟩
    · exact .inl ⟨.matchType, rfl, rfl⟩
    · exact .inl ⟨.role, rfl, rfl⟩
    · exact .inr hmark
  · intro hcases
    rcases hcases with ⟨part, rfl, rfl⟩ | hmark
    · cases part with
      | address => exact .inl ⟨rfl, rfl⟩
      | matchType => exact .inr (.inl ⟨rfl, rfl⟩)
      | role => exact .inr (.inr (.inl ⟨rfl, rfl⟩))
    · exact .inr (.inr (.inr hmark))

/-- A name in the list of addresses is that of a role. -/
theorem roleName_of_addresses {q : Query} {role address : String}
    (h : (role, address) ∈ q.addresses) : RoleName role := by
  obtain ⟨o, ho, rfl, -⟩ := given_of_mem_addresses h
  exact roleName_of_mem ho

/-- A key of an address belongs to one part of one address. -/
theorem part_injective {q : Query} {i j : Nat} {x y : String × String} {part part' : AddressPart}
    (hx : q.addresses[i]? = some x) (hy : q.addresses[j]? = some y)
    (h : emailKey (part.tag x.1) (1 + i) = emailKey (part'.tag y.1) (1 + j)) :
    x = y ∧ part = part' := by
  have hrole := roleName_of_addresses (List.mem_of_getElem? hx)
  have hrole' := roleName_of_addresses (List.mem_of_getElem? hy)
  obtain ⟨htag, hn⟩ := emailKey_injective (noDigits_tag hrole part) (noDigits_tag hrole' part') h
  obtain rfl : i = j := by omega
  obtain rfl := Option.some.inj (hx.symm.trans hy)
  exact ⟨rfl, tag_injective hrole htag⟩

theorem addressEntries_functional {q : Query} {k : String} {v w : PayloadValue}
    (hk : HasEmailStem k) (hv : (k, v) ∈ addressEntries q.matchType 1 q.addresses)
    (hw : (k, w) ∈ addressEntries q.matchType 1 q.addresses) : v = w := by
  have hmark : ∀ x : PayloadValue, (k, x) ≠ advancedMark := by
    rintro x he
    rw [show k = advancedMark.1 from congrArg Prod.fst he] at hk
    exact absurd hk (by decide)
  obtain ⟨i, role, address, hi, hx⟩ := mem_addressEntries.1 hv
  obtain ⟨j, role', address', hj, hy⟩ := mem_addressEntries.1 hw
  obtain ⟨part, rfl, rfl⟩ := (mem_indexedRole.1 hx).resolve_right (hmark v)
  obtain ⟨part', hkey, rfl⟩ := (mem_indexedRole.1 hy).resolve_right (hmark w)
  obtain ⟨hsame, rfl⟩ := part_injective hi hj hkey
  cases hsame
  rfl

/-! ## The roles that are given -/

/-- The roles that are given, in the order in which they are numbered. -/
def suppliedRoles (q : Query) : List SearchOption :=
  roleOptions.filter fun o => (q.given? o).isSome

theorem filterMap_addressGiven? {q : Query} : ∀ {os : List SearchOption},
    (∀ o ∈ os, ∀ v, q.given? o = some v → ∃ address, v = .text address) →
    os.filterMap q.addressGiven? = (os.filter fun o => (q.given? o).isSome).map fun o =>
      (o.name, ((q.given? o).bind OptionValue.text?).getD "")
  | [], _ => rfl
  | o :: os, h => by
    have ih := filterMap_addressGiven? fun a ha => h a (List.mem_cons_of_mem o ha)
    cases hv : q.given? o with
    | none =>
      rw [List.filterMap_cons_none (by simp [addressGiven?, hv]), ih,
        List.filter_cons_of_neg (by simp [hv])]
    | some v =>
      obtain ⟨address, rfl⟩ := h o List.mem_cons_self v hv
      rw [List.filterMap_cons_some (b := (o.name, address))
          (by simp [addressGiven?, hv, OptionValue.text?]), ih,
        List.filter_cons_of_pos (by simp [hv])]
      simp [hv, OptionValue.text?]

/-! ## The payload of a query -/

section

variable {q : Query} {p : Payload} (hb : q.backend = .extendedRolesV4)
  (h : q.compile.result = .ok p)

include hb h

/-- What a payload holds under keys of addresses. -/
theorem get?_email_iff {k : String} (hk : HasEmailStem k) {v : PayloadValue} :
    p.get? k = some v ↔ ∃ i role address, ∃ part : AddressPart,
      q.addresses[i]? = some (role, address) ∧ k = emailKey (part.tag role) (1 + i) ∧
        v = part.value address q.matchType := by
  obtain ⟨m, ha⟩ := exists_addressed hb h
  rw [ha.held k hk, filterMap_addressOf?_order hb,
    SortedMap.get?_ofList_eq_some_iff fun _ _ => addressEntries_functional hk]
  constructor
  · intro hmem
    obtain ⟨i, role, address, hi, hx⟩ := mem_addressEntries.1 hmem
    rcases mem_indexedRole.1 hx with ⟨part, hkey, hv⟩ | hmark
    · exact ⟨i, role, address, part, hi, hkey, hv⟩
    · rw [show k = advancedMark.1 from congrArg Prod.fst hmark] at hk
      exact absurd hk (by decide)
  · intro hex
    obtain ⟨i, role, address, part, hi, hkey, hv⟩ := hex
    exact mem_addressEntries.2 ⟨i, role, address, hi, mem_indexedRole.2 (.inl ⟨part, hkey, hv⟩)⟩

/-- A role that is given has an address. -/
theorem exists_address_of_given {o : SearchOption} (ho : o ∈ roleOptions) {v : OptionValue}
    (hv : q.given? o = some v) : ∃ address, v = .text address := by
  obtain ⟨m, ha⟩ := exists_addressed hb h
  have hh := mem_roleOptions.1 ho
  have hsome := ha.given o (Backend.mem_order_of_email hh) ⟨hh, Option.isSome_of_eq_some hv⟩
  cases v with
  | text address => exact ⟨address, rfl⟩
  | _ => simp [addressOf?, hh, addressGiven?, hv, OptionValue.text?] at hsome

/-- The addresses are numbered as the roles are that are given. -/
theorem addresses_eq : q.addresses = q.suppliedRoles.map fun o =>
    (o.name, ((q.given? o).bind OptionValue.text?).getD "") :=
  filterMap_addressGiven? fun _ ho _ hv => exists_address_of_given hb h ho hv

theorem getElem?_addresses {i : Nat} {o : SearchOption} (hi : q.suppliedRoles[i]? = some o) :
    ∃ address, q.given? o = some (.text address) ∧ q.addresses[i]? = some (o.name, address) := by
  obtain ⟨ho, hgiven⟩ := List.mem_filter.1 (List.mem_of_getElem? hi)
  obtain ⟨v, hv⟩ := Option.isSome_iff_exists.1 hgiven
  obtain ⟨address, rfl⟩ := exists_address_of_given hb h ho hv
  refine ⟨address, hv, ?_⟩
  rw [addresses_eq hb h, List.getElem?_map, hi]
  simp [hv, OptionValue.text?]

/-- Each part of a role's address is there under its key. -/
theorem get?_part {i : Nat} {o : SearchOption} (hi : q.suppliedRoles[i]? = some o) :
    ∃ address, q.given? o = some (.text address) ∧ ∀ part : AddressPart,
      p.get? (emailKey (part.tag o.name) (i + 1)) = some (part.value address q.matchType) := by
  obtain ⟨address, hv, ha⟩ := getElem?_addresses hb h hi
  refine ⟨address, hv, fun part => ?_⟩
  rw [Nat.add_comm i 1]
  exact (get?_email_iff hb h (hasEmailStem_emailKey _ _)).2
    ⟨i, o.name, address, part, ha, rfl, rfl⟩

theorem getElem?_suppliedRoles {i : Nat} {role address : String}
    (hi : q.addresses[i]? = some (role, address)) :
    ∃ o, q.suppliedRoles[i]? = some o ∧ o.name = role := by
  rw [addresses_eq hb h, List.getElem?_map] at hi
  obtain ⟨o, ho, hpair⟩ := Option.map_eq_some_iff.1 hi
  cases hpair
  exact ⟨o, ho, rfl⟩

/-- The address of a role, read off the payload: the number under which the role is named leads
to the address. -/
theorem given?_iff_of_compile {o : SearchOption} (ho : o ∈ roleOptions) {address : String} :
    q.given? o = some (.text address) ↔ ∃ n, p.get? (emailKey o.name n) = some (.bool true) ∧
      p.get? (emailKey "" n) = some (.text address) := by
  have hname := roleName_of_mem ho
  constructor
  · intro hv
    have hmem : o ∈ q.suppliedRoles := List.mem_filter.2 ⟨ho, by simp [hv]⟩
    obtain ⟨i, hi⟩ := List.mem_iff_getElem?.1 hmem
    obtain ⟨address', hv', hparts⟩ := get?_part hb h hi
    obtain rfl : address' = address := by simpa [hv] using hv'.symm
    exact ⟨i + 1, hparts .role, hparts .address⟩
  · intro hex
    obtain ⟨n, hrole, haddress⟩ := hex
    obtain ⟨i, role, address₁, part, hi, hkey, -⟩ :=
      (get?_email_iff hb h (hasEmailStem_emailKey _ _)).1 hrole
    obtain ⟨j, role', address₂, part', hj, hkey', hvalue⟩ :=
      (get?_email_iff hb h (hasEmailStem_emailKey _ _)).1 haddress
    have hr := roleName_of_addresses (List.mem_of_getElem? hi)
    have hr' := roleName_of_addresses (List.mem_of_getElem? hj)
    obtain ⟨htag, rfl⟩ := emailKey_injective hname.noDigits (noDigits_tag hr part) hkey
    obtain ⟨htag', hn⟩ := emailKey_injective (by decide) (noDigits_tag hr' part') hkey'
    obtain rfl : i = j := by omega
    rw [hi] at hj
    cases hj
    have htags : part'.tag role = AddressPart.address.tag role := htag'.symm
    obtain rfl := tag_injective hr htags
    cases hvalue
    -- the tag of a role is neither empty nor `type`, so it is the name
    cases part with
    | address => exact absurd htag hname.ne_empty
    | matchType => exact absurd htag hname.ne_type
    | role =>
      obtain ⟨o', -, hname', hv⟩ := given_of_mem_addresses (List.mem_of_getElem? hi)
      rwa [SearchOption.name_injective (htag.trans hname'.symm)]

/-- A match type that is given is a text, and else there is the default. -/
theorem given?_emailType :
    q.given? .emailType = some (.text q.matchType) ∨
      q.given? .emailType = none ∧ q.matchType = "substring" := by
  obtain ⟨-, e, m, he, -⟩ := exists_editAll_of_compile h
  have horder : SearchOption.emailType ∈ q.backend.order := by
    rw [hb]
    decide
  have hpass := verdict_of_editAll (fun _ ho => ho) he .emailType horder
  obtain ⟨s, hs⟩ := exists_modifierText hpass
  have hmatch : q.matchType = s := getD_text_of_modifierText hs
  cases hv : q.given? .emailType with
  | none =>
    rw [modifierText_of_not_given hv] at hs
    exact .inr ⟨rfl, hmatch.trans (Except.ok.inj hs).symm⟩
  | some v =>
    rw [modifierText_of_given hv, textOf_eq_ok] at hs
    exact .inl (by rw [hs, hmatch])

/-- No key is the bare name of a role, or of the match type. -/
theorem get?_roleName_eq_none {k : String}
    (hk : k ∈ "emailtype" :: roleOptions.map SearchOption.name) : p.get? k = none := by
  rcases List.mem_cons.1 hk with rfl | hk
  · refine Option.eq_none_iff_forall_ne_some.2 fun v hv => ?_
    obtain ⟨i, role, address, part, -, hkey, -⟩ := (get?_email_iff hb h (by decide)).1 hv
    exact not_noDigits_emailKey (part.tag role) (1 + i) (hkey ▸ by decide)
  · refine get?_extended_role (q := q) ?_ hk
    rw [on, ← hb]
    exact h

end

/-- The roles that are given have the numbers 1, 2, 3 and so on, in their order. The keys of a
number hold the address, how it is matched, and the role, and a payload has no other keys that
start like these, nor the bare name of a role or of the match type. Two queries with the same
payload give the same addresses to the same roles. -/
theorem compile_roles {q : Query} {p : Payload} (hb : q.backend = .extendedRolesV4)
    (h : q.compile.result = .ok p) :
    (∀ i o, q.suppliedRoles[i]? = some o → ∃ address, q.given? o = some (.text address) ∧
      p.get? ("email" ++ toString (i + 1)) = some (.text address) ∧
      p.get? ("emailtype" ++ toString (i + 1)) = some (.text q.matchType) ∧
      p.get? ("email" ++ o.name ++ toString (i + 1)) = some (.bool true)) ∧
    (q.given? .emailType = some (.text q.matchType) ∨
      q.given? .emailType = none ∧ q.matchType = "substring") ∧
    (∀ k, HasEmailStem k → (p.get? k).isSome = true →
      ∃ i o, q.suppliedRoles[i]? = some o ∧ k ∈ addressKeys (i + 1) o.name) ∧
    (∀ k ∈ "emailtype" :: roleOptions.map SearchOption.name, p.get? k = none) ∧
    ∀ r : Query, r.backend = .extendedRolesV4 → r.compile.result = .ok p →
      ∀ o ∈ roleOptions, r.given? o = q.given? o := by
  refine ⟨fun i o hi => ?_, given?_emailType hb h, fun k hk hsome => ?_,
    fun k hk => get?_roleName_eq_none hb h hk, fun r hrb hr o ho => Option.ext fun v => ?_⟩
  · obtain ⟨address, hv, hparts⟩ := get?_part hb h hi
    exact ⟨address, hv, hparts .address, hparts .matchType, hparts .role⟩
  · obtain ⟨v, hv⟩ := Option.isSome_iff_exists.1 hsome
    obtain ⟨i, role, address, part, hi, rfl, -⟩ := (get?_email_iff hb h hk).1 hv
    obtain ⟨o, ho, rfl⟩ := getElem?_suppliedRoles hb h hi
    refine ⟨i, o, ho, ?_⟩
    rw [Nat.add_comm]
    cases part with
    | address => exact List.mem_cons_self
    | matchType => exact .tail _ List.mem_cons_self
    | role => exact .tail _ (.tail _ List.mem_cons_self)
  · constructor
    · intro hv
      obtain ⟨address, rfl⟩ := exists_address_of_given hrb hr ho hv
      exact (given?_iff_of_compile hb h ho).2 ((given?_iff_of_compile hrb hr ho).1 hv)
    · intro hv
      obtain ⟨address, rfl⟩ := exists_address_of_given hb h ho hv
      exact (given?_iff_of_compile hrb hr ho).2 ((given?_iff_of_compile hb h ho).1 hv)

/-- Two of the roles, the second and the last, with a match type. -/
def assigned : Query where
  backend := .extendedRolesV4
  options := SortedMap.ofList [("assigned_to", .text "a@example.com"), ("emailtype", .text "exact"),
    ("qa_contact", .text "q@example.com")]
  files := .none

theorem compile_roles_assigned :
    assigned.compile.result = .ok (assigned.compileOnto .empty).payload ∧
    assigned.suppliedRoles[1]? = some .qaContact ∧
    (∃ address, assigned.given? .qaContact = some (.text address) ∧
      (assigned.compileOnto .empty).payload.get? "email2" = some (.text address)) ∧
    (assigned.compileOnto .empty).payload.get? "qa_contact" = none := by
  have h : assigned.compile.result = .ok (assigned.compileOnto .empty).payload := by rfl
  obtain ⟨hroles, -, -, hnames, -⟩ := compile_roles rfl h
  have hi : assigned.suppliedRoles[1]? = some .qaContact := by rfl
  obtain ⟨address, hv, hp, -, -⟩ := hroles 1 .qaContact hi
  exact ⟨h, hi, ⟨address, hv, hp⟩, hnames _ (by decide)⟩

end Query

end BugQuery
