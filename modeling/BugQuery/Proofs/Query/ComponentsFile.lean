import BugQuery.Proofs.Query.SameEdits
import BugQuery.Proofs.Text.Layout

/-!
# Components from a file

A file may list the components, one a line. It is compiled right after the
components that are given themselves and sets the same key, so it takes their
place: the query is compiled as if it gave the list that the file lays out,
whatever else it asks for and whether it fails or not.

* `editOf_component`, `editOf_componentsFile`: the two options set one key.
* `alike_of_infix`: queries may differ in options in a row whose edits come to the same.
* `compile_componentsFile`: a file of components is compiled like its list.
-/
namespace BugQuery

open FirstFailure

namespace Edit

/-- What is set last counts. -/
theorem set_andThen_set (k : String) (v w : PayloadValue) :
    (set k v).andThen (set k w) = set k w := by
  have hentries : (set k w).apply (set k v).entries = (set k w).entries := by
    refine SortedMap.ext_get? fun x => ?_
    rw [Query.apply_set]
    by_cases hx : k = x <;> simp [set, hx]
  rw [andThen, hentries]
  rfl

theorem setList_andThen_set (k : String) (items : List String) (w : PayloadValue) :
    (setList k items).andThen (set k w) = set k w := by
  cases items with
  | nil => exact none_andThen _
  | cons item items => exact set_andThen_set k _ w

theorem setList_of_ne_nil (k : String) {items : List String} (h : items ≠ []) :
    setList k items = set k (.list items) := by
  cases items with
  | nil => exact absurd rfl h
  | cons item items => rfl

end Edit

namespace Query

/-! ## Two options for one key -/

theorem order_components (b : Backend) : ∃ before after,
    b.order = before ++ ([.component, .componentsFile] ++ after) := by
  cases b <;> exact ⟨[.product], _, rfl⟩

theorem editOf_component {q : Query} {v : OptionValue} {items : List String}
    (hv : q.given? .component = some v) (hitems : v.toList? = some items) (n : Numbering) :
    q.editOf .component n = .ok (.setList "component" items, n) := by
  have hw : q.backend.wireName SearchOption.component.name = .ok "component" := by
    cases q.backend <;> rfl
  exact editOf_of_list rfl hw hv hitems n

theorem editOf_componentsFile {q : Query} {path content : String}
    (hv : q.given? .componentsFile = some (.text path)) (hread : q.files.read path = .ok content)
    (n : Numbering) :
    q.editOf .componentsFile n = .ok (.setList "component" (entriesOf '\n' content), n) := by
  have hw : q.backend.wireName SearchOption.componentsFile.name = .ok "component" := by
    cases q.backend <;> rfl
  exact editOf_of_file rfl hw hv hread n

theorem mem_keys_giving {q : Query} {x : SearchOption} (hx : x.handling.ownsKeys = true)
    (v : OptionValue) {name : String} (hname : q.backend.supportsName name = false) :
    name ∈ (q.giving x v).options.keys ↔ name ∈ q.options.keys :=
  mem_keys_of_differsIn (q.differsIn_insert x v) (.inl (Backend.mem_order_of_ownsKeys hx)) name
    hname

theorem editOf_giving_of_ne {q : Query} {x o : SearchOption} {v : OptionValue}
    (hx : x.handling.ownsKeys = true) (ho : o ≠ x) (n : Numbering) :
    (q.giving x v).editOf o n = q.editOf o n :=
  editOf_of_differsIn hx (q.differsIn_insert x v) ho n

/-- Queries are compiled alike where only options in a row differ, if their edits are made and
come to the same. -/
theorem alike_of_infix {q r : Query} {before mid after : List SearchOption}
    (hb : r.backend = q.backend)
    (hnames : ∀ name, q.backend.supportsName name = false →
      (name ∈ r.options.keys ↔ name ∈ q.options.keys))
    (horder : q.backend.order = before ++ (mid ++ after))
    (hothers : ∀ o ∈ q.backend.order, o ∉ mid → ∀ n, r.editOf o n = q.editOf o n)
    (hmid : ∀ n, ∃ e m, q.editAll mid n = .ok (e, m) ∧ r.editAll mid n = .ok (e, m))
    (p : Payload) : Alike p q r := by
  have hnodup := nodup_order q.backend
  rw [horder] at hnodup
  obtain ⟨-, hrest, hbefore⟩ := List.nodup_append.1 hnodup
  obtain ⟨-, -, hafter⟩ := List.nodup_append.1 hrest
  refine alike_of_runFrom hb hnames (fun s => ?_) p
  rw [horder]
  refine runFrom_append_congr (fun t => ?_) fun o ho n => ?_
  · obtain ⟨e, m, hq, hr⟩ := hmid t.numbering
    rw [q.runFrom_append after hq, r.runFrom_append after hr]
    refine runFrom_congr (fun bs o cs n hsplit _ => ?_) fun o ho => ?_
    · have ho : o ∈ after := by rw [hsplit]; simp
      exact hothers o (by simp [horder, ho]) (fun hmem => hafter o hmem o ho rfl) n
    · simp [horder, ho]
  · exact hothers o (by simp [horder, ho]) (fun hmem => hbefore o ho o (by simp [hmem]) rfl) n

/-! ## A whole compilation -/

section

variable {q : Query} {names : List String} {path content : String}

/-- The two options in a row come to the list of names. -/
theorem editAll_of_file (hnames : names ≠ []) (hread : q.files.read path = .ok content)
    (hcontent : entriesOf '\n' content = names)
    (hcomponent : ∀ v, q.given? .component = some v → ∃ items, v.toList? = some items)
    (n : Numbering) :
    (q.giving .componentsFile (.text path)).editAll [.component, .componentsFile] n =
      .ok (.set "component" (.list names), n) := by
  have hfile := editOf_componentsFile (q.given?_giving_self .componentsFile (.text path)) hread n
  rw [hcontent, Edit.setList_of_ne_nil "component" hnames] at hfile
  have hgiven := q.given?_giving_of_ne (by decide : SearchOption.component ≠ .componentsFile)
    (.text path)
  cases hv : q.given? .component with
  | none =>
    rw [editAll_cons_of_ok (editOf_of_not_given (hgiven.trans hv) n), editAll_singleton, hfile]
    simp [Except.map]
  | some v =>
    obtain ⟨items, hitems⟩ := hcomponent v hv
    rw [editAll_cons_of_ok (editOf_component (hgiven.trans hv) hitems n), editAll_singleton, hfile]
    simp [Except.map, Edit.setList_andThen_set]

theorem editAll_of_list (hnames : names ≠ []) (hfile : q.given? .componentsFile = none)
    (n : Numbering) : (q.giving .component (.list names)).editAll [.component, .componentsFile] n =
      .ok (.set "component" (.list names), n) := by
  have hlist := editOf_component (q.given?_giving_self .component (.list names)) rfl n
  rw [Edit.setList_of_ne_nil "component" hnames] at hlist
  have hgiven := q.given?_giving_of_ne (by decide : SearchOption.componentsFile ≠ .component)
    (.list names)
  rw [editAll_cons_of_ok hlist, editAll_singleton, editOf_of_not_given (hgiven.trans hfile)]
  simp [Except.map]

/-- A file of components is compiled like the list of the names in it, which it may lay out with
blanks around the names, blank lines, and line ends of either kind. A component that is given as
well does not matter, so long as it is a text or a list. The two queries end in the same way, with
the same payload or with the same error, and they leave the same payload if they are compiled onto
one. -/
theorem compile_componentsFile (hne : names ≠ [])
    (hnames : ∀ x ∈ names, x ≠ "" ∧ Text.Trimmed x.toList ∧ '\n' ∉ x.toList)
    (hread : q.files.read path = .ok content)
    (hlayout : Text.Layout (names.map String.toList) content.toList)
    (hfile : q.given? .componentsFile = none)
    (hcomponent : ∀ v, q.given? .component = some v →
      (∃ s, v = .text s) ∨ ∃ items, v = .list items) :
    (q.giving .componentsFile (.text path)).compile.result =
        (q.giving .component (.list names)).compile.result ∧
      ∀ p, Alike p (q.giving .component (.list names)) (q.giving .componentsFile (.text path)) := by
  have hcontent : entriesOf '\n' content = names := by
    have hentries := Text.entries_of_layout (List.forall_mem_map.2 fun x hx => ?_) hlayout
    · rw [entriesOf, hentries, List.map_map]
      simp [Function.comp_def]
    · obtain ⟨hempty, hx⟩ := hnames x hx
      exact ⟨fun h => hempty (String.toList_eq_nil_iff.1 h), hx⟩
  have htexts : ∀ v, q.given? .component = some v → ∃ items, v.toList? = some items := by
    intro v hv
    obtain ⟨s, rfl⟩ | ⟨items, rfl⟩ := hcomponent v hv
    · exact ⟨[s], rfl⟩
    · exact ⟨items, rfl⟩
  obtain ⟨before, after, horder⟩ := order_components q.backend
  have halike : ∀ p, Alike p (q.giving .component (.list names))
      (q.giving .componentsFile (.text path)) := by
    refine alike_of_infix rfl (fun name hname => ?_) horder (fun o _ ho n => ?_) fun n => ?_
    · rw [q.mem_keys_giving rfl (.text path) hname, q.mem_keys_giving rfl (.list names) hname]
    · rw [List.mem_cons, List.mem_singleton, not_or] at ho
      rw [editOf_giving_of_ne rfl ho.2, editOf_giving_of_ne rfl ho.1]
    · exact ⟨_, n, editAll_of_list hne hfile n, editAll_of_file hne hread hcontent htexts n⟩
  exact ⟨(halike .empty).result_compile, halike⟩

end

/-- Two components, with a blank line between them and line ends of both kinds. -/
def listedFile : Query where
  backend := .genericV4
  options := SortedMap.ofList [("component", .text "kernel"), ("version", .text "rawhide")]
  files := { read := fun _ => .ok "glibc \r\n\n\tgcc core", isFile := fun _ => true }

theorem compile_componentsFile_listedFile :
    (∀ x ∈ ["glibc", "gcc core"], x ≠ "" ∧ Text.Trimmed x.toList ∧ '\n' ∉ x.toList) ∧
    Text.Layout (["glibc", "gcc core"].map String.toList) "glibc \r\n\n\tgcc core".toList ∧
    (listedFile.giving .componentsFile (.text "names.txt")).compile.result =
      (listedFile.giving .component (.list ["glibc", "gcc core"])).compile.result ∧
    ∃ p, (listedFile.giving .componentsFile (.text "names.txt")).compile.result = .ok p ∧
      p.get? "component" = some (.list ["glibc", "gcc core"]) := by
  have hnames : ∀ x ∈ ["glibc", "gcc core"],
      x ≠ "" ∧ Text.Trimmed x.toList ∧ '\n' ∉ x.toList := by
    simp only [Text.trimmed_iff]
    decide
  have hlayout : Text.Layout (["glibc", "gcc core"].map String.toList)
      "glibc \r\n\n\tgcc core".toList := by
    have hentries : Text.entries '\n' "glibc \r\n\n\tgcc core".toList =
        ["glibc", "gcc core"].map String.toList := by decide
    exact hentries ▸ Text.layout_entries _
  have hread : listedFile.files.read "names.txt" = .ok "glibc \r\n\n\tgcc core" := rfl
  obtain ⟨hsame, -⟩ := compile_componentsFile (List.cons_ne_nil _ _) hnames hread hlayout
    (by decide +kernel)
    fun v hv => .inl ⟨"kernel", Option.some.inj (hv.symm.trans (by decide +kernel))⟩
  exact ⟨hnames, hlayout, hsame, _, rfl, by decide +kernel⟩

end Query

end BugQuery
