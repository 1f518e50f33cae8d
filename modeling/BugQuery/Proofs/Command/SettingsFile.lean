import BugQuery.Command.Settings
import BugQuery.Proofs.Toml.Lines

/-!
# What a settings file gives

A settings file has two keys at most: `backend`, whose value names a backend,
and `defaults`, a table of options. A key that is not there leaves the
settings as they are, and any other key spoils the file. A file that was
asked for has to be there; the usual one is passed over where it is no file.

* `foldlM_add_eq_some`: the settings that the entries of a document come to.
* `ofToml?_eq_some`: the settings that a text gives.
* `FileGives`, `LoadGives`, `result_loadOrDefault_eq_iff`: what loading settings comes to, in
  every case.
* `gives_of_writes`, `exists_writes`: any settings can be given by a file.
-/
namespace BugQuery.Settings

open Toml (Node Entries)

/-! ## Values -/

/-- The node holds `name`: as a text, or as the one key, without content, of a table. -/
inductive Holds (name : String) : Node → Prop where
  | text : Holds name (.setting (.text name))
  | table (outer inner : Toml.Origin) : Holds name (.table outer [(name, .table inner [])])
  | list (origin : Toml.Origin) : Holds name (.table origin [(name, .setting (.list []))])

/-- The node names the backend: by its name as it is written, or by an alias. -/
def NamesBackend (n : Node) (b : Backend) : Prop :=
  ∃ name, Holds name n ∧ name ∈ b.name :: b.aliases

/-- The node is a table of the options `o`. -/
def HoldsOptions (n : Node) (o : OptionSet) : Prop :=
  ∃ (origin : Toml.Origin) (sub : Entries), n = .table origin sub ∧ sub.Hold o

theorem backend?_eq_some {n : Node} {b : Backend} : backend? n = some b ↔ NamesBackend n b := by
  simp only [NamesBackend, ← Backend.ofExactName?_eq_some]
  constructor
  · intro h
    unfold backend? at h
    split at h
    · exact ⟨_, .text, h⟩
    · exact ⟨_, .table _ _, h⟩
    · exact ⟨_, .list _, h⟩
    · cases h
  · intro hex
    obtain ⟨name, hname, h⟩ := hex
    cases hname <;> exact h

theorem defaults?_eq_some {n : Node} (hn : n.Distinct) {o : OptionSet} :
    defaults? n = some o ↔ HoldsOptions n o := by
  cases hn with
  | setting v => simp [defaults?, HoldsOptions]
  | table origin hkeys hvalues =>
    simp [defaults?, HoldsOptions, Entries.toOptionSet?_eq_some ⟨hkeys, hvalues⟩]

/-! ## Entries -/

/-- What the entries have under `key` stands for `a`, and where they have no such key, `a` is
what there was. -/
structure Under {α : Type} (stands : Node → α → Prop) (key : String) (es : Entries)
    (before a : α) : Prop where
  given : ∀ n, (key, n) ∈ es → stands n a
  missing : (∀ n, (key, n) ∉ es) → a = before

section

variable {α : Type} {stands : Node → α → Prop} {key k : String} {n : Node} {es : Entries}
  {before a : α}

theorem under_of_not_mem (h : ∀ n, (key, n) ∉ es) : Under stands key es before a ↔ a = before := by
  constructor
  · intro hu
    exact hu.missing h
  · intro ha
    exact ⟨fun n hn => absurd hn (h n), fun _ => ha⟩

/-- An entry of the key decides, where there is no further one. -/
theorem under_cons_self (h : ∀ m, (key, m) ∉ es) :
    Under stands key ((key, n) :: es) before a ↔ stands n a := by
  constructor
  · intro hu
    exact hu.given n List.mem_cons_self
  · intro hn
    refine ⟨fun m hm => ?_, fun hno => absurd List.mem_cons_self (hno n)⟩
    rcases List.mem_cons.1 hm with heq | hm
    · obtain ⟨-, rfl⟩ := Prod.mk.inj heq
      exact hn
    · exact absurd hm (h m)

theorem under_cons_of_ne (h : key ≠ k) :
    Under stands key ((k, n) :: es) before a ↔ Under stands key es before a := by
  have hmem : ∀ m, (key, m) ∈ (k, n) :: es ↔ (key, m) ∈ es := fun m => by simp [h]
  constructor
  · intro hu
    exact ⟨fun m hm => hu.given m ((hmem m).2 hm),
      fun hno => hu.missing fun m hm => hno m ((hmem m).1 hm)⟩
  · intro hu
    exact ⟨fun m hm => hu.given m ((hmem m).1 hm),
      fun hno => hu.missing fun m hm => hno m ((hmem m).2 hm)⟩

end

/-- The entries are those of a settings file, and make `s` of the settings `s₀`. -/
structure Tree (s₀ : Settings) (es : Entries) (s : Settings) : Prop where
  known : ∀ e ∈ es, e.1 = "backend" ∨ e.1 = "defaults"
  backend : Under (fun n b => ∃ c, NamesBackend n c ∧ b = some c) "backend" es s₀.backend s.backend
  defaults : Under HoldsOptions "defaults" es s₀.defaults s.defaults

theorem add_eq_some {s s' : Settings} {k : String} {n : Node} : s.add (k, n) = some s' ↔
    (k = "backend" ∧ ∃ b, backend? n = some b ∧ { s with backend := some b } = s') ∨
    (k = "defaults" ∧ ∃ o, defaults? n = some o ∧ { s with defaults := o } = s') := by
  unfold add
  split
  · rename_i h
    cases h
    simp
  · rename_i h
    cases h
    simp
  · rename_i hb hd
    have hb' : k ≠ "backend" := fun h => hb n (by rw [h])
    have hd' : k ≠ "defaults" := fun h => hd n (by rw [h])
    simp [hb', hd']

/-- What is added one after the other is what the entries have under the two keys. -/
theorem foldlM_add_eq_some {es : Entries} (h : es.Distinct) {s₀ s : Settings} :
    es.foldlM add s₀ = some s ↔ Tree s₀ es s := by
  induction es generalizing s₀ with
  | nil =>
    have hnone : ∀ (k : String) (n : Node), (k, n) ∉ ([] : Entries) := fun _ _ => List.not_mem_nil
    rw [List.foldlM_nil]
    constructor
    · intro heq
      cases heq
      exact ⟨List.forall_mem_nil _, (under_of_not_mem (hnone _)).2 rfl,
        (under_of_not_mem (hnone _)).2 rfl⟩
    · intro tree
      obtain ⟨b, o⟩ := s
      obtain rfl : b = s₀.backend := (under_of_not_mem (hnone _)).1 tree.backend
      obtain rfl : o = s₀.defaults := (under_of_not_mem (hnone _)).1 tree.defaults
      rfl
  | cons e es ih =>
    obtain ⟨k, n⟩ := e
    -- the key comes once, so the entries behind this one leave what it sets
    have hfurther := h.not_mem_tail
    have hn : n.Distinct := h.values (k, n) List.mem_cons_self
    simp only [List.foldlM_cons, Option.bind_eq_bind, Option.bind_eq_some_iff, add_eq_some,
      backend?_eq_some, defaults?_eq_some hn, ih h.tail]
    constructor
    · intro hex
      obtain ⟨s₁, ⟨rfl, b, hb, rfl⟩ | ⟨rfl, o, ho, rfl⟩, tree⟩ := hex
      · have hs : s.backend = some b := (under_of_not_mem hfurther).1 tree.backend
        exact ⟨List.forall_mem_cons.2 ⟨.inl rfl, tree.known⟩, (under_cons_self hfurther).2 ⟨b, hb, hs⟩,
          (under_cons_of_ne (by decide)).2 tree.defaults⟩
      · have hs : s.defaults = o := (under_of_not_mem hfurther).1 tree.defaults
        subst hs
        exact ⟨List.forall_mem_cons.2 ⟨.inr rfl, tree.known⟩,
          (under_cons_of_ne (by decide)).2 tree.backend, (under_cons_self hfurther).2 ho⟩
    · intro tree
      have hknown := List.forall_mem_cons.1 tree.known
      rcases hknown.1 with rfl | rfl
      · obtain ⟨b, hb, hs⟩ := (under_cons_self hfurther).1 tree.backend
        exact ⟨_, .inl ⟨rfl, b, hb, rfl⟩, hknown.2, (under_of_not_mem hfurther).2 hs,
          (under_cons_of_ne (by decide)).1 tree.defaults⟩
      · have ho := (under_cons_self hfurther).1 tree.defaults
        exact ⟨_, .inr ⟨rfl, s.defaults, ho, rfl⟩, hknown.2,
          (under_cons_of_ne (by decide)).1 tree.backend, (under_of_not_mem hfurther).2 rfl⟩

/-! ## Texts and files -/

/-- The text is a settings file for `s`. -/
def Gives (text : String) (s : Settings) : Prop :=
  ∃ es, Toml.document? text = some es ∧ Tree {} es s

theorem ofToml?_eq_some {text : String} {s : Settings} : ofToml? text = some s ↔ Gives text s := by
  rw [ofToml?, Option.bind_eq_some_iff]
  constructor
  · intro hex
    obtain ⟨es, hes, hs⟩ := hex
    exact ⟨es, hes, (foldlM_add_eq_some (Toml.distinct_of_document? hes)).1 hs⟩
  · intro hex
    obtain ⟨es, hes, hs⟩ := hex
    exact ⟨es, hes, (foldlM_add_eq_some (Toml.distinct_of_document? hes)).2 hs⟩

theorem ofToml?_eq_none {text : String} : ofToml? text = none ↔ ∀ s, ¬ Gives text s := by
  simp only [Option.eq_none_iff_forall_ne_some, ne_eq, ofToml?_eq_some]

/-- What comes of the settings file at `path`. -/
inductive FileGives (files : Files) (path : String) : Except CommandError Settings → Prop where
  | unreadable {cause : ReadError} (h : files.read path = .error cause) :
      FileGives files path (.error (.configRead path cause))
  | settings {text : String} {s : Settings} (h : files.read path = .ok text) (hs : Gives text s) :
      FileGives files path (.ok s)
  | other {text : String} (h : files.read path = .ok text) (hno : ∀ s, ¬ Gives text s) :
      FileGives files path (.error (.configSyntax path))

/-- What comes of the file that was asked for, or else of the usual one. -/
inductive LoadGives (files : Files) :
    Option String → Option String → Except CommandError Settings → Prop where
  | asked {usual : Option String} {path : String} {r : Except CommandError Settings}
      (h : FileGives files path r) : LoadGives files usual (some path) r
  | usual {path : String} {r : Except CommandError Settings} (hfile : files.isFile path = true)
      (h : FileGives files path r) : LoadGives files (some path) none r
  | nothing {usual : Option String} (hno : ∀ path, usual = some path → files.isFile path = false) :
      LoadGives files usual none (.ok {})

section

variable {files : Files} {path : String} {usual config : Option String}
  {r : Except CommandError Settings}

theorem result_load_of_read {text : String} (h : files.read path = .ok text) :
    (load files path).result = (ofToml? text).elim (.error (.configSyntax path)) .ok := by
  simp only [load, h]
  cases ofToml? text <;> rfl

theorem fileGives_load (files : Files) (path : String) :
    FileGives files path (load files path).result := by
  cases h : files.read path with
  | error cause =>
    simp only [load, h]
    exact .unreadable h
  | ok text =>
    rw [result_load_of_read h]
    cases hs : ofToml? text with
    | some s => exact .settings h (ofToml?_eq_some.1 hs)
    | none => exact .other h (ofToml?_eq_none.1 hs)

theorem FileGives.eq_load (h : FileGives files path r) : (load files path).result = r := by
  cases h with
  | unreadable h =>
    simp only [load, h]
    rfl
  | settings h hs => rw [result_load_of_read h, ofToml?_eq_some.2 hs, Option.elim_some]
  | other h hno => rw [result_load_of_read h, ofToml?_eq_none.2 hno, Option.elim_none]

theorem result_load_eq_iff : (load files path).result = r ↔ FileGives files path r := by
  constructor
  · rintro rfl
    exact fileGives_load files path
  · exact FileGives.eq_load

theorem result_loadOrDefault_eq_iff :
    (loadOrDefault files usual config).result = r ↔ LoadGives files usual config r := by
  constructor
  · rintro rfl
    cases config with
    | some path => exact .asked (result_load_eq_iff.1 rfl)
    | none =>
      cases usual with
      | none => exact .nothing (by simp)
      | some path =>
        simp only [loadOrDefault]
        by_cases hfile : files.isFile path = true
        · rw [if_pos hfile]
          exact .usual hfile (result_load_eq_iff.1 rfl)
        · rw [if_neg hfile]
          exact .nothing (by simpa using hfile)
  · intro h
    cases h with
    | asked h => exact result_load_eq_iff.2 h
    | usual hfile h =>
      simp only [loadOrDefault, if_pos hfile]
      exact result_load_eq_iff.2 h
    | nothing hno =>
      cases usual with
      | none => rfl
      | some path => simp [loadOrDefault, hno path rfl]

end

/-! ## Files written from settings -/

/-- The lines that name the backend, if there is one. -/
inductive BackendLine : Option Backend → List (String × OptionValue) → Prop where
  | unnamed : BackendLine none []
  | named {b : Backend} {name : String} (h : name ∈ b.name :: b.aliases) :
      BackendLine (some b) [("backend", .text name)]

/-- The text is written from the settings `s`: a line for the backend, and one for each of the
defaults under a header. -/
inductive Writes (s : Settings) (text : String) : Prop where
  | backend {top : List (String × OptionValue)} {ts : List Toml.Token}
      (hb : BackendLine s.backend top) (hs : s.defaults = .empty) (h : Toml.Lines [] top ts)
      (htext : Toml.Spells ts text.toList)
  | defaults {top es : List (String × OptionValue)} {t : Toml.Token} {r ts us : List Toml.Token}
      (hb : BackendLine s.backend top) (ht : Toml.Names t "defaults")
      (htop : Toml.Lines (.openList :: t :: .closeList :: r) top ts)
      (hr : Toml.endOfLine r = some us) (hes : Toml.Lines [] es us)
      (hkeys : (es.map Prod.fst).Nodup) (hs : SortedMap.ofList es = s.defaults)
      (htext : Toml.Spells ts text.toList)

theorem BackendLine.nodup_keys {b : Option Backend} {top : List (String × OptionValue)}
    (h : BackendLine b top) : (top.map Prod.fst).Nodup := by
  cases h <;> simp

theorem BackendLine.defaults_not_mem {b : Option Backend} {top : List (String × OptionValue)}
    (h : BackendLine b top) : "defaults" ∉ top.map Prod.fst := by
  cases h <;> simp

/-- The line for the backend adds it to what the other entries come to. -/
theorem BackendLine.tree {s : Settings} {top : List (String × OptionValue)}
    (h : BackendLine s.backend top) {rest : Entries} (hrest : ∀ e ∈ rest, e.1 = "defaults")
    (hdefaults : Under HoldsOptions "defaults" rest .empty s.defaults) :
    Tree {} (Entries.ofSettings top ++ rest) s := by
  obtain ⟨b, o⟩ := s
  have hbackend : ∀ n, ("backend", n) ∉ rest := fun n hn => absurd (hrest _ hn) (by simp)
  cases h with
  | unnamed =>
    exact ⟨fun e he => .inr (hrest e he), (under_of_not_mem hbackend).2 rfl, hdefaults⟩
  | @named b name hname =>
    exact ⟨List.forall_mem_cons.2 ⟨.inl rfl, fun e he => .inr (hrest e he)⟩,
      (under_cons_self hbackend).2 ⟨b, ⟨name, .text, hname⟩, rfl⟩,
      (under_cons_of_ne (by simp)).2 hdefaults⟩

theorem gives_of_writes {s : Settings} {text : String} (h : Writes s text) : Gives text s := by
  cases h with
  | @backend top ts hb hs h htext =>
    have tree := hb.tree (List.forall_mem_nil _)
      ((under_of_not_mem fun _ => List.not_mem_nil).2 hs)
    rw [List.append_nil] at tree
    exact ⟨_, Toml.document?_of_lines h hb.nodup_keys htext, tree⟩
  | @defaults top es t r ts us hb ht htop hr hes hkeys hs htext =>
    have hdocument :=
      Toml.document?_of_header ht htop hr hes hb.nodup_keys hb.defaults_not_mem hkeys htext
    refine ⟨_, hdocument, hb.tree (List.forall_mem_singleton.2 rfl) ?_⟩
    exact (under_cons_self fun _ => List.not_mem_nil).2
      ⟨_, _, rfl, (Toml.hold_ofSettings hkeys).2 hs⟩

theorem exists_backendLine (b : Option Backend) : ∃ top, BackendLine b top := by
  cases b with
  | none => exact ⟨_, .unnamed⟩
  | some b => exact ⟨_, .named List.mem_cons_self⟩

/-- Any settings can be written to a file. -/
theorem exists_writes (s : Settings) : ∃ text, Writes s text := by
  obtain ⟨top, hb⟩ := exists_backendLine s.backend
  obtain ⟨us, hes, hus⟩ := Toml.exists_lines (List.forall_mem_nil _) s.defaults.entries
  have hheader : ∀ t ∈ .openList :: .text "defaults" :: .closeList :: .newline :: us,
      ∃ w, Toml.Spelled t w := by
    simp only [List.forall_mem_cons]
    exact ⟨⟨_, .openList⟩, ⟨_, .text "defaults"⟩, ⟨_, .closeList⟩, ⟨_, .newline⟩, hus⟩
  obtain ⟨ts, htop, hts⟩ := Toml.exists_lines hheader top
  obtain ⟨text, htext⟩ := Toml.exists_spells hts
  refine ⟨String.ofList text, .defaults hb (.text _) htop rfl hes s.defaults.nodup_keys
    (SortedMap.ofList_entries _) ?_⟩
  rwa [String.toList_ofList]

end BugQuery.Settings
