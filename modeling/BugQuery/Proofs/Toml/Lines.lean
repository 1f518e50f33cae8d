import BugQuery.Proofs.Toml.Document

/-!
# Documents of lines

The simplest documents give each key a value on a line of its own, and may go
on with the header of a table and the lines of that table. They are read line
by line: a line adds its key at the end of the table that is open. There may
be empty lines, and every spelling of the tokens will do.

* `readStatements_of_lines`: what the lines add to an open table.
* `document?_of_lines`, `document?_of_header`: what the documents hold.
* `gives_of_writes`, `exists_writes`: any options can be given by such a document.
-/
namespace BugQuery.Toml

/-- The tokens of a value. -/
def valueTokens : OptionValue → List Token
  | .flag true => [.bare "true"]
  | .flag false => [.bare "false"]
  | .text s => [.text s]
  | .list [] => [.openList, .closeList]
  | .list (s :: items) =>
    .openList :: .text s :: ((items.flatMap fun t => [.comma, .text t]) ++ [.closeList])

/-- A key of one part, with quotes or without. -/
inductive Names : Token → String → Prop where
  | bare (k : String) : Names (.bare k) k
  | text (k : String) : Names (.text k) k

/-- The row `ts` gives the options `es` their values, a line for each and empty lines before them,
and goes on with `rest`. -/
inductive Lines (rest : List Token) : List (String × OptionValue) → List Token → Prop where
  | done (empty : Nat) : Lines rest [] (List.replicate empty .newline ++ rest)
  | line {es : List (String × OptionValue)} {k : String} {t : Token} {v : OptionValue}
      {s ts : List Token} (empty : Nat) (ht : Names t k) (hs : endOfLine s = some ts)
      (h : Lines rest es ts) : Lines rest ((k, v) :: es)
        (List.replicate empty .newline ++ t :: .equals :: (valueTokens v ++ s))

theorem afterText_append (items : List String) (r : List Token) :
    afterText (items.flatMap (fun t => [.comma, .text t]) ++ .closeList :: r) =
      some (items, r) := by
  induction items with
  | nil => simp [afterText]
  | cons s items ih =>
    rw [List.flatMap_cons, List.append_assoc]
    simp only [List.cons_append, List.nil_append, afterText, readTexts, ih, Option.map_some]

theorem readValue_valueTokens (fuel : Nat) (v : OptionValue) (r : List Token) :
    readValue fuel (valueTokens v ++ r) = some (.setting v, r) := by
  cases v with
  | flag on => cases on <;> simp [valueTokens, readValue]
  | text s => simp [valueTokens, readValue]
  | list items =>
    cases items with
    | nil => simp [valueTokens, readValue, readTexts]
    | cons s items =>
      simp only [valueTokens, List.cons_append, List.append_assoc, List.nil_append, readValue,
        readTexts, afterText_append, Option.map_some]

theorem skipNewlines_append (n : Nat) (s : List Token) :
    skipNewlines (List.replicate n .newline ++ s) = skipNewlines s := by
  induction n with
  | zero => rfl
  | succ n ih => rw [List.replicate_succ, List.cons_append, skipNewlines, ih]

theorem readKey_of_names {t : Token} {k : String} (h : Names t k) {r : List Token}
    (hr : r.head? ≠ some .dot) : readKey (t :: r) = some ([k], r) := by
  have hdot : ∀ r', r ≠ .dot :: r' := by
    rintro r' rfl
    exact hr rfl
  cases h <;> rw [readKey] <;> exact hdot

/-- A document as far as the table at `path` goes: `F` puts entries in their place in the tree. -/
def Focus (path : List String) (F : Entries → Entries) : Prop :=
  ∀ (change : Entries → Option Entries) {sub sub' : Entries}, change sub = some sub' →
    Entries.within change path (F sub) = some (F sub')

theorem focus_root : Focus [] id := fun _ _ _ hchange => hchange

theorem readStatements_line {path : List String} {F : Entries → Entries} (hF : Focus path F)
    {sub : Entries} {t : Token} {k : String} (ht : Names t k) (hk : sub.lookup k = none)
    (v : OptionValue) {s ts : List Token} (hs : endOfLine s = some ts) (empty fuel : Nat) :
    readStatements (fuel + 1) (F sub) path
        (List.replicate empty .newline ++ t :: .equals :: (valueTokens v ++ s)) =
      readStatements fuel (F (sub ++ [(k, .setting v)])) path ts := by
  have hassign : Entries.assign (.setting v) [k] sub = some (sub ++ [(k, .setting v)]) := by
    simp [Entries.assign, hk]
  have hskip : skipNewlines (t :: .equals :: (valueTokens v ++ s)) =
      t :: .equals :: (valueTokens v ++ s) := by
    cases ht <;> rfl
  rw [readStatements, skipNewlines_append, hskip]
  split
  · rename_i h
    cases h
  · rename_i h
    cases ht <;> cases h
  · rw [readKey_of_names ht (by simp)]
    simp only [Option.bind_eq_bind, Option.bind_some, readValue_valueTokens, hF _ hassign, hs]

theorem readStatements_of_lines {rest : List Token} {es : List (String × OptionValue)}
    {ts : List Token} (h : Lines rest es ts) {path : List String} {F : Entries → Entries}
    (hF : Focus path F) (fuel : Nat) : ∀ sub : Entries,
    (sub.map Prod.fst ++ es.map Prod.fst).Nodup →
    ∃ empty, readStatements (es.length + fuel) (F sub) path ts =
      readStatements fuel (F (sub ++ Entries.ofSettings es)) path
        (List.replicate empty .newline ++ rest) := by
  -- on the lines: the place of the open table stays, its entries grow at the end
  induction h with
  | done empty =>
    intro sub _
    exact ⟨empty, by simp [Entries.ofSettings]⟩
  | @line es k t v s ts empty ht hs _ ih =>
    intro sub hnodup
    have hk : sub.lookup k = none := Entries.lookup_eq_none.2 fun hmem =>
      (List.nodup_append.1 hnodup).2.2 k hmem k List.mem_cons_self rfl
    have hrest : ((sub ++ [(k, Node.setting v)]).map Prod.fst ++ es.map Prod.fst).Nodup := by
      rw [List.map_append, List.append_assoc]
      exact hnodup
    obtain ⟨further, hes⟩ := ih _ hrest
    refine ⟨further, ?_⟩
    have hfuel : es.length + 1 + fuel = es.length + fuel + 1 := by omega
    rw [List.length_cons, hfuel, readStatements_line hF ht hk v hs, hes, List.append_assoc]
    rfl

theorem readStatements_empty (fuel : Nat) (root : Entries) (path : List String) (n : Nat) :
    readStatements (fuel + 1) root path (List.replicate n .newline ++ []) = some root := by
  rw [readStatements, skipNewlines_append]
  rfl

theorem length_le_of_endOfLine {s ts : List Token} (h : endOfLine s = some ts) :
    ts.length ≤ s.length := by
  unfold endOfLine at h
  split at h
  · cases h
    exact Nat.le_refl _
  · cases h
    exact Nat.le_succ _
  · cases h

theorem length_le_of_lines {rest : List Token} {es : List (String × OptionValue)}
    {ts : List Token} (h : Lines rest es ts) : es.length + rest.length ≤ ts.length := by
  induction h with
  | done empty => simp
  | line empty ht hs _ ih =>
    have hline := length_le_of_endOfLine hs
    simp only [List.length_append, List.length_cons]
    omega

theorem readToken_byteOrderMark (r : List Char) : readToken ('\ufeff' :: r) = none := by
  unfold readToken
  split
  case h_14 => rw [List.takeWhile_cons_of_neg (by decide), if_pos rfl]
  all_goals
    rename_i heq
    exact absurd (List.cons.inj heq).1 (by decide)

/-- A row of tokens is all that counts of a text: it starts with no byte order mark. -/
theorem document?_of_spells {ts : List Token} {s : String} (h : Spells ts s.toList) :
    document? s = readStatements (ts.length + 1) [] [] ts := by
  have htokens := tokens?_of_spells h
  unfold document?
  split
  · rename_i r hr
    rw [hr, tokens?, List.length_cons, tokensWithin, if_neg (by decide), if_neg (by decide),
      readToken_byteOrderMark] at htokens
    cases htokens
  · rw [htokens]
    rfl

/-- A document of lines holds what the lines give. -/
theorem document?_of_lines {es : List (String × OptionValue)} {ts : List Token}
    (h : Lines [] es ts) (hkeys : (es.map Prod.fst).Nodup) {s : String}
    (hs : Spells ts s.toList) : document? s = some (Entries.ofSettings es) := by
  obtain ⟨fuel, hfuel⟩ := Nat.exists_eq_add_of_le (length_le_of_lines h)
  obtain ⟨empty, hread⟩ := readStatements_of_lines h focus_root (fuel + 1) [] hkeys
  have hlength : ts.length + 1 = es.length + (fuel + 1) := by
    rw [List.length_nil] at hfuel
    omega
  rw [document?_of_spells hs, hlength]
  exact hread.trans (readStatements_empty fuel _ [] empty)

theorem replace_concat {root : Entries} {name : String} (hname : root.lookup name = none)
    (m n : Node) : (root ++ [(name, m)]).replace name n = root ++ [(name, n)] := by
  have hroot : root.map (fun e => if e.1 = name then (name, n) else e) = root := by
    refine (List.map_congr_left fun e he => ?_).trans (List.map_id root)
    have hne : e.1 ≠ name := fun h =>
      Entries.lookup_eq_none.1 hname (h ▸ List.mem_map_of_mem he)
    exact if_neg hne
  simp [Entries.replace, hroot]

/-- The table `name` at the end of the tree. -/
theorem focus_concat {root : Entries} {name : String} (hname : root.lookup name = none)
    (origin : Origin) : Focus [name] fun sub => root ++ [(name, .table origin sub)] := by
  intro change sub sub' hchange
  have hlookup :
      (root ++ [(name, Node.table origin sub)]).lookup name = some (.table origin sub) := by
    rw [List.lookup_append, hname]
    simp
  simp only [Entries.within, hlookup, hchange, Option.map_some, replace_concat hname]

/-- After its header a table starts without entries. -/
theorem readStatements_header {root : Entries} {t : Token} {name : String} (ht : Names t name)
    (hname : root.lookup name = none) {s ts : List Token} (hs : endOfLine s = some ts)
    (path : List String) (empty fuel : Nat) :
    readStatements (fuel + 1) root path
        (List.replicate empty .newline ++ .openList :: t :: .closeList :: s) =
      readStatements fuel (root ++ [(name, .table .header [])]) [name] ts := by
  have hopen : Entries.openTable [name] root = some (root ++ [(name, .table .header [])]) := by
    simp [Entries.openTable, hname]
  have hskip :
      skipNewlines (.openList :: t :: .closeList :: s) = .openList :: t :: .closeList :: s := rfl
  have hkey : readKey (t :: .closeList :: s) = some ([name], .closeList :: s) :=
    readKey_of_names ht (by simp)
  rw [readStatements, skipNewlines_append, hskip]
  simp only [hkey, hopen, hs, Option.bind_eq_bind, Option.bind_some]

/-- Lines, and then a table under its header: a document holds what the lines give, and in the
table what the lines after the header give. -/
theorem document?_of_header {top es : List (String × OptionValue)} {t : Token} {name : String}
    {s ts us : List Token} (ht : Names t name)
    (htop : Lines (.openList :: t :: .closeList :: s) top ts)
    (hs : endOfLine s = some us) (hes : Lines [] es us) (hkeys : (top.map Prod.fst).Nodup)
    (hname : name ∉ top.map Prod.fst) (hsub : (es.map Prod.fst).Nodup) {text : String}
    (htext : Spells ts text.toList) : document? text =
      some (Entries.ofSettings top ++ [(name, .table .header (Entries.ofSettings es))]) := by
  have hfree : (Entries.ofSettings top).lookup name = none := by
    rwa [Entries.lookup_eq_none, Entries.keys_ofSettings]
  have hbelow := length_le_of_lines htop
  have hunder := length_le_of_lines hes
  have hline := length_le_of_endOfLine hs
  simp only [List.length_cons, List.length_nil] at hbelow hunder
  -- a step for each line and one for the header, of which no one is longer than its tokens
  obtain ⟨fuel, hfuel⟩ : ∃ fuel, ts.length + 1 = top.length + ((es.length + (fuel + 1)) + 1) :=
    ⟨ts.length - top.length - es.length - 1, by omega⟩
  obtain ⟨empty, hread⟩ :=
    readStatements_of_lines htop focus_root ((es.length + (fuel + 1)) + 1) [] hkeys
  obtain ⟨further, hunderRead⟩ :=
    readStatements_of_lines hes (focus_concat hfree .header) (fuel + 1) [] hsub
  rw [document?_of_spells htext, hfuel]
  calc readStatements (top.length + ((es.length + (fuel + 1)) + 1)) [] [] ts
      = _ := hread
    _ = _ := readStatements_header ht hfree hs [] empty _
    _ = _ := hunderRead
    _ = _ := readStatements_empty fuel _ [name] further

/-! ## Every option set has a document -/

/-- The document `s` gives the options `o`, a line for each. -/
def Writes (o : OptionSet) (s : String) : Prop :=
  ∃ es ts, (es.map Prod.fst).Nodup ∧ SortedMap.ofList es = o ∧ Lines [] es ts ∧ Spells ts s.toList

theorem gives_of_writes {o : OptionSet} {s : String} (h : Writes o s) : Gives s o := by
  obtain ⟨es, ts, hkeys, ho, hlines, hs⟩ := h
  exact ⟨_, document?_of_lines hlines hkeys hs, (hold_ofSettings hkeys).2 ho⟩

theorem exists_spelled_of_mem_valueTokens (v : OptionValue) :
    ∀ t ∈ valueTokens v, ∃ w, Spelled t w := by
  have hopen : ∃ w, Spelled .openList w := ⟨_, .openList⟩
  have hclose : ∃ w, Spelled .closeList w := ⟨_, .closeList⟩
  have htext : ∀ s, ∃ w, Spelled (.text s) w := fun s => ⟨_, .text s⟩
  have hitems : ∀ items : List String,
      ∀ t ∈ items.flatMap fun s => [.comma, .text s], ∃ w, Spelled t w := by
    intro items t ht
    obtain ⟨s, -, ht⟩ := List.mem_flatMap.1 ht
    simp only [List.mem_cons, List.not_mem_nil, or_false] at ht
    rcases ht with rfl | rfl
    · exact ⟨_, .comma⟩
    · exact htext s
  cases v with
  | flag on =>
    cases on
    · exact List.forall_mem_singleton.2 ⟨['f', 'a', 'l', 's', 'e'],
        .bare rfl (List.all_eq_true.1 (by decide))⟩
    · exact List.forall_mem_singleton.2 ⟨['t', 'r', 'u', 'e'],
        .bare rfl (List.all_eq_true.1 (by decide))⟩
  | text s => exact List.forall_mem_singleton.2 (htext s)
  | list items =>
    cases items with
    | nil => simp [valueTokens, hopen, hclose]
    | cons s items =>
      simp only [valueTokens, List.forall_mem_cons, List.forall_mem_append]
      exact ⟨hopen, htext s, hitems items, hclose, List.forall_mem_nil _⟩

/-- Options can be written line by line. -/
theorem exists_lines {rest : List Token} (hrest : ∀ t ∈ rest, ∃ w, Spelled t w) :
    ∀ es : List (String × OptionValue), ∃ ts, Lines rest es ts ∧ ∀ t ∈ ts, ∃ w, Spelled t w
  | [] => ⟨rest, .done 0, hrest⟩
  | (k, v) :: es => by
    obtain ⟨ts, hlines, hts⟩ := exists_lines hrest es
    refine ⟨_, .line 0 (.text k) (s := .newline :: ts) rfl hlines, ?_⟩
    simp only [List.replicate_zero, List.nil_append, List.forall_mem_cons, List.forall_mem_append]
    exact ⟨⟨_, .text k⟩, ⟨_, .equals⟩, exists_spelled_of_mem_valueTokens v, ⟨_, .newline⟩, hts⟩

theorem exists_writes (o : OptionSet) : ∃ s, Writes o s := by
  obtain ⟨ts, hlines, hts⟩ := exists_lines (List.forall_mem_nil _) o.entries
  obtain ⟨s, hs⟩ := exists_spells hts
  refine ⟨String.ofList s, o.entries, ts, o.nodup_keys, SortedMap.ofList_entries o, hlines, ?_⟩
  rwa [String.toList_ofList]

end BugQuery.Toml
