import BugQuery.Proofs.Json.RoundTrip
import BugQuery.Proofs.Text.ByteOrder
import BugQuery.SortedMap.Replace

/-!
# Sessions with a payload

A session changes a payload step after step. Whatever the steps are, a key
finds what the last step put there, as long as no later step touched the key,
and a step that replaces or removes hands out what was there before. The text
of a payload tells its values and nothing about the way to them.

* `SortedMap.ofList_eq_some`: of pairs with one key the last one counts.
* `SortedMap.get?_run`: what one step does to a key.
* `SortedMap.get?_session`, `SortedMap.handed_session`: what a key finds after a session, and what
  each step of it hands out.
* `Json.compact_injective`: different payloads have different texts.
* `Payload.session_recorded`: sessions keep the last value written, in the order of the keys.
-/
namespace BugQuery

namespace SortedMap

variable {α : Type}

/-! ## The last pair of a key -/

theorem find_eq_lookup (k : String) : ∀ es : List (String × α), find k es = es.lookup k
  | [] => rfl
  | e :: es => by
    rw [find, List.lookup_cons, find_eq_lookup k es]
    by_cases he : e.1 = k
    · rw [if_pos he, he, beq_self_eq_true]
    · rw [if_neg he, beq_eq_false_iff_ne.2 (Ne.symm he)]

/-- Among the pairs, `v` is the last that is given for `k`. -/
def LastPair (pairs : List (String × α)) (k : String) (v : α) : Prop :=
  ∃ front back, pairs = front ++ (k, v) :: back ∧ k ∉ back.map Prod.fst

theorem ofList_eq_some {pairs : List (String × α)} {k : String} {v : α} :
    (ofList pairs).get? k = some v ↔ LastPair pairs k v := by
  rw [get?_ofList, find_eq_lookup, List.lookup_eq_some_iff]
  constructor
  · intro hex
    obtain ⟨later, earlier, hpairs, hlater⟩ := hex
    refine ⟨earlier.reverse, later.reverse, ?_, ?_⟩
    · rw [List.reverse_eq_iff.1 hpairs]
      simp
    · intro hk
      obtain ⟨p, hp, hpk⟩ := List.mem_map.1 hk
      have hne := hlater p (List.mem_reverse.1 hp)
      exact bne_iff_ne.1 hne hpk.symm
  · intro hex
    obtain ⟨front, back, rfl, hback⟩ := hex
    refine ⟨back.reverse, front.reverse, by simp, ?_⟩
    intro p hp
    refine bne_iff_ne.2 fun hk => hback ?_
    exact List.mem_map.2 ⟨p, List.mem_reverse.1 hp, hk.symm⟩

/-! ## Steps -/

/-- A change of a map. -/
inductive Step (α : Type) where
  | insert (k : String) (v : α)
  | remove (k : String)
  | merge (fragment : SortedMap α)
  /-- a map made of the pairs takes the place of the old one -/
  | fromPairs (pairs : List (String × α))

namespace Step

/-- What the step hands out, and the map after it. -/
def run (m : SortedMap α) : Step α → Option α × SortedMap α
  | insert k v => m.replace k v
  | remove k => m.remove k
  | merge fragment => (none, m.merge fragment)
  | fromPairs pairs => (none, ofList pairs)

/-- The step puts `v` under `k`. -/
def Writes (k : String) (v : α) : Step α → Prop
  | insert k' v' => k' = k ∧ v' = v
  | remove _ => False
  | merge fragment => fragment.get? k = some v
  | fromPairs pairs => LastPair pairs k v

/-- The step leaves alone what is under `k`. -/
def Spares (k : String) : Step α → Prop
  | insert k' _ => k' ≠ k
  | remove k' => k' ≠ k
  | merge fragment => k ∉ fragment.keys
  | fromPairs _ => False

end Step

/-- After a step a key finds what the step puts there, or else what it leaves there. -/
theorem get?_run {m : SortedMap α} {s : Step α} {k : String} {v : α} :
    (s.run m).2.get? k = some v ↔ s.Writes k v ∨ (s.Spares k ∧ m.get? k = some v) := by
  cases s with
  | insert k' v' =>
    simp only [Step.run, Step.Writes, Step.Spares, replace_snd, get?_insert]
    by_cases hk : k' = k <;> simp [hk]
  | remove k' =>
    simp only [Step.run, Step.Writes, Step.Spares, remove_snd, get?_erase]
    by_cases hk : k' = k <;> simp [hk]
  | merge fragment =>
    simp only [Step.run, Step.Writes, Step.Spares, get?_merge, mem_keys]
    cases hf : fragment.get? k <;> simp
  | fromPairs pairs =>
    simp only [Step.run, Step.Writes, Step.Spares, ofList_eq_some, false_and, or_false]

/-! ## Sessions -/

/-- What the steps hand out one after the other, and the map after the last of them. -/
def session (m : SortedMap α) : List (Step α) → List (Option α) × SortedMap α
  | [] => ([], m)
  | s :: ss =>
    let handed := (s.run m).1
    let rest := session (s.run m).2 ss
    (handed :: rest.1, rest.2)

/-- A step of the session puts `v` under `k`, and the later steps leave it alone. -/
def LastWrite (ss : List (Step α)) (k : String) (v : α) : Prop :=
  ∃ before s after, ss = before ++ s :: after ∧ s.Writes k v ∧ ∀ t ∈ after, t.Spares k

theorem lastWrite_cons {s : Step α} {ss : List (Step α)} {k : String} {v : α} :
    LastWrite (s :: ss) k v ↔ LastWrite ss k v ∨ (s.Writes k v ∧ ∀ t ∈ ss, t.Spares k) := by
  constructor
  · intro hex
    obtain ⟨before, t, after, hss, hwrites, hafter⟩ := hex
    cases before with
    | nil =>
      cases hss
      exact .inr ⟨hwrites, hafter⟩
    | cons u before =>
      cases hss
      exact .inl ⟨before, t, after, rfl, hwrites, hafter⟩
  · intro hcases
    rcases hcases with hlater | ⟨hwrites, hspares⟩
    · obtain ⟨before, t, after, rfl, hwrites, hafter⟩ := hlater
      exact ⟨s :: before, t, after, rfl, hwrites, hafter⟩
    · exact ⟨[], s, ss, rfl, hwrites, hspares⟩

/-- After a session a key finds what was last put there, or what was there before if every step
leaves it alone. -/
theorem get?_session {ss : List (Step α)} {k : String} {v : α} : ∀ {m : SortedMap α},
    (m.session ss).2.get? k = some v ↔
      LastWrite ss k v ∨ ((∀ s ∈ ss, s.Spares k) ∧ m.get? k = some v) := by
  induction ss with
  | nil =>
    intro m
    unfold session LastWrite
    simp
  | cons s ss ih =>
    intro m
    unfold session
    rw [ih, get?_run, lastWrite_cons, List.forall_mem_cons]
    grind

/-- A step of a session hands out what it does on the map that the earlier steps leave. -/
theorem handed_session (s : Step α) (after : List (Step α)) : ∀ (before : List (Step α))
    (m : SortedMap α), (m.session (before ++ s :: after)).1[before.length]? =
      some (s.run (m.session before).2).1
  | [], _ => rfl
  | t :: before, m => handed_session s after before (t.run m).2

/-- What a session of these steps does with the map `m`. -/
structure Recorded (m : SortedMap α) (ss : List (Step α)) : Prop where
  ascending : (m.session ss).2.keys.Pairwise fun a b => Text.bytes a < Text.bytes b
  distinct : (m.session ss).2.keys.Nodup
  length : (m.session ss).2.keys.length = (m.session ss).2.size
  found : ∀ k v, (m.session ss).2.get? k = some v ↔
    LastWrite ss k v ∨ ((∀ s ∈ ss, s.Spares k) ∧ m.get? k = some v)
  replaced : ∀ before k v after, ss = before ++ .insert k v :: after →
    (m.session ss).1[before.length]? = some ((m.session before).2.get? k)
  removed : ∀ before k after, ss = before ++ .remove k :: after →
    (m.session ss).1[before.length]? = some ((m.session before).2.get? k)

theorem recorded (m : SortedMap α) (ss : List (Step α)) : Recorded m ss where
  ascending := (m.session ss).2.sorted.imp Text.bytes_lt_iff.2
  distinct := nodup_keys _
  length := List.length_map _
  found _ _ := get?_session
  replaced before k v after h := by
    subst h
    rw [handed_session, Step.run, replace_fst]
  removed before k after h := by
    subst h
    rw [handed_session, Step.run, remove_fst]

end SortedMap

theorem Json.compact_injective {p q : Payload} (h : compact p = compact q) : p = q := by
  have hread : ∀ r : Payload, payload? (compact r) = some r := by
    intro r
    refine payload?_of_spells ?_
    rw [compact, String.toList_ofList]
    exact compact_payloadTokens r
  have hsome : some p = some q := by rw [← hread p, h, hread q]
  exact Option.some.inj hsome

/-- Every session with a payload keeps for each key what was last put there, its keys in the order
of their bytes; merging is associative and lets the right side win; and the texts of two payloads
that sessions leave are the same just if every key finds the same in both. -/
theorem Payload.session_recorded (p : Payload) (ss : List (SortedMap.Step PayloadValue)) :
    SortedMap.Recorded p ss ∧
    (∀ l m n : Payload, (l.merge m).merge n = l.merge (m.merge n)) ∧
    (∀ (m n : Payload) k, (m.merge n).get? k = if k ∈ n.keys then n.get? k else m.get? k) ∧
    ∀ (q : Payload) ss', Json.compact (p.session ss).2 = Json.compact (q.session ss').2 ↔
      ∀ k, (p.session ss).2.get? k = (q.session ss').2.get? k := by
  refine ⟨SortedMap.recorded p ss, SortedMap.merge_assoc, fun m n k => ?_, fun q ss' => ?_⟩
  · rw [SortedMap.get?_merge]
    by_cases hk : k ∈ n.keys
    · obtain ⟨v, hv⟩ := Option.isSome_iff_exists.1 (SortedMap.mem_keys.1 hk)
      rw [if_pos hk, hv, Option.some_or]
    · have hnone := Option.not_isSome_iff_eq_none.1 (mt SortedMap.mem_keys.2 hk)
      rw [if_neg hk, hnone, Option.none_or]
  · constructor
    · intro h k
      rw [Json.compact_injective h]
    · intro h
      rw [SortedMap.ext_get? h]

end BugQuery
