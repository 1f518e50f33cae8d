import BugQuery.SortedMap

/-!
# The order of texts is the order of their bytes

Maps are kept in the order of their keys, and texts are ordered by code
points from the left. UTF-8 is made so that its bytes give the same order:
of two different characters the lower one has the lower bytes, and neither
encoding begins the other.

* `bytes_lt_iff`: a text is before another exactly if its bytes are.
-/
namespace BugQuery.Text

/-- The bytes of a text in UTF-8. -/
def bytes (s : String) : List UInt8 := s.toUTF8.data.toList

theorem bytes_ofList (cs : List Char) :
    bytes (String.ofList cs) = cs.flatMap String.utf8EncodeChar := by
  simp [bytes, List.utf8Encode]

theorem ofNat_lt_ofNat {m n : Nat} : UInt8.ofNat m < UInt8.ofNat n ↔ m % 256 < n % 256 := by
  rw [UInt8.lt_iff_toNat_lt, UInt8.toNat_ofNat', UInt8.toNat_ofNat']

theorem ofNat_eq_ofNat {m n : Nat} : UInt8.ofNat m = UInt8.ofNat n ↔ m % 256 = n % 256 := by
  rw [← UInt8.toNat_inj, UInt8.toNat_ofNat', UInt8.toNat_ofNat']

/-- A byte that holds six bits or fewer below its mark, and so does not overflow. -/
theorem marked_mod (n : Nat) :
    (n % 64 + 0x80) % 256 = n % 64 + 0x80 ∧ (n % 32 + 0xc0) % 256 = n % 32 + 0xc0 ∧
    (n % 16 + 0xe0) % 256 = n % 16 + 0xe0 ∧ (n % 8 + 0xf0) % 256 = n % 8 + 0xf0 := by
  omega

/-- Whatever follows, the bytes of a lower character come first. -/
theorem encode_append_lt {c d : Char} (h : c < d) (xs ys : List UInt8) :
    String.utf8EncodeChar c ++ xs < String.utf8EncodeChar d ++ ys := by
  have hlt : c.val.toNat < d.val.toNat := h
  have hmax : d.val.toNat < 0x110000 := by
    have := d.valid
    simp only [UInt32.isValidChar, Nat.isValidChar] at this
    omega
  unfold String.utf8EncodeChar
  dsimp only
  generalize c.val.toNat = m at *
  generalize d.val.toNat = n at *
  have hm1 : m / 64 / 64 = m / 4096 := Nat.div_div_eq_div_mul m 64 64
  have hm2 : m / 4096 / 64 = m / 262144 := Nat.div_div_eq_div_mul m 4096 64
  have hn1 : n / 64 / 64 = n / 4096 := Nat.div_div_eq_div_mul n 64 64
  have hn2 : n / 4096 / 64 = n / 262144 := Nat.div_div_eq_div_mul n 4096 64
  -- one case for each pair of lengths; the shorter encoding has the lower first byte
  split <;> split <;> try split <;> try split <;> try split <;> try split
  case isFalse.isFalse.isFalse.isFalse.isFalse.isFalse =>
    simp only [List.cons_append, List.nil_append, List.cons_lt_cons_iff, ofNat_lt_ofNat,
      ofNat_eq_ofNat, marked_mod, ← hm2, ← hm1, ← hn2, ← hn1]
    have hm3 : m / 64 / 64 / 64 % 8 = m / 64 / 64 / 64 := by omega
    have hn3 : n / 64 / 64 / 64 % 8 = n / 64 / 64 / 64 := by omega
    rw [hm3, hn3]
    clear hm1 hm2 hn1 hn2 hm3 hn3
    -- four digits to the base 64: the first one that differs decides
    rcases Nat.lt_trichotomy (m / 64 / 64 / 64) (n / 64 / 64 / 64) with h3 | h3 | h3
    · omega
    · rcases Nat.lt_trichotomy (m / 64 / 64) (n / 64 / 64) with h2 | h2 | h2 <;> omega
    · omega
  all_goals
    simp only [List.cons_append, List.nil_append, List.cons_lt_cons_iff, ofNat_lt_ofNat,
      ofNat_eq_ofNat, marked_mod]
    omega

theorem nil_lt_encode_append (c : Char) (xs : List UInt8) :
    [] < String.utf8EncodeChar c ++ xs := by
  obtain ⟨b, bs, h⟩ := List.exists_cons_of_ne_nil (String.utf8EncodeChar_ne_nil (c := c))
  rw [h]
  exact List.nil_lt_cons b _

theorem flatMap_encode_lt : ∀ {cs ds : List Char}, cs < ds →
    cs.flatMap String.utf8EncodeChar < ds.flatMap String.utf8EncodeChar
  | cs, [], h => absurd h (List.not_lt_nil cs)
  | [], d :: ds, _ => nil_lt_encode_append d _
  | c :: cs, d :: ds, h => by
    rcases List.cons_lt_cons_iff.1 h with hcd | ⟨rfl, htail⟩
    · exact encode_append_lt hcd _ _
    · exact List.append_left_lt (flatMap_encode_lt htail)

theorem bytes_lt_bytes_of_lt {a b : String} (h : a < b) : bytes a < bytes b := by
  rw [← String.ofList_toList (s := a), ← String.ofList_toList (s := b), bytes_ofList, bytes_ofList]
  exact flatMap_encode_lt h

/-- A text is before another exactly if its bytes are. -/
theorem bytes_lt_iff {a b : String} : bytes a < bytes b ↔ a < b := by
  refine ⟨fun h => ?_, bytes_lt_bytes_of_lt⟩
  refine Decidable.byContradiction fun hab => ?_
  by_cases he : a = b
  · exact List.lt_irrefl _ (he ▸ h)
  · have hba : b < a := Std.lt_of_le_of_ne (String.not_lt.1 hab) (Ne.symm he)
    exact List.lt_asymm h (bytes_lt_bytes_of_lt hba)

end BugQuery.Text
