import Mathlib

/-!
# The order of texts by their bytes

Texts are compared by their characters. The bytes of their UTF-8 encodings compare alike: of two
characters the greater one has the greater byte where their encodings first differ, and no encoding
is the beginning of another.
-/

namespace TypedContent

namespace Text

/-- The bytes of the UTF-8 encoding. -/
def bytes (s : String) : List UInt8 := s.toByteArray.data.toList

theorem bytes_eq (s : String) : bytes s = s.toList.flatMap String.utf8EncodeChar := by
  rw [bytes, ← String.utf8Encode_toList, List.utf8Encode, List.toList_data_toByteArray]

theorem byte_cons_lt {m n : Nat} (hm : m < 256) (hn : n < 256) {u v : List UInt8} :
    UInt8.ofNat m :: u < UInt8.ofNat n :: v ↔ m < n ∨ m = n ∧ u < v := by
  rw [List.cons_lt_cons_iff, UInt8.lt_iff_toNat_lt, ← UInt8.toNat_inj, UInt8.toNat_ofNat_of_lt' hm,
    UInt8.toNat_ofNat_of_lt' hn]

/-! ## Encodings of one length -/

/-- Of two numbers below the bound the lesser has the lesser code, whatever comes after. -/
def Ascends (code : Nat → List UInt8) (bound : Nat) : Prop :=
  ∀ m n, m < n → n < bound → ∀ u v, code m ++ u < code n ++ v

theorem ascends_lead (width base : Nat) (h : width + base ≤ 256) :
    Ascends (fun n => [UInt8.ofNat (n % width + base)]) width := by
  intro m n hmn hn u v
  simp only [Nat.mod_eq_of_lt hn, Nat.mod_eq_of_lt (Nat.lt_trans hmn hn), List.singleton_append]
  exact (byte_cons_lt (by omega) (by omega)).mpr (.inl (by omega))

/-- One more byte for the last six binary digits. -/
theorem Ascends.more {code : Nat → List UInt8} {bound : Nat} (h : Ascends code bound) :
    Ascends (fun n => code (n / 64) ++ [UInt8.ofNat (n % 64 + 128)]) (64 * bound) := by
  intro m n hmn hn u v
  simp only [List.append_assoc, List.singleton_append]
  by_cases hfront : m / 64 < n / 64
  · exact h _ _ hfront (by omega) _ _
  · have hsame : m / 64 = n / 64 := by omega
    rw [hsame]
    exact List.append_left_lt ((byte_cons_lt (by omega) (by omega)).mpr (.inl (by omega)))

/-! ## Characters -/

/-- The lesser of two characters has the lesser encoding, whatever comes after. -/
theorem encoding_lt {c d : Char} (h : c < d) (u v : List UInt8) :
    String.utf8EncodeChar c ++ u < String.utf8EncodeChar d ++ v := by
  have hcd : c.val.toNat < d.val.toNat := h
  have hd : d.val.toNat < 1114112 := d.valid.elim (by omega) (by omega)
  have htwo := (ascends_lead 32 192 (by decide)).more
  have hthree := (ascends_lead 16 224 (by decide)).more.more
  have hfour := (ascends_lead 8 240 (by decide)).more.more.more
  simp only [Nat.div_div_eq_div_mul] at htwo hthree hfour
  have hlead : ∀ {m n : Nat} {u v : List UInt8}, m < n → n < 256 → UInt8.ofNat m :: u < UInt8.ofNat n :: v :=
    fun hmn hn => (byte_cons_lt (by omega) hn).mpr (.inl hmn)
  simp only [String.utf8EncodeChar]
  generalize c.val.toNat = m at hcd
  generalize d.val.toNat = n at hcd hd
  -- a character with a longer encoding has the greater lead byte
  split_ifs <;> first
    | exfalso; omega
    | exact hlead (by omega) (by omega)
    | skip
  · exact htwo m n hcd (by omega) u v
  · exact hthree m n hcd (by omega) u v
  · exact hfour m n hcd (by omega) u v

theorem encodeChar_ne_nil (c : Char) : String.utf8EncodeChar c ≠ [] := by
  simp only [String.utf8EncodeChar]
  split_ifs <;> exact List.cons_ne_nil _ _

theorem flatMap_encoding_lt : ∀ {cs ds : List Char}, cs < ds →
    cs.flatMap String.utf8EncodeChar < ds.flatMap String.utf8EncodeChar
  | [], d :: ds, _ => by
    obtain ⟨b, bs, hd⟩ := List.exists_cons_of_ne_nil (encodeChar_ne_nil d)
    rw [List.flatMap_nil, List.flatMap_cons, hd]
    exact List.nil_lt_cons b _
  | c :: cs, d :: ds, h => by
    rw [List.flatMap_cons, List.flatMap_cons]
    rcases List.cons_lt_cons_iff.mp h with hc | ⟨rfl, hcs⟩
    · exact encoding_lt hc _ _
    · exact List.append_left_lt (flatMap_encoding_lt hcs)

theorem bytes_lt {s t : String} (h : s < t) : bytes s < bytes t := by
  rw [bytes_eq, bytes_eq]
  exact flatMap_encoding_lt (String.lt_iff.mp h)

end Text

end TypedContent
