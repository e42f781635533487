import Mathlib.Tactic.ByContra
import Mathlib.Tactic.SplitIfs

/-!
# Order of texts by bytes

Texts are compared character by character.  The encoding of characters as bytes keeps the order, and
no encoding begins another one, so this is the order of the bytes.
-/

namespace SignalGraph
namespace Text

def bytes (s : String) : List UInt8 := s.toUTF8.data.toList

theorem bytes_eq (s : String) : bytes s = s.toList.flatMap String.utf8EncodeChar := by
  rw [bytes, String.toUTF8_eq_toByteArray, ← String.utf8Encode_toList, List.utf8Encode]
  exact List.toList_data_toByteArray

/-- The first byte in which two characters differ decides, whatever follows. -/
theorem encode_lt {c d : Char} (h : c < d) (l m : List UInt8) :
    String.utf8EncodeChar c ++ l < String.utf8EncodeChar d ++ m := by
  have hlt : c.val.toNat < d.val.toNat := h
  have hvalid : d.val.toNat < 0x110000 := by
    have h := d.valid
    simp only [UInt32.isValidChar, Nat.isValidChar] at h
    omega
  -- a byte is a digit above the mark of its place, and none overflows
  have hlast : ∀ n, (n % 64 + 128) % 2 ^ 8 = n % 64 + 128 := by omega
  have htwo : ∀ n, (n % 32 + 192) % 2 ^ 8 = n % 32 + 192 := by omega
  have hthree : ∀ n, (n % 16 + 224) % 2 ^ 8 = n % 16 + 224 := by omega
  have hfour : ∀ n, (n % 8 + 240) % 2 ^ 8 = n % 8 + 240 := by omega
  have hsquare : ∀ n, n / 4096 = n / 64 / 64 := by omega
  have hcube : ∀ n, n / 262144 = n / 64 / 64 / 64 := by omega
  unfold String.utf8EncodeChar
  dsimp only
  -- longer encodings begin with larger bytes, and those of one length are compared digit by digit
  split_ifs <;> simp only [List.cons_append, List.nil_append, List.cons_lt_cons_iff,
    UInt8.lt_iff_toNat_lt, ← UInt8.toNat_inj, UInt8.toNat_ofNat', hlast, htwo, hthree, hfour,
    hsquare, hcube, Nat.add_lt_add_iff_right, Nat.add_right_cancel_iff] <;> omega

theorem flatMap_encode_lt : ∀ {l m : List Char}, l < m →
    l.flatMap String.utf8EncodeChar < m.flatMap String.utf8EncodeChar
  | [], [], h => absurd h (List.lt_irrefl [])
  | [], d :: m, _ => by
    obtain ⟨b, r, hb⟩ := List.exists_cons_of_ne_nil String.utf8EncodeChar_ne_nil
    rw [List.flatMap_nil, List.flatMap_cons, hb]
    exact List.nil_lt_cons _ _
  | c :: l, [], h => absurd h (List.not_lt_nil _)
  | c :: l, d :: m, h => by
    rw [List.flatMap_cons, List.flatMap_cons]
    rcases List.cons_lt_cons_iff.mp h with hlt | ⟨rfl, hlt⟩
    · exact encode_lt hlt _ _
    · exact List.append_left_lt (flatMap_encode_lt hlt)

theorem bytes_lt {s t : String} (h : s < t) : bytes s < bytes t := by
  rw [bytes_eq, bytes_eq]
  exact flatMap_encode_lt h

/-- Paths are compared name by name, and names by their bytes. -/
theorem map_bytes_lt_iff {p q : List String} : p.map bytes < q.map bytes ↔ p < q := by
  have hmono : ∀ {p q : List String}, p < q → p.map bytes < q.map bytes :=
    fun h => List.map_lt (fun _ _ => bytes_lt) h
  refine ⟨fun h => ?_, hmono⟩
  by_contra hnot
  rcases List.le_iff_lt_or_eq.mp (List.not_lt.mp hnot) with hlt | rfl
  · exact List.lt_asymm h (hmono hlt)
  · exact List.lt_irrefl _ h

end Text
end SignalGraph
