/-! Texts and their bytes. A text is read back from its bytes, and texts are in the order of their
bytes (`lt_iff_bytes`): a character that comes before another has bytes that come before those of
the other, whatever follows either (`utf8EncodeChar_lt`). The byte of a line feed stands for nothing
else (`newLine_mem_of_mem_bytes`). -/

namespace Scaffold.Text

theorem fromUTF8?_toUTF8 (text : String) : String.fromUTF8? text.toUTF8 = some text := by
  have valid : text.toUTF8.IsValidUTF8 := text.isValidUTF8
  rw [String.fromUTF8?, dif_pos valid]
  rfl

def bytes (text : String) : List UInt8 := text.toUTF8.data.toList

theorem bytes_eq (text : String) : bytes text = text.toList.flatMap String.utf8EncodeChar := by
  rw [bytes, String.toUTF8_eq_toByteArray, ← String.utf8Encode_toList, List.utf8Encode,
    List.data_toByteArray]

theorem bytes_append (first second : String) : bytes (first ++ second) = bytes first ++ bytes second := by
  simp only [bytes_eq, String.toList_append, List.flatMap_append]

theorem bytes_ne_nil {text : String} (filled : text ≠ "") : bytes text ≠ [] := by
  obtain ⟨c, cs, split⟩ := List.exists_cons_of_ne_nil (by simpa using filled : text.toList ≠ [])
  rw [bytes_eq, split, List.flatMap_cons]
  exact List.append_ne_nil_of_left_ne_nil String.utf8EncodeChar_ne_nil _

theorem toByteArray_bytes (text : String) : (bytes text).toByteArray = text.toUTF8 := by
  apply ByteArray.ext
  rw [List.data_toByteArray, bytes, Array.toArray_toList]

theorem bytes_newLine : bytes "\n" = [10] := by
  rw [bytes_eq]
  rfl

theorem ofNat_lt_ofNat {m n : Nat} (small : m < 256) (bound : n < 256) :
    UInt8.ofNat m < UInt8.ofNat n ↔ m < n := by
  rw [UInt8.lt_iff_toNat_lt, UInt8.toNat_ofNat_of_lt' small, UInt8.toNat_ofNat_of_lt' bound]

theorem ofNat_eq_ofNat {m n : Nat} (small : m < 256) (bound : n < 256) :
    UInt8.ofNat m = UInt8.ofNat n ↔ m = n := by
  rw [← UInt8.toNat_inj, UInt8.toNat_ofNat_of_lt' small, UInt8.toNat_ofNat_of_lt' bound]

theorem utf8EncodeChar_lt {c d : Char} (before : c < d) (rest others : List UInt8) :
    String.utf8EncodeChar c ++ rest < String.utf8EncodeChar d ++ others := by
  have less : c.val.toNat < d.val.toNat := before
  have limit : d.val.toNat < 0x110000 := by
    have := d.valid
    simp only [UInt32.isValidChar, Nat.isValidChar] at this
    omega
  unfold String.utf8EncodeChar
  generalize c.val.toNat = m at *
  generalize d.val.toNat = n at *
  -- A number in groups of six bits, which decide one after the other.
  have groups (k : Nat) (bounded : k < 0x110000) : k = 262144 * (k / 262144 % 8) +
      4096 * (k / 4096 % 64) + 64 * (k / 64 % 64) + k % 64 := by
    have top : k / 262144 % 8 = k / 262144 := Nat.mod_eq_of_lt (by omega)
    omega
  have first := groups m (Nat.lt_trans less limit)
  have second := groups n limit
  dsimp only
  repeat' split
  all_goals
    simp (disch := omega) only [List.cons_append, List.nil_append, List.cons_lt_cons_iff,
      ofNat_lt_ofNat, ofNat_eq_ofNat]
    omega

theorem eq_newLine_of_mem_utf8EncodeChar {c : Char} (feed : 10 ∈ String.utf8EncodeChar c) :
    c = '\n' := by
  have number : c.val.toNat = 10 := by
    unfold String.utf8EncodeChar at feed
    generalize c.val.toNat = n at *
    have ten : (10 : UInt8) = UInt8.ofNat 10 := rfl
    rw [ten] at feed
    dsimp only at feed
    repeat' split at feed
    all_goals
      simp (disch := omega) only [List.mem_cons, List.not_mem_nil, or_false, ofNat_eq_ofNat] at feed
      omega
  exact Char.toNat_inj.mp number

theorem newLine_mem_of_mem_bytes {text : String} (feed : 10 ∈ bytes text) : '\n' ∈ text.toList := by
  rw [bytes_eq] at feed
  obtain ⟨c, present, inside⟩ := List.mem_flatMap.mp feed
  rwa [← eq_newLine_of_mem_utf8EncodeChar inside]

theorem flatMap_utf8EncodeChar_lt {cs ds : List Char} (before : cs < ds) :
    cs.flatMap String.utf8EncodeChar < ds.flatMap String.utf8EncodeChar := by
  induction cs generalizing ds with
  | nil =>
    cases ds with
    | nil => cases before
    | cons d ds =>
      obtain ⟨first, rest, split⟩ := List.exists_cons_of_ne_nil (@String.utf8EncodeChar_ne_nil d)
      rw [List.flatMap_cons, split]
      exact List.nil_lt_cons _ _
  | cons c cs ih =>
    cases ds with
    | nil => cases before
    | cons d ds =>
      rw [List.flatMap_cons, List.flatMap_cons]
      rcases List.cons_lt_cons_iff.mp before with less | ⟨rfl, later⟩
      · exact utf8EncodeChar_lt less _ _
      · exact List.append_left_lt (ih later)

theorem bytes_lt_bytes {a b : String} (before : a < b) : bytes a < bytes b := by
  rw [bytes_eq, bytes_eq]
  exact flatMap_utf8EncodeChar_lt (String.lt_iff.mp before)

theorem lt_iff_bytes (a b : String) : a < b ↔ bytes a < bytes b := by
  refine ⟨bytes_lt_bytes, fun before => ?_⟩
  rcases Std.lt_trichotomy a b with less | rfl | more
  · exact less
  · exact absurd before Std.lt_irrefl
  · exact absurd (Std.lt_trans before (bytes_lt_bytes more)) Std.lt_irrefl

end Scaffold.Text
