import ScriptCheck.Text.Utf8

/-!
# Bytes and texts

The bytes of a text tell the text, and reading them with replacement characters gives it back.
-/

namespace ScriptCheck

/-! ### Bytes -/

theorem toList_loop_eq (bytes : ByteArray) (i : Nat) (before : List UInt8) :
    ByteArray.toList.loop bytes i before = before.reverse ++ bytes.data.toList.drop i := by
  fun_induction ByteArray.toList.loop bytes i before with
  | case1 i before h ih =>
    have hi : i < bytes.data.toList.length := h
    rw [ih, List.drop_eq_getElem_cons hi]
    simp [ByteArray.get!, h]
  | case2 i before h =>
    rw [List.drop_eq_nil_of_le (Nat.le_of_not_lt h)]
    simp

theorem utf8Bytes_eq (text : String) : utf8Bytes text = text.toByteArray.data.toList := by
  simp [utf8Bytes, ByteArray.toList, toList_loop_eq]

theorem utf8Bytes_append (s t : String) : utf8Bytes (s ++ t) = utf8Bytes s ++ utf8Bytes t := by
  simp [utf8Bytes_eq]

/-- Different texts are different as bytes. -/
theorem utf8Bytes_inj {s t : String} : utf8Bytes s = utf8Bytes t ↔ s = t := by
  constructor
  · intro h
    rw [utf8Bytes_eq, utf8Bytes_eq] at h
    apply String.toByteArray_inj.1
    apply ByteArray.ext
    exact Array.toList_inj.1 h
  · rintro rfl
    rfl

/-- Bytes are decoded if and only if they spell a text. -/
theorem fromUTF8?_eq_some_iff {bytes : ByteArray} {text : String} :
    String.fromUTF8? bytes = some text ↔ bytes = text.toUTF8 := by
  constructor
  · intro h
    unfold String.fromUTF8? at h
    split at h
    · cases h
      rfl
    · cases h
  · rintro rfl
    exact dif_pos text.isValidUTF8

theorem eq_toUTF8_iff {line : List UInt8} {text : String} :
    (⟨line.toArray⟩ : ByteArray) = text.toUTF8 ↔ line = utf8Bytes text := by
  rw [utf8Bytes_eq, ByteArray.ext_iff]
  constructor
  · rintro h
    exact congrArg Array.toList h
  · rintro rfl
    rfl

theorem utf8Bytes_eq_flatMap (text : String) :
    utf8Bytes text = text.toList.flatMap String.utf8EncodeChar := by
  rw [utf8Bytes_eq, ← String.utf8Encode_toList]
  simp [List.utf8Encode]

/-! ### Any bytes as a text -/

namespace Begun

variable {value low high more n : Nat} {bytes : List UInt8}

theorem toNat_ofNat (h : n < 256) : (UInt8.ofNat n).toNat = n :=
  UInt8.toNat_ofNat_of_lt h

theorem read_of_one (h : n < 0x80) :
    read none (UInt8.ofNat n :: bytes) = Char.ofNat n :: read none bytes := by
  have hn : (UInt8.ofNat n).toNat = n := toNat_ofNat (by omega)
  simp [read, next, first, hn, h]

theorem read_of_two (h : 2 ≤ n ∧ n < 0x20) :
    read none (UInt8.ofNat (n + 0xC0) :: bytes) = read (some ⟨n, 0x80, 0xBF, 0⟩) bytes := by
  have hn : (UInt8.ofNat (n + 0xC0)).toNat = n + 0xC0 := toNat_ofNat (by omega)
  simp only [read, next, first, hn, Nat.add_sub_cancel]
  rw [if_neg (by omega), if_pos (by omega), List.nil_append]

theorem read_of_three (h : n < 0x10) :
    read none (UInt8.ofNat (n + 0xE0) :: bytes) =
      read (some ⟨n, if n = 0 then 0xA0 else 0x80, if n = 13 then 0x9F else 0xBF, 1⟩) bytes := by
  have hn : (UInt8.ofNat (n + 0xE0)).toNat = n + 0xE0 := toNat_ofNat (by omega)
  simp only [read, next, first, hn, Nat.add_sub_cancel, Nat.add_eq_right, Nat.reduceEqDiff]
  rw [if_neg (by omega), if_neg (by omega), if_pos (by omega), List.nil_append]

theorem read_of_four (h : n < 5) :
    read none (UInt8.ofNat (n + 0xF0) :: bytes) =
      read (some ⟨n, if n = 0 then 0x90 else 0x80, if n = 4 then 0x8F else 0xBF, 2⟩) bytes := by
  have hn : (UInt8.ofNat (n + 0xF0)).toNat = n + 0xF0 := toNat_ofNat (by omega)
  simp only [read, next, first, hn, Nat.add_sub_cancel, Nat.add_eq_right, Nat.reduceEqDiff]
  rw [if_neg (by omega), if_neg (by omega), if_neg (by omega), if_pos (by omega), List.nil_append]

theorem read_of_last (hn : n < 0x40) (h : low ≤ n + 0x80 ∧ n + 0x80 ≤ high) :
    read (some ⟨value, low, high, 0⟩) (UInt8.ofNat (n + 0x80) :: bytes) =
      Char.ofNat (64 * value + n) :: read none bytes := by
  have hb : (UInt8.ofNat (n + 0x80)).toNat = n + 0x80 := toNat_ofNat (by omega)
  simp only [read, next, hb, if_pos h, Nat.add_sub_cancel, List.singleton_append]

theorem read_of_more (hn : n < 0x40) (h : low ≤ n + 0x80 ∧ n + 0x80 ≤ high) :
    read (some ⟨value, low, high, more + 1⟩) (UInt8.ofNat (n + 0x80) :: bytes) =
      read (some ⟨64 * value + n, 0x80, 0xBF, more⟩) bytes := by
  have hb : (UInt8.ofNat (n + 0x80)).toNat = n + 0x80 := toNat_ofNat (by omega)
  simp only [read, next, hb, if_pos h, Nat.add_sub_cancel, List.nil_append]

/-- The encoding of a character is read as that character. -/
theorem read_utf8EncodeChar (c : Char) (bytes : List UInt8) :
    read none (String.utf8EncodeChar c ++ bytes) = c :: read none bytes := by
  obtain ⟨v, hv⟩ : ∃ v, v = c.val.toNat := ⟨_, rfl⟩
  have hc : Char.ofNat v = c := by
    rw [hv]
    exact Char.ofNat_toNat c
  have hvalid : v < 0xD800 ∨ 0xDFFF < v ∧ v < 0x110000 := by
    rw [hv]
    exact c.valid
  simp only [String.utf8EncodeChar, ← hv]
  split
  · rw [List.singleton_append, read_of_one (by omega), hc]
  split
  · have hvalue : 64 * (v / 64 % 0x20) + v % 0x40 = v := by omega
    rw [List.cons_append, read_of_two, List.singleton_append, read_of_last, hvalue, hc]
    all_goals omega
  split
  · have hvalue : 64 * (64 * (v / 4096 % 0x10) + v / 64 % 0x40) + v % 0x40 = v := by omega
    have hsecond : (if v / 4096 % 0x10 = 0 then 0xA0 else 0x80) ≤ v / 64 % 0x40 + 0x80 ∧
        v / 64 % 0x40 + 0x80 ≤ if v / 4096 % 0x10 = 13 then 0x9F else 0xBF := by
      constructor <;> split <;> omega
    rw [List.cons_append, read_of_three, List.cons_append, read_of_more _ hsecond,
      List.singleton_append, read_of_last, hvalue, hc]
    all_goals omega
  · have hvalue : 64 * (64 * (64 * (v / 262144 % 0x08) + v / 4096 % 0x40) + v / 64 % 0x40) +
        v % 0x40 = v := by omega
    have hsecond : (if v / 262144 % 0x08 = 0 then 0x90 else 0x80) ≤ v / 4096 % 0x40 + 0x80 ∧
        v / 4096 % 0x40 + 0x80 ≤ if v / 262144 % 0x08 = 4 then 0x8F else 0xBF := by
      constructor <;> split <;> omega
    rw [List.cons_append, read_of_four, List.cons_append, read_of_more _ hsecond,
      List.cons_append, read_of_more, List.singleton_append, read_of_last, hvalue, hc]
    all_goals omega

end Begun

theorem lossyText_utf8Bytes (text : String) : lossyText (utf8Bytes text) = text := by
  have h (letters : List Char) :
      Begun.read none (letters.flatMap String.utf8EncodeChar) = letters := by
    induction letters with
    | nil => rfl
    | cons c letters ih => rw [List.flatMap_cons, Begun.read_utf8EncodeChar, ih]
  rw [lossyText, utf8Bytes_eq_flatMap, h, String.ofList_toList]

end ScriptCheck
