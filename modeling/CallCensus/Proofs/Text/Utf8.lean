import CallCensus.Text.Utf8

namespace CallCensus.Utf8

theorem encode_eq_flatMap (text : String) : encode text = text.toList.flatMap String.utf8EncodeChar := by
  have hbytes : text.toByteArray = (text.toList.flatMap String.utf8EncodeChar).toByteArray := by
    rw [← List.utf8Encode, String.utf8Encode_toList]
  rw [encode, hbytes]
  simp

theorem utf8EncodeChar_of_lt {char : Char} (h : char.toNat < 0x80) :
    String.utf8EncodeChar char = [UInt8.ofNat char.toNat] :=
  if_pos (Nat.le_of_lt_succ h)

theorem le_of_mem_utf8EncodeChar {char : Char} (h : 0x80 ≤ char.toNat) {byte : UInt8}
    (hmem : byte ∈ String.utf8EncodeChar char) : 0x80 ≤ byte.toNat := by
  have hbyte (value : Nat) (hlow : 0x80 ≤ value % 0x100) : 0x80 ≤ (UInt8.ofNat value).toNat := by
    rwa [UInt8.toNat_ofNat']
  have hhigh : ¬ char.val.toNat ≤ 0x7F := Nat.not_le_of_lt h
  simp only [String.utf8EncodeChar, if_neg hhigh] at hmem
  split at hmem
  · simp only [List.mem_cons, List.not_mem_nil, or_false] at hmem
    rcases hmem with rfl | rfl <;> apply hbyte <;> omega
  · split at hmem
    · simp only [List.mem_cons, List.not_mem_nil, or_false] at hmem
      rcases hmem with rfl | rfl | rfl <;> apply hbyte <;> omega
    · simp only [List.mem_cons, List.not_mem_nil, or_false] at hmem
      rcases hmem with rfl | rfl | rfl | rfl <;> apply hbyte <;> omega

-- A newline is one byte, and no other character has that byte in it.
theorem count_newline_utf8EncodeChar (char : Char) :
    (String.utf8EncodeChar char).count 0x0A = if char = '\n' then 1 else 0 := by
  by_cases h : char.toNat < 0x80
  · have hbyte : UInt8.ofNat char.toNat = 0x0A ↔ char = '\n' := by
      rw [← UInt8.toNat_inj, UInt8.toNat_ofNat', ← Char.toNat_inj]
      show char.toNat % 256 = 10 ↔ char.toNat = 10
      omega
    rw [utf8EncodeChar_of_lt h, List.count_singleton]
    simp only [beq_iff_eq, hbyte]
  · have hne : char ≠ '\n' := by
      rintro rfl
      exact h (by decide)
    rw [if_neg hne, List.count_eq_zero]
    intro hmem
    have hle := le_of_mem_utf8EncodeChar (by omega) hmem
    exact absurd hle (by decide)

theorem count_newline_encode (text : String) :
    (encode text).count 0x0A = text.toList.count '\n' := by
  rw [encode_eq_flatMap]
  induction text.toList with
  | nil => rfl
  | cons char chars ih =>
      rw [List.flatMap_cons, List.count_append, ih, count_newline_utf8EncodeChar, List.count_cons,
        Nat.add_comm]
      simp only [beq_iff_eq]

end CallCensus.Utf8
