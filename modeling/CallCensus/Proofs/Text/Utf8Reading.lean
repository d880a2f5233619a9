import CallCensus.Proofs.Text.ByteOrder

namespace CallCensus.Utf8

section Steps

variable {lead count low high value byte : Nat} {rest following : List UInt8}

theorem extend_cons (hlow : low ≤ byte) (hhigh : byte ≤ high) (hbyte : byte < 0x100)
    (count value : Nat) (rest : List UInt8) :
    extend (count + 1) low high value (UInt8.ofNat byte :: rest) =
      extend count 0x80 0xBF (value * 64 + byte % 64) rest := by
  have htoNat : (UInt8.ofNat byte).toNat = byte := by
    rw [UInt8.toNat_ofNat']
    omega
  rw [extend, htoNat, if_pos ⟨hlow, hhigh⟩]

theorem decodeLossy_of_extend (hlead : lead < 0x100)
    (hcontinuation : continuation lead = some (count, low, high))
    (hextend : extend count low high (leadBits lead count) rest = (some value, following)) :
    decodeLossy (UInt8.ofNat lead :: rest) = Char.ofNat value :: decodeLossy following := by
  have htoNat : (UInt8.ofNat lead).toNat = lead := by
    rw [UInt8.toNat_ofNat']
    omega
  rw [decodeLossy, htoNat, hcontinuation]
  simp only [hextend]

end Steps

section Leads

variable {point : Nat}

theorem continuation_two (hle : 0x80 ≤ point) (hlt : point < 0x800) :
    continuation (0xC0 + point / 0x40) = some (1, 0x80, 0xBF) := by
  unfold continuation
  rw [if_neg (by omega), if_neg (by omega), if_pos (by omega)]

-- The range of the second byte leaves out what two bytes can say, and the surrogates.
theorem continuation_three (hle : 0x800 ≤ point) (hlt : point < 0x10000)
    (hvalid : point < 0xD800 ∨ 0xDFFF < point) :
    ∃ low high, continuation (0xE0 + point / 0x1000) = some (2, low, high) ∧
      low ≤ 0x80 + point / 0x40 % 0x40 ∧ 0x80 + point / 0x40 % 0x40 ≤ high := by
  unfold continuation
  rw [if_neg (by omega), if_neg (by omega), if_neg (by omega)]
  by_cases hfirst : 0xE0 + point / 0x1000 = 0xE0
  · exact ⟨_, _, if_pos hfirst, by omega, by omega⟩
  rw [if_neg hfirst]
  by_cases hsurrogate : 0xE0 + point / 0x1000 = 0xED
  · exact ⟨_, _, if_pos hsurrogate, by omega, by omega⟩
  · rw [if_neg hsurrogate]
    exact ⟨_, _, if_pos (by omega), by omega, by omega⟩

-- That of four bytes leaves out what three can say, and what is above the last character.
theorem continuation_four (hle : 0x10000 ≤ point) (hlt : point < 0x110000) :
    ∃ low high, continuation (0xF0 + point / 0x40000) = some (3, low, high) ∧
      low ≤ 0x80 + point / 0x1000 % 0x40 ∧ 0x80 + point / 0x1000 % 0x40 ≤ high := by
  unfold continuation
  rw [if_neg (by omega), if_neg (by omega), if_neg (by omega), if_neg (by omega), if_neg (by omega),
    if_neg (by omega)]
  by_cases hfirst : 0xF0 + point / 0x40000 = 0xF0
  · exact ⟨_, _, if_pos hfirst, by omega, by omega⟩
  rw [if_neg hfirst]
  by_cases hlast : 0xF0 + point / 0x40000 < 0xF4
  · exact ⟨_, _, if_pos hlast, by omega, by omega⟩
  · rw [if_neg hlast]
    exact ⟨_, _, if_pos (by omega), by omega, by omega⟩

end Leads

-- A character is read from its bytes, whatever is behind them.
theorem decodeLossy_utf8EncodeChar (char : Char) (rest : List UInt8) :
    decodeLossy (String.utf8EncodeChar char ++ rest) = char :: decodeLossy rest := by
  have hmax := toNat_char_lt char
  suffices h : decodeLossy (String.utf8EncodeChar char ++ rest) =
      Char.ofNat char.toNat :: decodeLossy rest by
    rw [h, Char.ofNat_toNat]
  cases spelled char with
  | one hlt hbytes =>
      rw [hbytes]
      have hcontinuation : continuation char.toNat = some (0, 0x80, 0xBF) := if_pos hlt
      exact decodeLossy_of_extend (by omega) hcontinuation rfl
  | two hle hlt hbytes =>
      simp only [hbytes, List.cons_append, List.nil_append]
      refine decodeLossy_of_extend (by omega) (continuation_two hle hlt) ?_
      rw [extend_cons (by omega) (by omega) (by omega), extend, leadBits]
      congr 2
      omega
  | three hle hlt hbytes =>
      simp only [hbytes, List.cons_append, List.nil_append]
      have hvalid : char.toNat < 0xD800 ∨ 0xDFFF < char.toNat := char.valid.imp_right And.left
      obtain ⟨low, high, hcontinuation, hlow, hhigh⟩ := continuation_three hle hlt hvalid
      refine decodeLossy_of_extend (by omega) hcontinuation ?_
      rw [extend_cons hlow hhigh (by omega),
        extend_cons (by omega) (by omega) (by omega), extend, leadBits]
      congr 2
      omega
  | four hle hbytes =>
      simp only [hbytes, List.cons_append, List.nil_append]
      obtain ⟨low, high, hcontinuation, hlow, hhigh⟩ := continuation_four hle hmax
      have hbits : leadBits (0xF0 + char.toNat / 0x40000) 3 = (0xF0 + char.toNat / 0x40000) % 8 := rfl
      refine decodeLossy_of_extend (by omega) hcontinuation ?_
      rw [extend_cons hlow hhigh (by omega),
        extend_cons (by omega) (by omega) (by omega),
        extend_cons (by omega) (by omega) (by omega), extend, hbits]
      congr 2
      omega

-- A text is read back from its bytes.
theorem decodeLossy_encode (text : String) : decodeLossy (encode text) = text.toList := by
  rw [encode_eq_flatMap]
  induction text.toList with
  | nil => rw [List.flatMap_nil, decodeLossy]
  | cons char chars ih => rw [List.flatMap_cons, decodeLossy_utf8EncodeChar, ih]

end CallCensus.Utf8
