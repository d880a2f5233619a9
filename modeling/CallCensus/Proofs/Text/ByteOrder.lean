import CallCensus.Proofs.Text.Utf8

namespace CallCensus.Utf8

-- One text comes before another by the bytes that they are written as.
def Before (text other : String) : Prop := List.Lex (· < ·) (encode text) (encode other)

-- The bytes of a character, by the number of them.
inductive Spelled (char : Char) : Prop where
  | one (hlt : char.toNat < 0x80) (hbytes : String.utf8EncodeChar char = [.ofNat char.toNat])
  | two (hle : 0x80 ≤ char.toNat) (hlt : char.toNat < 0x800)
      (hbytes : String.utf8EncodeChar char =
        [.ofNat (0xC0 + char.toNat / 0x40), .ofNat (0x80 + char.toNat % 0x40)])
  | three (hle : 0x800 ≤ char.toNat) (hlt : char.toNat < 0x10000)
      (hbytes : String.utf8EncodeChar char =
        [.ofNat (0xE0 + char.toNat / 0x1000), .ofNat (0x80 + char.toNat / 0x40 % 0x40),
          .ofNat (0x80 + char.toNat % 0x40)])
  | four (hle : 0x10000 ≤ char.toNat)
      (hbytes : String.utf8EncodeChar char =
        [.ofNat (0xF0 + char.toNat / 0x40000), .ofNat (0x80 + char.toNat / 0x1000 % 0x40),
          .ofNat (0x80 + char.toNat / 0x40 % 0x40), .ofNat (0x80 + char.toNat % 0x40)])

theorem toNat_char_lt (char : Char) : char.toNat < 0x110000 := by
  rcases char.valid with hlow | ⟨-, hhigh⟩
  · exact Nat.lt_trans hlow (by decide)
  · exact hhigh

theorem spelled (char : Char) : Spelled char := by
  have hmax := toNat_char_lt char
  have hvalue : char.val.toNat = char.toNat := rfl
  by_cases hone : char.toNat ≤ 0x7F
  · exact .one (by omega) (by rw [String.utf8EncodeChar, hvalue, if_pos hone])
  by_cases htwo : char.toNat ≤ 0x7FF
  · refine .two (by omega) (by omega) ?_
    have hlead : char.toNat / 64 % 32 + 192 = 0xC0 + char.toNat / 0x40 := by omega
    rw [String.utf8EncodeChar, hvalue, if_neg hone, if_pos htwo, hlead, Nat.add_comm _ 128]
  by_cases hthree : char.toNat ≤ 0xFFFF
  · refine .three (by omega) (by omega) ?_
    have hlead : char.toNat / 4096 % 16 + 224 = 0xE0 + char.toNat / 0x1000 := by omega
    rw [String.utf8EncodeChar, hvalue, if_neg hone, if_neg htwo, if_pos hthree, hlead,
      Nat.add_comm _ 128, Nat.add_comm _ 128]
  · refine .four (by omega) ?_
    have hlead : char.toNat / 262144 % 8 + 240 = 0xF0 + char.toNat / 0x40000 := by omega
    rw [String.utf8EncodeChar, hvalue, if_neg hone, if_neg htwo, if_neg hthree, hlead,
      Nat.add_comm _ 128, Nat.add_comm _ 128, Nat.add_comm _ 128]

section Lex

variable {value greater : Nat} {rest after : List UInt8}

theorem lex_of_lt (hbyte : greater < 0x100) (h : value < greater) :
    List.Lex (· < ·) (UInt8.ofNat value :: rest) (UInt8.ofNat greater :: after) := by
  apply List.Lex.rel
  rw [UInt8.lt_iff_toNat_lt, UInt8.toNat_ofNat', UInt8.toNat_ofNat']
  omega

theorem lex_of_le (hbyte : greater < 0x100) (hle : value ≤ greater)
    (h : value = greater → List.Lex (· < ·) rest after) :
    List.Lex (· < ·) (UInt8.ofNat value :: rest) (UInt8.ofNat greater :: after) := by
  rcases Nat.lt_or_eq_of_le hle with hlt | rfl
  · exact lex_of_lt hbyte hlt
  · exact .cons (h rfl)

theorem lex_append_left (front : List UInt8) (h : List.Lex (· < ·) rest after) :
    List.Lex (· < ·) (front ++ rest) (front ++ after) := by
  induction front with
  | nil => exact h
  | cons _ _ ih => exact .cons ih

-- A character with more bytes has a greater one in front. Of characters with as many bytes the first
-- byte that differs decides, whatever stands behind them.
theorem lex_utf8EncodeChar {char other : Char} (h : char < other) :
    List.Lex (· < ·) (String.utf8EncodeChar char ++ rest) (String.utf8EncodeChar other ++ after) := by
  have hlt : char.toNat < other.toNat := h
  have hmax := toNat_char_lt other
  cases spelled char with
  | one hchar hbytes =>
      rw [hbytes]
      cases spelled other with
      | one _ hbytes => rw [hbytes]; exact lex_of_lt (by omega) hlt
      | two _ _ hbytes => rw [hbytes]; exact lex_of_lt (by omega) (by omega)
      | three _ _ hbytes => rw [hbytes]; exact lex_of_lt (by omega) (by omega)
      | four _ hbytes => rw [hbytes]; exact lex_of_lt (by omega) (by omega)
  | two _ _ hbytes =>
      rw [hbytes]
      cases spelled other with
      | one _ _ => omega
      | two _ _ hbytes =>
          rw [hbytes]
          exact lex_of_le (by omega) (by omega) fun _ => lex_of_lt (by omega) (by omega)
      | three _ _ hbytes => rw [hbytes]; exact lex_of_lt (by omega) (by omega)
      | four _ hbytes => rw [hbytes]; exact lex_of_lt (by omega) (by omega)
  | three _ _ hbytes =>
      rw [hbytes]
      cases spelled other with
      | one _ _ => omega
      | two _ _ _ => omega
      | three _ _ hbytes =>
          rw [hbytes]
          exact lex_of_le (by omega) (by omega) fun _ => lex_of_le (by omega) (by omega) fun _ =>
            lex_of_lt (by omega) (by omega)
      | four _ hbytes => rw [hbytes]; exact lex_of_lt (by omega) (by omega)
  | four _ hbytes =>
      rw [hbytes]
      cases spelled other with
      | one _ _ => omega
      | two _ _ _ => omega
      | three _ _ _ => omega
      | four _ hbytes =>
          rw [hbytes]
          exact lex_of_le (by omega) (by omega) fun _ => lex_of_le (by omega) (by omega) fun _ =>
            lex_of_le (by omega) (by omega) fun _ => lex_of_lt (by omega) (by omega)

end Lex

theorem lex_flatMap_utf8EncodeChar {chars others : List Char} (h : List.Lex (· < ·) chars others) :
    List.Lex (· < ·) (chars.flatMap String.utf8EncodeChar)
      (others.flatMap String.utf8EncodeChar) := by
  induction h with
  | @nil char rest =>
      rw [List.flatMap_cons]
      cases hbytes : String.utf8EncodeChar char with
      | nil => exact absurd hbytes (String.utf8EncodeChar_ne_nil)
      | cons byte bytes => exact .nil
  | rel hlt => exact lex_utf8EncodeChar hlt
  | cons _ ih => exact lex_append_left _ ih

section Before

variable {text other : String}

theorem before_irrefl (text : String) : ¬ Before text text :=
  List.lex_irrefl (fun byte => UInt8.lt_irrefl byte) (encode text)

theorem before_of_lt (h : text < other) : Before text other := by
  rw [Before, encode_eq_flatMap, encode_eq_flatMap]
  exact lex_flatMap_utf8EncodeChar (String.lt_iff.mp h)

-- To compare texts by their bytes is to compare them by their characters.
theorem before_iff_lt : Before text other ↔ text < other := by
  constructor
  · intro h
    by_cases heq : text = other
    · exact absurd (heq ▸ h) (before_irrefl other)
    · apply Decidable.byContradiction
      intro hnlt
      have hgt : other < text := Std.lt_of_le_of_ne (String.not_lt.mp hnlt) (Ne.symm heq)
      exact before_irrefl text (List.lex_trans UInt8.lt_trans h (before_of_lt hgt))
  · exact before_of_lt

end Before

end CallCensus.Utf8
