import CallCensus.Text.Utf16

namespace CallCensus.Utf16

theorem isHigh_iff {unit : UInt16} : isHigh unit ↔ 0xD800 ≤ unit.toNat ∧ unit.toNat ≤ 0xDBFF := by
  simp [isHigh, UInt16.le_iff_toNat_le]

theorem isLow_iff {unit : UInt16} : isLow unit ↔ 0xDC00 ≤ unit.toNat ∧ unit.toNat ≤ 0xDFFF := by
  simp [isLow, UInt16.le_iff_toNat_le]

-- No character has the number of a surrogate.
theorem toNat_char (char : Char) :
    char.toNat < 0xD800 ∨ 0xDFFF < char.toNat ∧ char.toNat < 0x110000 :=
  char.valid

theorem toNat_ofNat {value : Nat} (h : value < 0xD800 ∨ 0xDFFF < value ∧ value < 0x110000) :
    (Char.ofNat value).toNat = value := by
  rw [Char.ofNat, dif_pos h]
  rfl

theorem decode?_cons {unit : UInt16} (hhigh : ¬ isHigh unit) (hlow : ¬ isLow unit)
    (rest : List UInt16) :
    decode? (unit :: rest) = (decode? rest).map (Char.ofNat unit.toNat :: ·) := by
  rw [decode?.eq_def]
  simp only [if_neg hhigh, if_neg hlow]

theorem decode?_pair {high low : UInt16} (hhigh : isHigh high) (hlow : isLow low)
    (rest : List UInt16) :
    decode? (high :: low :: rest) = (decode? rest).map (ofPair high low :: ·) := by
  rw [decode?.eq_def]
  simp only [if_pos hhigh, if_pos hlow]

theorem ofChar_ofNat {unit : UInt16} (hhigh : ¬ isHigh unit) (hlow : ¬ isLow unit) :
    ofChar (Char.ofNat unit.toNat) = [unit] := by
  have hlt := unit.toNat_lt
  rw [isHigh_iff] at hhigh
  rw [isLow_iff] at hlow
  have hnumber : (Char.ofNat unit.toNat).toNat = unit.toNat := toNat_ofNat (by omega)
  rw [ofChar, hnumber, if_pos hlt]
  simp

theorem ofChar_ofPair {high low : UInt16} (hhigh : isHigh high) (hlow : isLow low) :
    ofChar (ofPair high low) = [high, low] := by
  rw [isHigh_iff] at hhigh
  rw [isLow_iff] at hlow
  have hnumber : (ofPair high low).toNat =
      0x10000 + (high.toNat - 0xD800) * 0x400 + (low.toNat - 0xDC00) := toNat_ofNat (by omega)
  have hfirst : 0xD800 + ((ofPair high low).toNat - 0x10000) / 0x400 = high.toNat := by omega
  have hsecond : 0xDC00 + ((ofPair high low).toNat - 0x10000) % 0x400 = low.toNat := by omega
  have hlarge : ¬ (ofPair high low).toNat < 0x10000 := by omega
  rw [ofChar, if_neg hlarge]
  simp [hfirst, hsecond]

theorem exists_pair {char : Char} (h : ¬ char.toNat < 0x10000) :
    ∃ high low, ofChar char = [high, low] ∧ isHigh high ∧ isLow low ∧ ofPair high low = char := by
  have hchar := toNat_char char
  have hfirst : (0xD800 + (char.toNat - 0x10000) / 0x400).toUInt16.toNat =
      0xD800 + (char.toNat - 0x10000) / 0x400 :=
    UInt16.toNat_ofNat_of_lt' (Nat.lt_trans (m := 0xDC00) (by omega) (by decide))
  have hsecond : (0xDC00 + (char.toNat - 0x10000) % 0x400).toUInt16.toNat =
      0xDC00 + (char.toNat - 0x10000) % 0x400 :=
    UInt16.toNat_ofNat_of_lt' (Nat.lt_trans (m := 0xE000) (by omega) (by decide))
  refine ⟨_, _, if_neg h, ?_, ?_, ?_⟩
  · rw [isHigh_iff, hfirst]
    omega
  · rw [isLow_iff, hsecond]
    omega
  · apply Char.toNat_inj.mp
    rw [ofPair, hfirst, hsecond, toNat_ofNat (by omega)]
    omega

theorem not_surrogate_of_small {char : Char} (h : char.toNat < 0x10000) :
    ¬ isHigh char.toNat.toUInt16 ∧ ¬ isLow char.toNat.toUInt16 := by
  have hchar := toNat_char char
  have hunit : char.toNat.toUInt16.toNat = char.toNat := UInt16.toNat_ofNat_of_lt' h
  rw [isHigh_iff, isLow_iff, hunit]
  omega

theorem decode?_ofChar_append (char : Char) (rest : List UInt16) :
    decode? (ofChar char ++ rest) = (decode? rest).map (char :: ·) := by
  by_cases hsmall : char.toNat < 0x10000
  · obtain ⟨hhigh, hlow⟩ := not_surrogate_of_small hsmall
    have hunit : char.toNat.toUInt16.toNat = char.toNat := UInt16.toNat_ofNat_of_lt' hsmall
    rw [ofChar, if_pos hsmall, List.singleton_append, decode?_cons hhigh hlow, hunit,
      Char.ofNat_toNat]
  · obtain ⟨high, low, hunits, hhigh, hlow, rfl⟩ := exists_pair hsmall
    rw [hunits]
    exact decode?_pair hhigh hlow rest

theorem eq_encode_of_decode? {units : List UInt16} {text : List Char}
    (h : decode? units = some text) : units = encode text := by
  induction units using decode?.induct generalizing text with
  | case1 =>
      cases h
      rfl
  | case2 unit hhigh => simp [decode?, hhigh] at h
  | case3 high hhigh low rest hlow ih =>
      rw [decode?_pair hhigh hlow] at h
      obtain ⟨chars, hchars, rfl⟩ := Option.map_eq_some_iff.mp h
      rw [encode, List.flatMap_cons, ← encode, ofChar_ofPair hhigh hlow, ← ih hchars]
      rfl
  | case4 high hhigh low rest hlow =>
      rw [decode?.eq_def] at h
      simp [hhigh, hlow] at h
  | case5 unit rest hhigh hlow =>
      rw [decode?.eq_def] at h
      simp [hhigh, hlow] at h
  | case6 unit rest hhigh hlow ih =>
      rw [decode?_cons hhigh hlow] at h
      obtain ⟨chars, hchars, rfl⟩ := Option.map_eq_some_iff.mp h
      rw [encode, List.flatMap_cons, ← encode, ofChar_ofNat hhigh hlow, ← ih hchars]
      rfl

-- The code units of a text spell that text, and no others do.
theorem decode?_eq_some_iff {units : List UInt16} {text : List Char} :
    decode? units = some text ↔ units = encode text := by
  constructor
  · exact eq_encode_of_decode?
  · rintro rfl
    induction text with
    | nil => rfl
    | cons char text ih =>
        rw [encode, List.flatMap_cons, ← encode, decode?_ofChar_append, ih]
        rfl

-- Code units in which every surrogate is one of a pair.
inductive Paired : List UInt16 → Prop where
  | nil : Paired []
  | single {unit : UInt16} {rest : List UInt16} (hhigh : ¬ isHigh unit) (hlow : ¬ isLow unit)
      (hrest : Paired rest) : Paired (unit :: rest)
  | pair {high low : UInt16} {rest : List UInt16} (hhigh : isHigh high) (hlow : isLow low)
      (hrest : Paired rest) : Paired (high :: low :: rest)

theorem paired_encode (text : List Char) : Paired (encode text) := by
  induction text with
  | nil => exact .nil
  | cons char text ih =>
      rw [encode, List.flatMap_cons, ← encode]
      by_cases hsmall : char.toNat < 0x10000
      · obtain ⟨hhigh, hlow⟩ := not_surrogate_of_small hsmall
        rw [ofChar, if_pos hsmall]
        exact .single hhigh hlow ih
      · obtain ⟨high, low, hunits, hhigh, hlow, -⟩ := exists_pair hsmall
        rw [hunits]
        exact .pair hhigh hlow ih

-- These are the code units of texts.
theorem paired_iff_exists_text {units : List UInt16} :
    Paired units ↔ ∃ text, units = encode text := by
  constructor
  · intro h
    induction h with
    | nil => exact ⟨[], rfl⟩
    | @single unit rest hhigh hlow _ ih =>
        obtain ⟨text, rfl⟩ := ih
        refine ⟨Char.ofNat unit.toNat :: text, ?_⟩
        rw [encode, encode, List.flatMap_cons, ofChar_ofNat hhigh hlow]
        rfl
    | @pair high low rest hhigh hlow _ ih =>
        obtain ⟨text, rfl⟩ := ih
        refine ⟨ofPair high low :: text, ?_⟩
        rw [encode, encode, List.flatMap_cons, ofChar_ofPair hhigh hlow]
        rfl
  · rintro ⟨text, rfl⟩
    exact paired_encode text

theorem decode?_eq_none_iff {units : List UInt16} : decode? units = none ↔ ¬ Paired units := by
  rw [paired_iff_exists_text, Option.eq_none_iff_forall_ne_some, not_exists]
  simp only [ne_eq, decode?_eq_some_iff]

end CallCensus.Utf16
