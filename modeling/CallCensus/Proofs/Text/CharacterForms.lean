import CallCensus.Proofs.Text.ModifiedUtf8

namespace CallCensus.ModifiedUtf8

-- Sixteen bits in three bytes.
def threeBytes (value : Nat) : List UInt8 :=
  [(0xE0 + value / 0x1000).toUInt8, (0x80 + value / 0x40 % 0x40).toUInt8,
    (0x80 + value % 0x40).toUInt8]

-- The bytes of a character. One above U+FFFF is written as its two surrogates.
def form (char : Char) : List UInt8 :=
  let value := char.toNat
  if value = 0 then [0xC0, 0x80]
  else if value < 0x80 then [value.toUInt8]
  else if value < 0x800 then [(0xC0 + value / 0x40).toUInt8, (0x80 + value % 0x40).toUInt8]
  else if value < 0x10000 then threeBytes value
  else threeBytes (0xD800 + (value - 0x10000) / 0x400) ++
    threeBytes (0xDC00 + (value - 0x10000) % 0x400)

theorem ofUnit_toUInt16 {value : Nat} (h : value < 0x10000) :
    ofUnit value.toUInt16 =
      if value = 0 then [0xC0, 0x80]
      else if value < 0x80 then [value.toUInt8]
      else if value < 0x800 then [(0xC0 + value / 0x40).toUInt8, (0x80 + value % 0x40).toUInt8]
      else threeBytes value := by
  have hvalue : value.toUInt16.toNat = value := UInt16.toNat_ofNat_of_lt' h
  unfold ofUnit
  simp only [hvalue]
  by_cases hzero : value = 0
  · subst hzero
    rfl
  · have hpos : 0 < value := Nat.pos_of_ne_zero hzero
    simp only [hpos, hzero, true_and, if_false]
    rfl

theorem ofUnit_toUInt16_large {value : Nat} (hle : 0x800 ≤ value) (h : value < 0x10000) :
    ofUnit value.toUInt16 = threeBytes value := by
  have hzero : ¬ value = 0 := by omega
  have hone : ¬ value < 0x80 := by omega
  have htwo : ¬ value < 0x800 := by omega
  rw [ofUnit_toUInt16 h, if_neg hzero, if_neg hone, if_neg htwo]

theorem encodeUnits_ofChar (char : Char) : encodeUnits (Utf16.ofChar char) = form char := by
  have hvalid := Utf16.toNat_char char
  unfold Utf16.ofChar form
  by_cases hsmall : char.toNat < 0x10000
  · simp only [if_pos hsmall, encodeUnits, List.flatMap_cons, List.flatMap_nil, List.append_nil]
    exact ofUnit_toUInt16 hsmall
  · have hzero : ¬ char.toNat = 0 := by omega
    have hone : ¬ char.toNat < 0x80 := by omega
    have htwo : ¬ char.toNat < 0x800 := by omega
    simp only [if_neg hsmall, if_neg hzero, if_neg hone, if_neg htwo, encodeUnits,
      List.flatMap_cons, List.flatMap_nil, List.append_nil]
    rw [ofUnit_toUInt16_large (by omega) (by omega), ofUnit_toUInt16_large (by omega) (by omega)]

theorem encode_eq_flatMap_form (text : List Char) : encode text = text.flatMap form := by
  rw [encode, Utf16.encode, encodeUnits, List.flatMap_assoc]
  exact congrArg (text.flatMap ·) (funext encodeUnits_ofChar)

theorem decodeUnits?_encodeUnits_append (units : List UInt16) (rest : List UInt8) :
    decodeUnits? (encodeUnits units ++ rest) = (decodeUnits? rest).map (units ++ ·) := by
  induction units with
  | nil => simp [encodeUnits]
  | cons unit units ih =>
      rw [encodeUnits, List.flatMap_cons, ← encodeUnits, List.append_assoc,
        decodeUnits?_ofUnit_append, ih, Option.map_map]
      rfl

-- The form of a character is read as that character, whatever stands behind it.
theorem decode?_form_append (char : Char) (rest : List UInt8) :
    decode? (form char ++ rest) = (decode? rest).map (char :: ·) := by
  have hunits := decodeUnits?_encodeUnits_append (Utf16.ofChar char) rest
  rw [encodeUnits_ofChar] at hunits
  unfold decode?
  rw [hunits]
  cases decodeUnits? rest with
  | none => rfl
  | some units => exact Utf16.decode?_ofChar_append char units

theorem decode?_flatMap_form_append (front : List Char) (rest : List UInt8) :
    decode? (front.flatMap form ++ rest) = (decode? rest).map (front ++ ·) := by
  induction front with
  | nil => simp
  | cons char front ih =>
      rw [List.flatMap_cons, List.append_assoc, decode?_form_append, ih, Option.map_map]
      rfl

-- A byte that goes on with a form of several bytes.
def Continues (byte : UInt8) : Prop := 0x80 ≤ byte.toNat ∧ byte.toNat < 0xC0

-- The ways in which bytes fail to begin with the form of a character.
inductive Malformed : List UInt8 → Prop where
  -- Zero is written in two bytes.
  | zero (rest : List UInt8) : Malformed (0x00 :: rest)
  -- There is nothing to go on with.
  | stray {byte : UInt8} (hbyte : Continues byte) (rest : List UInt8) : Malformed (byte :: rest)
  -- Only other encodings have forms of four bytes and more.
  | long {first : UInt8} (hfirst : 0xF0 ≤ first.toNat) (rest : List UInt8) :
      Malformed (first :: rest)
  -- A form does not go on as its first byte announces.
  | brokenPair {first : UInt8} (hfirst : 0xC0 ≤ first.toNat ∧ first.toNat < 0xE0)
      {rest : List UInt8} (hrest : ¬ ∃ second after, rest = second :: after ∧ Continues second) :
      Malformed (first :: rest)
  | brokenTriple {first : UInt8} (hfirst : 0xE0 ≤ first.toNat ∧ first.toNat < 0xF0)
      {rest : List UInt8} (hrest : ¬ ∃ second third after,
        rest = second :: third :: after ∧ Continues second ∧ Continues third) :
      Malformed (first :: rest)
  -- A value stands in more bytes than it takes.
  | overlongPair {first second : UInt8}
      (hfirst : first.toNat = 0xC0 ∧ second.toNat ≠ 0x80 ∨ first.toNat = 0xC1)
      (hsecond : Continues second) (rest : List UInt8) : Malformed (first :: second :: rest)
  | overlongTriple {first second third : UInt8} (hfirst : first.toNat = 0xE0)
      (hvalue : second.toNat < 0xA0) (hsecond : Continues second) (hthird : Continues third)
      (rest : List UInt8) : Malformed (first :: second :: third :: rest)
  -- Surrogates stand alone or in the wrong order.
  | low {unit : UInt16} (hunit : Utf16.isLow unit) (rest : List UInt8) :
      Malformed (ofUnit unit ++ rest)
  | high {unit : UInt16} (hunit : Utf16.isHigh unit) {rest : List UInt8}
      (hrest : ¬ ∃ next after, Utf16.isLow next ∧ rest = ofUnit next ++ after) :
      Malformed (ofUnit unit ++ rest)

section Units

variable {first second third : UInt8}

theorem exists_ofUnit_eq_one_iff :
    (∃ unit, ofUnit unit = [first]) ↔ 0 < first.toNat ∧ first.toNat < 0x80 := by
  simp only [ofUnit_eq_one_iff]
  constructor
  · rintro ⟨unit, h⟩
    omega
  · intro h
    have hunit : first.toUInt16.toNat = first.toNat := UInt8.toNat_toUInt16 first
    exact ⟨first.toUInt16, by omega⟩

-- Of the first bytes of pairs two lead to values that take one byte, but zero is among these.
theorem exists_ofUnit_eq_two_iff :
    (∃ unit, ofUnit unit = [first, second]) ↔ 0xC0 ≤ first.toNat ∧ first.toNat < 0xE0 ∧
      Continues second ∧ (first.toNat < 0xC2 → first.toNat = 0xC0 ∧ second.toNat = 0x80) := by
  simp only [ofUnit_eq_two_iff, Continues]
  constructor
  · rintro ⟨unit, h⟩
    omega
  · intro h
    have hunit : ((first.toNat - 0xC0) * 0x40 + (second.toNat - 0x80)).toUInt16.toNat =
        (first.toNat - 0xC0) * 0x40 + (second.toNat - 0x80) :=
      UInt16.toNat_ofNat_of_lt' (Nat.lt_trans (m := 0x800) (by omega) (by decide))
    refine ⟨((first.toNat - 0xC0) * 0x40 + (second.toNat - 0x80)).toUInt16, ?_⟩
    omega

theorem exists_ofUnit_eq_three_iff :
    (∃ unit, ofUnit unit = [first, second, third]) ↔ 0xE0 ≤ first.toNat ∧ first.toNat < 0xF0 ∧
      Continues second ∧ Continues third ∧ (first.toNat = 0xE0 → 0xA0 ≤ second.toNat) := by
  simp only [ofUnit_eq_three_iff, Continues]
  constructor
  · rintro ⟨unit, h⟩
    have hlt := unit.toNat_lt
    omega
  · intro h
    have hlt : (first.toNat - 0xE0) * 0x1000 + (second.toNat - 0x80) * 0x40 +
        (third.toNat - 0x80) < 0x10000 := by omega
    have hunit := UInt16.toNat_ofNat_of_lt' hlt
    refine ⟨((first.toNat - 0xE0) * 0x1000 + (second.toNat - 0x80) * 0x40 +
      (third.toNat - 0x80)).toUInt16, ?_⟩
    rw [Nat.toUInt16_eq]
    omega

-- What the bytes in front of a text say about its first code unit.
theorem cases_of_ofUnit_append {unit : UInt16} {rest after : List UInt8}
    (h : first :: rest = ofUnit unit ++ after) :
    (0 < first.toNat ∧ first.toNat < 0x80) ∨
    (∃ second, rest = second :: after ∧ ∃ unit, ofUnit unit = [first, second]) ∨
      ∃ second third, rest = second :: third :: after ∧ ∃ unit, ofUnit unit = [first, second, third] := by
  obtain ⟨head, hunit⟩ | ⟨head, next, hunit⟩ | ⟨head, next, last, hunit⟩ := ofUnit_cases unit
  · rw [hunit] at h
    cases h
    exact .inl (exists_ofUnit_eq_one_iff.mp ⟨unit, hunit⟩)
  · rw [hunit] at h
    cases h
    exact .inr (.inl ⟨next, rfl, unit, hunit⟩)
  · rw [hunit] at h
    cases h
    exact .inr (.inr ⟨next, last, rfl, unit, hunit⟩)

end Units

theorem decode?_eq_none_of_no_unit {bytes : List UInt8} (hbytes : bytes ≠ [])
    (h : ∀ unit after, bytes ≠ ofUnit unit ++ after) : decode? bytes = none := by
  rw [decode?]
  cases hunits : decodeUnits? bytes with
  | none => rfl
  | some units =>
      have heq := decodeUnits?_eq_some_iff.mp hunits
      cases units with
      | nil => exact absurd heq hbytes
      | cons unit units =>
          rw [encodeUnits, List.flatMap_cons] at heq
          exact absurd heq (h unit _)

theorem decode?_low {unit : UInt16} (hunit : Utf16.isLow unit) (rest : List UInt8) :
    decode? (ofUnit unit ++ rest) = none := by
  have hnotHigh : ¬ Utf16.isHigh unit := by
    rw [Utf16.isHigh_iff]
    rw [Utf16.isLow_iff] at hunit
    omega
  rw [decode?, decodeUnits?_ofUnit_append]
  cases decodeUnits? rest with
  | none => rfl
  | some units =>
      show Utf16.decode? (unit :: units) = none
      rw [Utf16.decode?.eq_def]
      simp only [if_neg hnotHigh, if_pos hunit]

theorem decode?_high {unit : UInt16} (hunit : Utf16.isHigh unit) {rest : List UInt8}
    (hrest : ¬ ∃ next after, Utf16.isLow next ∧ rest = ofUnit next ++ after) :
    decode? (ofUnit unit ++ rest) = none := by
  rw [decode?, decodeUnits?_ofUnit_append]
  cases hunits : decodeUnits? rest with
  | none => rfl
  | some units =>
      show Utf16.decode? (unit :: units) = none
      cases units with
      | nil => simp [Utf16.decode?, hunit]
      | cons next units =>
          have hnotLow : ¬ Utf16.isLow next := by
            intro hlow
            have hbytes := decodeUnits?_eq_some_iff.mp hunits
            rw [encodeUnits, List.flatMap_cons] at hbytes
            exact hrest ⟨next, _, hlow, hbytes⟩
          rw [Utf16.decode?.eq_def]
          simp only [if_pos hunit, if_neg hnotLow]

section Leads

variable {first : UInt8} {rest : List UInt8}

theorem decode?_eq_none_of_lead (hfirst : first.toNat = 0 ∨ Continues first ∨ 0xF0 ≤ first.toNat) :
    decode? (first :: rest) = none := by
  unfold Continues at hfirst
  apply decode?_eq_none_of_no_unit (List.cons_ne_nil first rest)
  intro unit after heq
  obtain h | ⟨second, -, h⟩ | ⟨second, third, -, h⟩ := cases_of_ofUnit_append heq
  · omega
  · rw [exists_ofUnit_eq_two_iff] at h
    omega
  · rw [exists_ofUnit_eq_three_iff] at h
    omega

theorem decode?_eq_none_of_pair (hfirst : 0xC0 ≤ first.toNat ∧ first.toNat < 0xE0)
    (hrest : ∀ second after, rest = second :: after → ¬ ∃ unit, ofUnit unit = [first, second]) :
    decode? (first :: rest) = none := by
  apply decode?_eq_none_of_no_unit (List.cons_ne_nil first rest)
  intro unit after heq
  obtain h | ⟨second, hsecond, h⟩ | ⟨second, third, -, h⟩ := cases_of_ofUnit_append heq
  · omega
  · exact hrest second after hsecond h
  · rw [exists_ofUnit_eq_three_iff] at h
    omega

theorem decode?_eq_none_of_triple (hfirst : 0xE0 ≤ first.toNat ∧ first.toNat < 0xF0)
    (hrest : ∀ second third after, rest = second :: third :: after →
      ¬ ∃ unit, ofUnit unit = [first, second, third]) : decode? (first :: rest) = none := by
  apply decode?_eq_none_of_no_unit (List.cons_ne_nil first rest)
  intro unit after heq
  obtain h | ⟨second, -, h⟩ | ⟨second, third, hsecond, h⟩ := cases_of_ofUnit_append heq
  · omega
  · rw [exists_ofUnit_eq_two_iff] at h
    omega
  · exact hrest second third after hsecond h

end Leads

theorem decode?_eq_none_of_malformed {bytes : List UInt8} (h : Malformed bytes) :
    decode? bytes = none := by
  cases h with
  | zero rest => exact decode?_eq_none_of_lead (.inl rfl)
  | stray hbyte rest => exact decode?_eq_none_of_lead (.inr (.inl hbyte))
  | long hfirst rest => exact decode?_eq_none_of_lead (.inr (.inr hfirst))
  | brokenPair hfirst hrest =>
      apply decode?_eq_none_of_pair hfirst
      intro second after heq hunit
      rw [exists_ofUnit_eq_two_iff] at hunit
      exact hrest ⟨second, after, heq, hunit.2.2.1⟩
  | brokenTriple hfirst hrest =>
      apply decode?_eq_none_of_triple hfirst
      intro second third after heq hunit
      rw [exists_ofUnit_eq_three_iff] at hunit
      exact hrest ⟨second, third, after, heq, hunit.2.2.1, hunit.2.2.2.1⟩
  | overlongPair hfirst hsecond rest =>
      apply decode?_eq_none_of_pair (by omega)
      intro other after heq hunit
      obtain ⟨rfl, -⟩ := List.cons.inj heq
      rw [exists_ofUnit_eq_two_iff] at hunit
      omega
  | overlongTriple hfirst hvalue hsecond hthird rest =>
      apply decode?_eq_none_of_triple (by omega)
      intro other another after heq hunit
      obtain ⟨rfl, -⟩ := List.cons.inj heq
      rw [exists_ofUnit_eq_three_iff] at hunit
      omega
  | low hunit rest => exact decode?_low hunit rest
  | high hunit hrest => exact decode?_high hunit hrest

-- Bytes that are not malformed begin with the form of a code unit.
theorem exists_unit_or_malformed (first : UInt8) (rest : List UInt8) :
    (∃ unit after, first :: rest = ofUnit unit ++ after) ∨ Malformed (first :: rest) := by
  have hlt := first.toNat_lt
  by_cases hzero : first.toNat = 0
  · obtain rfl : first = 0 := UInt8.toNat_inj.mp hzero
    exact .inr (.zero rest)
  by_cases hone : first.toNat < 0x80
  · obtain ⟨unit, hunit⟩ := exists_ofUnit_eq_one_iff.mpr ⟨Nat.pos_of_ne_zero hzero, hone⟩
    exact .inl ⟨unit, rest, by rw [hunit, List.singleton_append]⟩
  by_cases hstray : first.toNat < 0xC0
  · exact .inr (.stray ⟨Nat.not_lt.mp hone, hstray⟩ rest)
  by_cases htwo : first.toNat < 0xE0
  · have hfirst : 0xC0 ≤ first.toNat ∧ first.toNat < 0xE0 := ⟨Nat.not_lt.mp hstray, htwo⟩
    by_cases hrest : ∃ second after, rest = second :: after ∧ Continues second
    · obtain ⟨second, after, rfl, hsecond⟩ := hrest
      by_cases hshort : first.toNat = 0xC0 ∧ second.toNat ≠ 0x80 ∨ first.toNat = 0xC1
      · exact .inr (.overlongPair hshort hsecond after)
      · obtain ⟨unit, hunit⟩ := exists_ofUnit_eq_two_iff.mpr
          ⟨hfirst.1, hfirst.2, hsecond, by omega⟩
        exact .inl ⟨unit, after, by rw [hunit]; rfl⟩
    · exact .inr (.brokenPair hfirst hrest)
  by_cases hthree : first.toNat < 0xF0
  · have hfirst : 0xE0 ≤ first.toNat ∧ first.toNat < 0xF0 := ⟨Nat.not_lt.mp htwo, hthree⟩
    by_cases hrest : ∃ second third after,
        rest = second :: third :: after ∧ Continues second ∧ Continues third
    · obtain ⟨second, third, after, rfl, hsecond, hthird⟩ := hrest
      by_cases hshort : first.toNat = 0xE0 ∧ second.toNat < 0xA0
      · exact .inr (.overlongTriple hshort.1 hshort.2 hsecond hthird after)
      · obtain ⟨unit, hunit⟩ := exists_ofUnit_eq_three_iff.mpr
          ⟨hfirst.1, hfirst.2, hsecond, hthird, by omega⟩
        exact .inl ⟨unit, after, by rw [hunit]; rfl⟩
    · exact .inr (.brokenTriple hfirst hrest)
  · exact .inr (.long (Nat.not_lt.mp hthree) rest)

-- Bytes that are not malformed begin with the form of a character.
theorem exists_form_or_malformed (first : UInt8) (rest : List UInt8) :
    (∃ char after, first :: rest = form char ++ after) ∨ Malformed (first :: rest) := by
  obtain ⟨unit, after, heq⟩ | hmalformed := exists_unit_or_malformed first rest
  · rw [heq]
    by_cases hlow : Utf16.isLow unit
    · exact .inr (.low hlow after)
    by_cases hhigh : Utf16.isHigh unit
    · by_cases hnext : ∃ next rest, Utf16.isLow next ∧ after = ofUnit next ++ rest
      · obtain ⟨next, rest, hlow', rfl⟩ := hnext
        refine .inl ⟨Utf16.ofPair unit next, rest, ?_⟩
        rw [← encodeUnits_ofChar, Utf16.ofChar_ofPair hhigh hlow']
        simp [encodeUnits]
      · exact .inr (.high hhigh hnext)
    · refine .inl ⟨Char.ofNat unit.toNat, after, ?_⟩
      rw [← encodeUnits_ofChar, Utf16.ofChar_ofNat hhigh hlow]
      simp [encodeUnits]
  · exact .inr hmalformed

theorem form_ne_nil (char : Char) : form char ≠ [] := by
  intro hnil
  have hread := decode?_form_append char []
  rw [hnil] at hread
  cases hread

-- Bytes are refused if and only if something malformed stands behind a text.
theorem decode?_eq_none_iff {bytes : List UInt8} :
    decode? bytes = none ↔ ∃ (front : List Char) (rest : List UInt8),
      bytes = front.flatMap form ++ rest ∧ Malformed rest := by
  constructor
  · intro h
    induction hlength : bytes.length using Nat.strongRecOn generalizing bytes with
    | ind length ih =>
      cases bytes with
      | nil => cases h
      | cons first rest =>
          obtain ⟨char, after, heq⟩ | hmalformed := exists_form_or_malformed first rest
          · rw [heq, decode?_form_append, Option.map_eq_none_iff] at h
            have hpos := List.length_pos_iff.mpr (form_ne_nil char)
            have hshorter : after.length < length := by
              rw [← hlength, heq, List.length_append]
              omega
            obtain ⟨front, rest, rfl, hmalformed⟩ := ih _ hshorter h rfl
            refine ⟨char :: front, rest, ?_, hmalformed⟩
            rw [heq, List.flatMap_cons, List.append_assoc]
          · exact ⟨[], first :: rest, rfl, hmalformed⟩
  · rintro ⟨front, rest, rfl, hmalformed⟩
    rw [decode?_flatMap_form_append, decode?_eq_none_of_malformed hmalformed]
    rfl

-- Decoding is the inverse of writing character by character. No two byte strings stand for one
-- text, every text has one that does, and all others break off with a malformed part.
theorem decode?_inverts_forms :
    (∀ bytes text, decode? bytes = some text ↔ bytes = text.flatMap form) ∧
    (∀ bytes others text, decode? bytes = some text → decode? others = some text →
      bytes = others) ∧
    (∀ text, ∃ bytes, decode? bytes = some text) ∧
    ∀ bytes, decode? bytes = none ↔ ∃ (front : List Char) (rest : List UInt8),
      bytes = front.flatMap form ++ rest ∧ Malformed rest := by
  have hforms (bytes : List UInt8) (text : List Char) :
      decode? bytes = some text ↔ bytes = text.flatMap form := by
    rw [decode?_eq_some_iff, encode_eq_flatMap_form]
  refine ⟨hforms, ?_, ?_, fun _ => decode?_eq_none_iff⟩
  · intro bytes others text hbytes hothers
    rw [(hforms bytes text).mp hbytes, (hforms others text).mp hothers]
  · intro text
    exact ⟨text.flatMap form, (hforms _ text).mpr rfl⟩

end CallCensus.ModifiedUtf8
