import CallCensus.Proofs.Text.Utf16
import CallCensus.Text.ModifiedUtf8

namespace CallCensus.ModifiedUtf8

theorem toNat_toUInt8 {value : Nat} (h : value < 0x100) : value.toUInt8.toNat = value :=
  UInt8.toNat_ofNat_of_lt' h

theorem toUInt8_eq_iff {value : Nat} {byte : UInt8} (h : value < 0x100) :
    value.toUInt8 = byte ↔ byte.toNat = value := by
  rw [← UInt8.toNat_inj, toNat_toUInt8 h, eq_comm]

theorem toUInt16_eq_iff {value : Nat} {unit : UInt16} (h : value < 0x10000) :
    value.toUInt16 = unit ↔ unit.toNat = value := by
  have hvalue : value.toUInt16.toNat = value := UInt16.toNat_ofNat_of_lt' h
  rw [← UInt16.toNat_inj, hvalue, eq_comm]

theorem continuation?_eq_some_iff {byte : UInt8} {bits : Nat} :
    continuation? byte = some bits ↔ bits < 0x40 ∧ byte.toNat = 0x80 + bits := by
  have hlt := byte.toNat_lt
  unfold continuation?
  by_cases h : byte.toNat / 0x40 = 2
  · rw [if_pos h, Option.some.injEq]
    omega
  · rw [if_neg h]
    simp only [reduceCtorEq, false_iff]
    omega

theorem continuation?_eq_none_iff {byte : UInt8} :
    continuation? byte = none ↔ byte.toNat < 0x80 ∨ 0xC0 ≤ byte.toNat := by
  unfold continuation?
  by_cases h : byte.toNat / 0x40 = 2
  · rw [if_pos h]
    simp only [reduceCtorEq, false_iff]
    omega
  · rw [if_neg h]
    simp only [true_iff]
    omega

section Units

variable {unit : UInt16} {first second third : UInt8}

theorem ofUnit_eq_one_iff :
    ofUnit unit = [first] ↔ 0 < unit.toNat ∧ unit.toNat < 0x80 ∧ first.toNat = unit.toNat := by
  unfold ofUnit
  by_cases h : 0 < unit.toNat ∧ unit.toNat < 0x80
  · simp only [if_pos h, List.cons.injEq, and_true]
    rw [toUInt8_eq_iff (by omega)]
    omega
  · simp only [if_neg h]
    split <;> simp <;> omega

theorem ofUnit_eq_two_iff :
    ofUnit unit = [first, second] ↔ ¬ (0 < unit.toNat ∧ unit.toNat < 0x80) ∧ unit.toNat < 0x800 ∧
      first.toNat = 0xC0 + unit.toNat / 0x40 ∧ second.toNat = 0x80 + unit.toNat % 0x40 := by
  unfold ofUnit
  by_cases h : 0 < unit.toNat ∧ unit.toNat < 0x80
  · simp only [if_pos h]
    simp
    omega
  · simp only [if_neg h]
    by_cases htwo : unit.toNat < 0x800
    · simp only [if_pos htwo, List.cons.injEq, and_true]
      rw [toUInt8_eq_iff (by omega), toUInt8_eq_iff (by omega)]
      omega
    · simp only [if_neg htwo]
      simp
      omega

theorem ofUnit_eq_three_iff :
    ofUnit unit = [first, second, third] ↔ 0x800 ≤ unit.toNat ∧
      first.toNat = 0xE0 + unit.toNat / 0x1000 ∧
      second.toNat = 0x80 + unit.toNat / 0x40 % 0x40 ∧ third.toNat = 0x80 + unit.toNat % 0x40 := by
  have hlt := unit.toNat_lt
  unfold ofUnit
  by_cases h : 0 < unit.toNat ∧ unit.toNat < 0x80
  · simp only [if_pos h]
    simp
    omega
  · simp only [if_neg h]
    by_cases htwo : unit.toNat < 0x800
    · simp only [if_pos htwo]
      simp
      omega
    · simp only [if_neg htwo, List.cons.injEq, and_true]
      rw [toUInt8_eq_iff (by omega), toUInt8_eq_iff (by omega), toUInt8_eq_iff (by omega)]
      omega

-- Two bytes are read as the code unit that they are the form of.
theorem twoBytes?_eq_some_iff (hfirst : 0xC0 ≤ first.toNat ∧ first.toNat < 0xE0) :
    twoBytes? first second = some unit ↔ ofUnit unit = [first, second] := by
  rw [ofUnit_eq_two_iff]
  unfold twoBytes?
  cases hsecond : continuation? second with
  | none =>
      rw [continuation?_eq_none_iff] at hsecond
      simp
      omega
  | some bits =>
      rw [continuation?_eq_some_iff] at hsecond
      simp only [Option.bind_eq_bind, Option.bind_some]
      by_cases hshort : 0 < first.toNat % 0x20 * 0x40 + bits ∧ first.toNat % 0x20 * 0x40 + bits < 0x80
      · rw [if_pos hshort]
        simp only [reduceCtorEq, false_iff]
        omega
      · rw [if_neg hshort, Option.some.injEq, toUInt16_eq_iff (by omega)]
        omega

theorem threeBytes?_eq_some_iff (hfirst : 0xE0 ≤ first.toNat ∧ first.toNat < 0xF0) :
    threeBytes? first second third = some unit ↔ ofUnit unit = [first, second, third] := by
  rw [ofUnit_eq_three_iff]
  unfold threeBytes?
  cases hsecond : continuation? second with
  | none =>
      rw [continuation?_eq_none_iff] at hsecond
      simp
      omega
  | some middle =>
      rw [continuation?_eq_some_iff] at hsecond
      cases hthird : continuation? third with
      | none =>
          rw [continuation?_eq_none_iff] at hthird
          simp
          omega
      | some low =>
          rw [continuation?_eq_some_iff] at hthird
          simp only [Option.bind_eq_bind, Option.bind_some]
          by_cases hshort : first.toNat % 0x10 * 0x1000 + middle * 0x40 + low < 0x800
          · rw [if_pos hshort]
            simp only [reduceCtorEq, false_iff]
            omega
          · rw [if_neg hshort, Option.some.injEq, toUInt16_eq_iff (by omega)]
            omega

end Units

theorem decodeUnits?_one {first : UInt8} (h : 0 < first.toNat ∧ first.toNat < 0x80)
    (rest : List UInt8) :
    decodeUnits? (first :: rest) = (decodeUnits? rest).map (first.toUInt16 :: ·) := by
  rw [decodeUnits?.eq_def]
  simp only [if_pos h]

theorem decodeUnits?_two {first second : UInt8} {unit : UInt16}
    (h : ofUnit unit = [first, second]) (rest : List UInt8) :
    decodeUnits? (first :: second :: rest) = (decodeUnits? rest).map (unit :: ·) := by
  have htwo := ofUnit_eq_two_iff.mp h
  have hnotOne : ¬ (0 < first.toNat ∧ first.toNat < 0x80) := by omega
  have hfirst : 0xC0 ≤ first.toNat ∧ first.toNat < 0xE0 := by omega
  rw [decodeUnits?.eq_def]
  simp only [if_neg hnotOne, if_pos hfirst, (twoBytes?_eq_some_iff hfirst).mpr h,
    Option.bind_eq_bind, Option.bind_some]

theorem decodeUnits?_three {first second third : UInt8} {unit : UInt16}
    (h : ofUnit unit = [first, second, third]) (rest : List UInt8) :
    decodeUnits? (first :: second :: third :: rest) = (decodeUnits? rest).map (unit :: ·) := by
  have hlt := unit.toNat_lt
  have hthree := ofUnit_eq_three_iff.mp h
  have hnotOne : ¬ (0 < first.toNat ∧ first.toNat < 0x80) := by omega
  have hnotTwo : ¬ (0xC0 ≤ first.toNat ∧ first.toNat < 0xE0) := by omega
  have hfirst : 0xE0 ≤ first.toNat ∧ first.toNat < 0xF0 := by omega
  rw [decodeUnits?.eq_def]
  simp only [if_neg hnotOne, if_neg hnotTwo, if_pos hfirst, (threeBytes?_eq_some_iff hfirst).mpr h,
    Option.bind_eq_bind, Option.bind_some]

theorem ofUnit_cases (unit : UInt16) : (∃ first, ofUnit unit = [first]) ∨
    (∃ first second, ofUnit unit = [first, second]) ∨
      ∃ first second third, ofUnit unit = [first, second, third] := by
  unfold ofUnit
  by_cases hone : 0 < unit.toNat ∧ unit.toNat < 0x80
  · exact .inl ⟨_, if_pos hone⟩
  · simp only [if_neg hone]
    by_cases htwo : unit.toNat < 0x800
    · exact .inr (.inl ⟨_, _, if_pos htwo⟩)
    · exact .inr (.inr ⟨_, _, _, if_neg htwo⟩)

theorem decodeUnits?_ofUnit_append (unit : UInt16) (rest : List UInt8) :
    decodeUnits? (ofUnit unit ++ rest) = (decodeUnits? rest).map (unit :: ·) := by
  obtain ⟨first, h⟩ | ⟨first, second, h⟩ | ⟨first, second, third, h⟩ := ofUnit_cases unit
  · rw [h]
    obtain ⟨hpos, hlt, hfirst⟩ := ofUnit_eq_one_iff.mp h
    have hunit : first.toUInt16 = unit := by
      rw [← UInt16.toNat_inj, UInt8.toNat_toUInt16, hfirst]
    rw [← hfirst] at hpos hlt
    exact hunit ▸ decodeUnits?_one ⟨hpos, hlt⟩ rest
  · rw [h]
    exact decodeUnits?_two h rest
  · rw [h]
    exact decodeUnits?_three h rest

theorem eq_encodeUnits_of_decodeUnits? {bytes : List UInt8} {units : List UInt16}
    (h : decodeUnits? bytes = some units) : bytes = encodeUnits units := by
  induction bytes using decodeUnits?.induct generalizing units with
  | case1 =>
      cases h
      rfl
  | case2 first rest hone ih =>
      rw [decodeUnits?_one hone] at h
      obtain ⟨others, hothers, rfl⟩ := Option.map_eq_some_iff.mp h
      have hfirst : ofUnit first.toUInt16 = [first] := by
        rw [ofUnit_eq_one_iff, UInt8.toNat_toUInt16]
        omega
      rw [encodeUnits, List.flatMap_cons, ← encodeUnits, hfirst, ← ih hothers]
      rfl
  | case3 first hone htwo second rest ih =>
      rw [decodeUnits?.eq_def] at h
      simp only [if_neg hone, if_pos htwo] at h
      obtain ⟨unit, hunit, h⟩ := Option.bind_eq_some_iff.mp h
      obtain ⟨others, hothers, rfl⟩ := Option.map_eq_some_iff.mp h
      rw [encodeUnits, List.flatMap_cons, ← encodeUnits, (twoBytes?_eq_some_iff htwo).mp hunit,
        ← ih hothers]
      rfl
  | case4 first hone htwo => simp [decodeUnits?, hone, htwo] at h
  | case5 first hone htwo hthree second third rest ih =>
      rw [decodeUnits?.eq_def] at h
      simp only [if_neg hone, if_neg htwo, if_pos hthree] at h
      obtain ⟨unit, hunit, h⟩ := Option.bind_eq_some_iff.mp h
      obtain ⟨others, hothers, rfl⟩ := Option.map_eq_some_iff.mp h
      rw [encodeUnits, List.flatMap_cons, ← encodeUnits, (threeBytes?_eq_some_iff hthree).mp hunit,
        ← ih hothers]
      rfl
  | case6 first rest hone htwo hthree hshort =>
      rw [decodeUnits?.eq_def] at h
      simp only [if_neg hone, if_neg htwo, if_pos hthree] at h
      cases h
  | case7 first rest hone htwo hthree =>
      rw [decodeUnits?.eq_def] at h
      simp only [if_neg hone, if_neg htwo, if_neg hthree] at h
      cases h

theorem decodeUnits?_eq_some_iff {bytes : List UInt8} {units : List UInt16} :
    decodeUnits? bytes = some units ↔ bytes = encodeUnits units := by
  constructor
  · exact eq_encodeUnits_of_decodeUnits?
  · rintro rfl
    induction units with
    | nil => rfl
    | cons unit units ih =>
        rw [encodeUnits, List.flatMap_cons, ← encodeUnits, decodeUnits?_ofUnit_append, ih]
        rfl

theorem decode?_encodeUnits (units : List UInt16) : decode? (encodeUnits units) = Utf16.decode? units := by
  rw [decode?, decodeUnits?_eq_some_iff.mpr rfl]
  rfl

-- Bytes are the form of at most one text, and every text has just one form.
theorem decode?_eq_some_iff {bytes : List UInt8} {text : List Char} :
    decode? bytes = some text ↔ bytes = encode text := by
  unfold decode?
  rw [Option.bind_eq_bind, Option.bind_eq_some_iff]
  simp only [decodeUnits?_eq_some_iff, Utf16.decode?_eq_some_iff]
  constructor
  · rintro ⟨units, rfl, rfl⟩
    rfl
  · rintro rfl
    exact ⟨_, rfl, rfl⟩

end CallCensus.ModifiedUtf8
