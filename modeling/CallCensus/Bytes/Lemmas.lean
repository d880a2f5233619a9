import CallCensus.Bytes
import Mathlib.Algebra.Group.Nat.Defs

namespace CallCensus.Bytes

theorem littleEndian_toLittleEndian (width value : Nat) :
    littleEndian (toLittleEndian width value) = value % 256 ^ width := by
  induction width generalizing value with
  | zero => simp [toLittleEndian, littleEndian, Nat.mod_one]
  | succ width ih =>
    have hdigit : value.toUInt8.toNat = value % 256 := by simp [Nat.toUInt8_eq]
    rw [toLittleEndian, littleEndian, ih, hdigit, Nat.pow_succ', Nat.mod_mul]

theorem bigEndian_eq_littleEndian_reverse (bytes : List UInt8) :
    bigEndian bytes = littleEndian bytes.reverse := by
  rw [bigEndian, List.foldl_eq_foldr_reverse]
  induction bytes.reverse with
  | nil => rfl
  | cons byte rest ih => simp only [List.foldr_cons, littleEndian, ← ih]; omega

theorem bigEndian_toBigEndian (width value : Nat) :
    bigEndian (toBigEndian width value) = value % 256 ^ width := by
  rw [bigEndian_eq_littleEndian_reverse, toBigEndian, List.reverse_reverse,
    littleEndian_toLittleEndian]

theorem littleEndian_lt (bytes : List UInt8) : littleEndian bytes < 256 ^ bytes.length := by
  induction bytes with
  | nil => simp [littleEndian]
  | cons byte rest ih =>
    have hbyte := byte.toNat_lt
    simp only [littleEndian, List.length_cons, Nat.pow_succ]
    omega

theorem toLittleEndian_littleEndian (bytes : List UInt8) :
    toLittleEndian bytes.length (littleEndian bytes) = bytes := by
  induction bytes with
  | nil => rfl
  | cons byte rest ih =>
    have hbyte := byte.toNat_lt
    have hdigit : (byte.toNat + 256 * littleEndian rest).toUInt8 = byte := by
      apply UInt8.toNat_inj.mp
      simp only [Nat.toUInt8_eq, UInt8.toNat_ofNat']
      omega
    have hrest : (byte.toNat + 256 * littleEndian rest) / 256 = littleEndian rest := by omega
    rw [List.length_cons, toLittleEndian, littleEndian, hdigit, hrest, ih]

theorem bigEndian_lt (bytes : List UInt8) : bigEndian bytes < 256 ^ bytes.length := by
  rw [bigEndian_eq_littleEndian_reverse, ← List.length_reverse]
  exact littleEndian_lt bytes.reverse

theorem toBigEndian_bigEndian (bytes : List UInt8) :
    toBigEndian bytes.length (bigEndian bytes) = bytes := by
  rw [toBigEndian, bigEndian_eq_littleEndian_reverse, ← List.length_reverse,
    toLittleEndian_littleEndian, List.reverse_reverse]

theorem bigEndian_ofUInt16 (word : UInt16) : bigEndian (ofUInt16 word) = word.toNat := by
  have hlt : word.toNat < 256 ^ 2 := word.toNat_lt
  rw [ofUInt16, bigEndian_toBigEndian, Nat.mod_eq_of_lt hlt]

theorem bigEndian_ofUInt32 (word : UInt32) : bigEndian (ofUInt32 word) = word.toNat := by
  have hlt : word.toNat < 256 ^ 4 := word.toNat_lt
  rw [ofUInt32, bigEndian_toBigEndian, Nat.mod_eq_of_lt hlt]

theorem toNat_bigEndian_toUInt32 {bytes : List UInt8} (h : bytes.length = 4) :
    (bigEndian bytes).toUInt32.toNat = bigEndian bytes := by
  have hlt : bigEndian bytes < 256 ^ 4 := h ▸ bigEndian_lt bytes
  rw [Nat.toUInt32_eq, UInt32.toNat_ofNat_of_lt' hlt]

theorem ofUInt16_bigEndian {bytes : List UInt8} (h : bytes.length = 2) :
    ofUInt16 (bigEndian bytes).toUInt16 = bytes := by
  have hlt : bigEndian bytes < 256 ^ 2 := h ▸ bigEndian_lt bytes
  rw [ofUInt16, Nat.toUInt16_eq, UInt16.toNat_ofNat_of_lt' hlt, ← h, toBigEndian_bigEndian]

theorem ofUInt32_bigEndian {bytes : List UInt8} (h : bytes.length = 4) :
    ofUInt32 (bigEndian bytes).toUInt32 = bytes := by
  rw [ofUInt32, toNat_bigEndian_toUInt32 h, ← h, toBigEndian_bigEndian]

theorem ofUInt16_append_inj {word other : UInt16} {rest after : List UInt8}
    (h : ofUInt16 word ++ rest = ofUInt16 other ++ after) : word = other ∧ rest = after := by
  have hlength : (ofUInt16 word).length = (ofUInt16 other).length := by
    rw [length_ofUInt16, length_ofUInt16]
  obtain ⟨hword, hrest⟩ := List.append_inj h hlength
  refine ⟨UInt16.toNat_inj.mp ?_, hrest⟩
  rw [← bigEndian_ofUInt16 word, hword, bigEndian_ofUInt16]

theorem ofUInt32_inj {word other : UInt32} (h : ofUInt32 word = ofUInt32 other) : word = other := by
  apply UInt32.toNat_inj.mp
  rw [← bigEndian_ofUInt32 word, h, bigEndian_ofUInt32]

theorem ofUInt32_append_inj {word other : UInt32} {rest after : List UInt8}
    (h : ofUInt32 word ++ rest = ofUInt32 other ++ after) : word = other ∧ rest = after := by
  have hlength : (ofUInt32 word).length = (ofUInt32 other).length := by
    rw [length_ofUInt32, length_ofUInt32]
  obtain ⟨hword, hrest⟩ := List.append_inj h hlength
  exact ⟨ofUInt32_inj hword, hrest⟩

section Entries

variable {ι : Type} {encode : ι → List UInt8} {width : Nat}

theorem length_flatMap_encode (hwidth : ∀ item, (encode item).length = width) (items : List ι) :
    (items.flatMap encode).length = items.length * width := by
  induction items with
  | nil => simp
  | cons item items ih =>
    rw [List.flatMap_cons, List.length_append, hwidth, ih, List.length_cons, Nat.succ_mul,
      Nat.add_comm]

-- Bytes that are as long as a number of entries of one width are such entries.
theorem exists_entries (hencode : ∀ chunk : List UInt8, chunk.length = width → ∃ item, chunk = encode item)
    (count : Nat) (bytes : List UInt8) (hlength : bytes.length = count * width) :
    ∃ items : List ι, items.length = count ∧ bytes = items.flatMap encode := by
  induction count generalizing bytes with
  | zero =>
    rw [Nat.zero_mul] at hlength
    exact ⟨[], rfl, List.length_eq_zero_iff.mp hlength⟩
  | succ count ih =>
    rw [Nat.succ_mul] at hlength
    obtain ⟨item, hitem⟩ := hencode (bytes.take width) (by rw [List.length_take]; omega)
    obtain ⟨items, hcount, hitems⟩ := ih (bytes.drop width) (by rw [List.length_drop]; omega)
    refine ⟨item :: items, by rw [List.length_cons, hcount], ?_⟩
    rw [List.flatMap_cons, ← hitem, ← hitems, List.take_append_drop]

theorem flatMap_encode_inj (hwidth : ∀ item, (encode item).length = width) (hpos : 0 < width)
    (hencode : ∀ item other, encode item = encode other → item = other) {items others : List ι}
    (h : items.flatMap encode = others.flatMap encode) : items = others := by
  have hlength := congrArg List.length h
  rw [length_flatMap_encode hwidth, length_flatMap_encode hwidth] at hlength
  have hcount : items.length = others.length := Nat.eq_of_mul_eq_mul_right hpos hlength
  clear hlength
  induction items generalizing others with
  | nil => exact (List.length_eq_zero_iff.mp hcount.symm).symm
  | cons item items ih =>
    cases others with
    | nil => cases hcount
    | cons other others =>
      rw [List.flatMap_cons, List.flatMap_cons] at h
      have hsame : (encode item).length = (encode other).length := by rw [hwidth, hwidth]
      obtain ⟨hfirst, hrest⟩ := List.append_inj h hsame
      rw [hencode item other hfirst, ih hrest (Nat.succ.inj hcount)]

end Entries

end CallCensus.Bytes
