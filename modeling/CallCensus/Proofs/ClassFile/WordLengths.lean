import CallCensus.ClassFile.WordScan
import CallCensus.Proofs.ClassFile.Bodies
import Mathlib.Order.Bounds.Defs

namespace CallCensus.WordScan

open Bytecode

section Words

variable (first second : UInt64)

theorem exists_add? (h : first.toNat + second.toNat < 0x10000000000000000) :
    ∃ sum, add? first second = some sum ∧ sum.toNat = first.toNat + second.toNat :=
  ⟨_, if_pos h, (UInt64.toNat_add first second).trans (Nat.mod_eq_of_lt h)⟩

theorem exists_sub? (h : second.toNat ≤ first.toNat) :
    ∃ difference, sub? first second = some difference ∧
      difference.toNat = first.toNat - second.toNat :=
  ⟨_, if_pos h, UInt64.toNat_sub_of_le first second (UInt64.le_iff_toNat_le.mpr h)⟩

theorem exists_mul? (h : first.toNat * second.toNat < 0x10000000000000000) :
    ∃ product, mul? first second = some product ∧ product.toNat = first.toNat * second.toNat :=
  ⟨_, if_pos h, (UInt64.toNat_mul first second).trans (Nat.mod_eq_of_lt h)⟩

end Words

section SignedWords

variable (first second : Int64)

theorem isSigned_iff (value : Int) :
    isSigned value ↔ -0x8000000000000000 ≤ value ∧ value < 0x8000000000000000 := by
  simp [isSigned]

theorem bmod_of_isSigned {value : Int} (h : isSigned value) : value.bmod (2 ^ 64) = value := by
  obtain ⟨hlow, hhigh⟩ := (isSigned_iff value).mp h
  exact Int.bmod_eq_of_le (by omega) (by omega)

theorem exists_addSigned? (h : isSigned (first.toInt + second.toInt)) :
    ∃ sum, addSigned? first second = some sum ∧ sum.toInt = first.toInt + second.toInt :=
  ⟨_, if_pos h, (Int64.toInt_add first second).trans (bmod_of_isSigned h)⟩

theorem exists_subSigned? (h : isSigned (first.toInt - second.toInt)) :
    ∃ difference, subSigned? first second = some difference ∧
      difference.toInt = first.toInt - second.toInt :=
  ⟨_, if_pos h, (Int64.toInt_sub first second).trans (bmod_of_isSigned h)⟩

end SignedWords

section Attempts

variable {α β : Type} {attempt : Attempt α} {value : α}

-- What is there is taken, and the attempt goes on.
theorem lift_bind {found : Option α} (h : found = some value) (next : α → Attempt β) :
    (liftM found >>= next : Attempt β) = next value := by
  rw [h]
  rfl

theorem bind_of_ok (h : attempt.run = some (.ok value)) (next : α → Attempt β) :
    attempt >>= next = next value := by
  obtain rfl : attempt = ExceptT.mk (some (.ok value)) := h
  rfl

theorem bind_of_error {error : DecodeError} (h : attempt.run = some (.error error))
    (next : α → Attempt β) : attempt >>= next = throw error := by
  obtain rfl : attempt = ExceptT.mk (some (.error error)) := h
  rfl

end Attempts

theorem exists_switchOperands (pc : UInt64) (hpc : pc.toNat < 0x4000000000000000) :
    ∃ base, switchOperands pc = some base ∧ base.toNat = pc.toNat + 1 + padding pc.toNat := by
  have hone : (1 : UInt64).toNat = 1 := rfl
  have hfour : (4 : UInt64).toNat = 4 := rfl
  obtain ⟨after, hafter, hafterNat⟩ := exists_add? pc 1 (by omega)
  have hmod : (after % 4).toNat = after.toNat % 4 := UInt64.toNat_mod after 4
  obtain ⟨gap, hgap, hgapNat⟩ := exists_sub? 4 (after % 4) (by omega)
  have hgapMod : (gap % 4).toNat = gap.toNat % 4 := UInt64.toNat_mod gap 4
  obtain ⟨base, hbase, hbaseNat⟩ := exists_add? after (gap % 4) (by omega)
  refine ⟨base, ?_, ?_⟩
  · simp only [switchOperands, hafter, hgap, hbase, Option.bind_eq_bind, Option.bind_some]
  · unfold padding
    omega

-- The place of the fields is the least one behind the opcode that is aligned.
theorem isLeast_aligned (pc : Nat) :
    IsLeast {place : Nat | pc < place ∧ 4 ∣ place} (pc + 1 + padding pc) := by
  unfold padding
  constructor
  · exact ⟨by omega, by omega⟩
  · rintro place ⟨hlt, hdvd⟩
    omega

-- A signed number of 32 bits, as it is read.
theorem toInt_toInt32 (word : UInt32) : word.toInt32.toInt = signed word.toNat := by
  have hlt := word.toNat_lt
  have hint : word.toInt32.toInt = (word.toNat : Int).bmod 0x100000000 :=
    BitVec.toInt_eq_toNat_bmod _
  rw [hint]
  unfold signed
  split
  · exact Int.bmod_eq_of_le (by omega) (by omega)
  · rw [← Int.sub_bmod_right]
    exact Int.bmod_eq_of_le (by omega) (by omega)

theorem word?_of_length_lt {bytes : List UInt8} (h : bytes.length < 4) : word? bytes = none := by
  rw [word?, Bytes.cut_eq_error.mpr ⟨h, rfl⟩]

theorem word?_of_le_length {bytes : List UInt8} (h : 4 ≤ bytes.length) :
    word? bytes = some (signed (Bytes.bigEndian (bytes.take 4))) := by
  rw [word?, Bytes.cut_of_le_length h]

-- An attempt to read a field of the instruction at `pc`, which has this value or is cut off.
def Reads (attempt : Attempt Int32) (pc : UInt64) : Option Int → Prop
  | none => attempt.run = some (.error (.truncatedCode pc.toNat))
  | some value => ∃ number, attempt.run = some (.ok number) ∧ number.toInt = value

theorem reads_signed {place : UInt64} (hplace : place.toNat < 0x8000000000000000)
    (code : List UInt8) (pc : UInt64) :
    Reads (readSigned code place pc) pc (word? (code.drop place.toNat)) := by
  have hfour : (4 : UInt64).toNat = 4 := rfl
  obtain ⟨stop, hstop, hstopNat⟩ := exists_add? place 4 (by omega)
  rw [readSigned, lift_bind hstop]
  by_cases hshort : code.length < stop.toNat
  · rw [word?_of_length_lt (by rw [List.length_drop]; omega), if_pos hshort]
    rfl
  · have hlong : 4 ≤ (code.drop place.toNat).length := by
      rw [List.length_drop]
      omega
    have htaken : ((code.drop place.toNat).take 4).length = 4 := by
      rw [List.length_take, Nat.min_eq_left hlong]
    rw [word?_of_le_length hlong, if_neg hshort]
    refine ⟨_, rfl, ?_⟩
    rw [toInt_toInt32, Bytes.toNat_bigEndian_toUInt32 htaken]

theorem exists_entryCount {low high : Int32} (h : low.toInt ≤ high.toInt) :
    ∃ count, entryCount low high = some count ∧ count.toNat = high.toInt - low.toInt + 1 := by
  have hlow := low.le_toInt
  have hhigh := high.toInt_lt
  obtain ⟨span, hspan, hspanInt⟩ := exists_subSigned? high.toInt64 low.toInt64 (by
    rw [isSigned_iff, Int32.toInt_toInt64, Int32.toInt_toInt64]
    omega)
  rw [Int32.toInt_toInt64, Int32.toInt_toInt64] at hspanInt
  have hone : (1 : Int64).toInt = 1 := rfl
  obtain ⟨count, hcount, hcountInt⟩ := exists_addSigned? span 1 (by
    rw [isSigned_iff, hone]
    omega)
  refine ⟨count.toUInt64, ?_, ?_⟩
  · simp only [entryCount, hspan, hcount, Option.bind_eq_bind, Option.bind_some, Option.pure_def]
  · have hpos : 0 ≤ count := by
      rw [Int64.le_iff_toInt_le]
      show 0 ≤ count.toInt
      omega
    rw [Int64.toNat_toUInt64_of_le hpos, ← Int64.toNat_toInt]
    omega

theorem padding_le (pc : Nat) : padding pc ≤ 3 := Nat.sub_le 3 (pc % 4)

theorem exists_switchLength {pc base : UInt64} (front count width : UInt64)
    (hbase : base.toNat = pc.toNat + 1 + padding pc.toNat) (hfront : front.toNat ≤ 12)
    (hcount : count.toNat ≤ 0x100000000) (hwidth : width.toNat ≤ 8) :
    ∃ length, switchLength pc base front count width = some length ∧
      length.toNat = 1 + padding pc.toNat + front.toNat + count.toNat * width.toNat := by
  have hpadding := padding_le pc.toNat
  have hentries : count.toNat * width.toNat ≤ 0x100000000 * 8 := Nat.mul_le_mul hcount hwidth
  obtain ⟨filled, hfilled, hfilledNat⟩ := exists_sub? base pc (by omega)
  obtain ⟨fields, hfields, hfieldsNat⟩ := exists_add? filled front (by omega)
  obtain ⟨entries, hentries, hentriesNat⟩ := exists_mul? count width (by omega)
  obtain ⟨length, hlength, hlengthNat⟩ := exists_add? fields entries (by omega)
  refine ⟨length, ?_, by omega⟩
  simp only [switchLength, hfilled, hfields, hentries, hlength, Option.bind_eq_bind, Option.bind_some]

section Entries

variable {pc base : UInt64}

theorem exists_tableLength (hbase : base.toNat = pc.toNat + 1 + padding pc.toNat) {low high : Int32}
    (h : low.toInt ≤ high.toInt) :
    ∃ count length, entryCount low high = some count ∧ switchLength pc base 12 count 4 = some length ∧
      length.toNat = padding pc.toNat + 12 + (high.toInt - low.toInt + 1).toNat * 4 + 1 := by
  have hleast := low.le_toInt
  have hgreatest := high.toInt_lt
  have hfour : (4 : UInt64).toNat = 4 := rfl
  have htwelve : (12 : UInt64).toNat = 12 := rfl
  obtain ⟨count, hcount, hcountInt⟩ := exists_entryCount h
  obtain ⟨length, hlength, hlengthNat⟩ :=
    exists_switchLength 12 count 4 hbase (by omega) (by omega) (by omega)
  rw [hfour] at hlengthNat
  exact ⟨count, length, hcount, hlength, by omega⟩

-- A number of pairs is not negative, and is the same without its sign.
theorem toNat_toUInt64_toInt64 {number : Int32} (h : 0 ≤ number.toInt) :
    (number.toInt64.toUInt64.toNat : Int) = number.toInt := by
  have hpos : 0 ≤ number.toInt64 := by
    rw [Int64.le_iff_toInt_le, Int32.toInt_toInt64]
    exact h
  rw [Int64.toNat_toUInt64_of_le hpos, ← Int64.toNat_toInt, Int32.toInt_toInt64]
  exact Int.toNat_of_nonneg h

theorem exists_lookupLength (hbase : base.toNat = pc.toNat + 1 + padding pc.toNat) {pairs : Int32}
    (h : 0 ≤ pairs.toInt) :
    ∃ length, switchLength pc base 8 pairs.toInt64.toUInt64 8 = some length ∧
      length.toNat = padding pc.toNat + 8 + pairs.toInt.toNat * 8 + 1 := by
  have hgreatest := pairs.toInt_lt
  have height : (8 : UInt64).toNat = 8 := rfl
  have hcount := toNat_toUInt64_toInt64 h
  obtain ⟨length, hlength, hlengthNat⟩ :=
    exists_switchLength 8 pairs.toInt64.toUInt64 8 hbase (by omega) (by omega) (by omega)
  rw [height] at hlengthNat
  exact ⟨length, hlength, by omega⟩

end Entries

-- An attempt that comes to the same as the exact computation.
def Computes (attempt : Attempt UInt64) (result : Except DecodeError Nat) : Prop :=
  match result with
  | .error error => attempt.run = some (.error error)
  | .ok value => ∃ word, attempt.run = some (.ok word) ∧ word.toNat = value

section Instructions

variable {code rest : List UInt8} {opcode : UInt8} {pc : UInt64}

theorem drop_behind (hcode : code.drop pc.toNat = opcode :: rest) (offset : Nat) :
    code.drop (pc.toNat + 1 + offset) = rest.drop offset := by
  rw [← List.drop_drop, ← List.drop_drop, hcode, List.drop_succ_cons, List.drop_zero]

theorem length_eq_of_drop (hcode : code.drop pc.toNat = opcode :: rest) :
    code.length = pc.toNat + 1 + rest.length := by
  have hlength := congrArg List.length hcode
  rw [List.length_drop, List.length_cons] at hlength
  omega

theorem byteAt?_of_drop (hcode : code.drop pc.toNat = opcode :: rest) :
    byteAt? code pc = some opcode := by
  have hfirst := congrArg (·[0]?) hcode
  rwa [List.getElem?_drop, Nat.add_zero] at hfirst

theorem getElem?_behind (hcode : code.drop pc.toNat = opcode :: rest) (offset : Nat) :
    code[pc.toNat + 1 + offset]? = rest[offset]? := by
  have hdrop := congrArg (·[0]?) (drop_behind hcode offset)
  simpa only [List.getElem?_drop, Nat.add_zero] using hdrop

theorem byteAt?_behind (hcode : code.drop pc.toNat = opcode :: rest) (place : UInt64) (offset : Nat)
    (hplace : place.toNat = pc.toNat + 1 + offset) : byteAt? code place = rest[offset]? := by
  rw [byteAt?, hplace, getElem?_behind hcode]

-- A field of a switch is the same, found by its place or by what stands in front of it.
theorem reads_field (hfits : code.length < 0x4000000000000000)
    (hcode : code.drop pc.toNat = opcode :: rest) (place : UInt64) (offset : Nat)
    (hplace : place.toNat = pc.toNat + 1 + offset) (hoffset : offset ≤ 11) :
    Reads (readSigned code place pc) pc (word? (rest.drop offset)) := by
  have hlength := length_eq_of_drop hcode
  rw [← drop_behind hcode offset, ← hplace]
  exact reads_signed (by omega) code pc

theorem computes_tableSwitch (hfits : code.length < 0x4000000000000000)
    (hcode : code.drop pc.toNat = opcode :: rest) (hshape : shape? opcode = some .tableSwitch) :
    Computes (instructionLength code pc) ((operandLength pc.toNat opcode rest).map (· + 1)) := by
  have hlength := length_eq_of_drop hcode
  have hpadding := padding_le pc.toNat
  have hfour : (4 : UInt64).toNat = 4 := rfl
  have height : (8 : UInt64).toNat = 8 := rfl
  obtain ⟨base, hbase, hbaseNat⟩ := exists_switchOperands pc (by omega)
  obtain ⟨lowPlace, hlowPlace, hlowNat⟩ := exists_add? base 4 (by omega)
  obtain ⟨highPlace, hhighPlace, hhighNat⟩ := exists_add? base 8 (by omega)
  have hlowField := reads_field hfits hcode lowPlace (padding pc.toNat + 4) (by omega) (by omega)
  have hhighField := reads_field hfits hcode highPlace (padding pc.toNat + 8) (by omega) (by omega)
  rw [instructionLength, lift_bind (byteAt?_of_drop hcode)]
  simp only [hshape, operandLength]
  rw [lift_bind hbase, lift_bind hlowPlace]
  cases hlow : word? (rest.drop (padding pc.toNat + 4)) with
  | none =>
      rw [hlow] at hlowField
      rw [bind_of_error hlowField]
      rfl
  | some lowValue =>
      rw [hlow] at hlowField
      obtain ⟨low, hlowRun, rfl⟩ := hlowField
      rw [bind_of_ok hlowRun, lift_bind hhighPlace]
      cases hhigh : word? (rest.drop (padding pc.toNat + 8)) with
      | none =>
          rw [hhigh] at hhighField
          rw [bind_of_error hhighField]
          rfl
      | some highValue =>
          rw [hhigh] at hhighField
          obtain ⟨high, hhighRun, rfl⟩ := hhighField
          have hless : high < low ↔ high.toInt < low.toInt := Int32.lt_iff_toInt_lt
          rw [bind_of_ok hhighRun]
          by_cases hlt : high < low
          · simp only [if_pos hlt, if_pos (hless.mp hlt)]
            rfl
          · have hle := Int.not_lt.mp (mt hless.mpr hlt)
            obtain ⟨count, length, hcount, hswitch, hlengthNat⟩ := exists_tableLength hbaseNat hle
            simp only [if_neg hlt, if_neg (mt hless.mpr hlt)]
            rw [lift_bind hcount, hswitch]
            exact ⟨length, rfl, hlengthNat⟩

theorem computes_lookupSwitch (hfits : code.length < 0x4000000000000000)
    (hcode : code.drop pc.toNat = opcode :: rest) (hshape : shape? opcode = some .lookupSwitch) :
    Computes (instructionLength code pc) ((operandLength pc.toNat opcode rest).map (· + 1)) := by
  have hlength := length_eq_of_drop hcode
  have hpadding := padding_le pc.toNat
  have hfour : (4 : UInt64).toNat = 4 := rfl
  obtain ⟨base, hbase, hbaseNat⟩ := exists_switchOperands pc (by omega)
  obtain ⟨place, hplace, hplaceNat⟩ := exists_add? base 4 (by omega)
  have hfield := reads_field hfits hcode place (padding pc.toNat + 4) (by omega) (by omega)
  rw [instructionLength, lift_bind (byteAt?_of_drop hcode)]
  simp only [hshape, operandLength]
  rw [lift_bind hbase, lift_bind hplace]
  cases hpairs : word? (rest.drop (padding pc.toNat + 4)) with
  | none =>
      rw [hpairs] at hfield
      rw [bind_of_error hfield]
      rfl
  | some value =>
      rw [hpairs] at hfield
      obtain ⟨pairs, hrun, rfl⟩ := hfield
      have hless : pairs < 0 ↔ pairs.toInt < 0 := Int32.lt_iff_toInt_lt
      rw [bind_of_ok hrun]
      by_cases hnegative : pairs < 0
      · simp only [if_pos hnegative, if_pos (hless.mp hnegative)]
        rfl
      · have hpos := Int.not_lt.mp (mt hless.mpr hnegative)
        obtain ⟨length, hswitch, hlengthNat⟩ := exists_lookupLength hbaseNat hpos
        simp only [if_neg hnegative, if_neg (mt hless.mpr hnegative)]
        rw [hswitch]
        exact ⟨length, rfl, hlengthNat⟩

theorem computes_wide (hfits : code.length < 0x4000000000000000)
    (hcode : code.drop pc.toNat = opcode :: rest) (hshape : shape? opcode = some .wide) :
    Computes (instructionLength code pc) ((operandLength pc.toNat opcode rest).map (· + 1)) := by
  have hlength := length_eq_of_drop hcode
  have hone : (1 : UInt64).toNat = 1 := rfl
  obtain ⟨place, hplace, hplaceNat⟩ := exists_add? pc 1 (by omega)
  rw [instructionLength, lift_bind (byteAt?_of_drop hcode)]
  simp only [hshape, operandLength]
  rw [lift_bind hplace, byteAt?_behind hcode place 0 (by omega)]
  cases rest with
  | nil => rfl
  | cons modified behind =>
      refine ⟨if modified = 0x84 then 6 else 4, rfl, ?_⟩
      split <;> rfl

theorem fixed_le {size : Nat} (hshape : shape? opcode = some (.fixed size)) : size ≤ 4 := by
  have hall : ∀ number : Fin 256,
      ∀ size ∈ Instruction.operandSize? (UInt8.ofNat number.val), size ≤ 4 := by decide +kernel
  have hopcode := hall ⟨opcode.toNat, opcode.toNat_lt⟩ size
  rw [UInt8.ofNat_toNat] at hopcode
  exact hopcode (shape?_eq_fixed_iff.mp hshape)

theorem computes_instructionLength (hfits : code.length < 0x4000000000000000)
    (hcode : code.drop pc.toNat = opcode :: rest) :
    Computes (instructionLength code pc) ((operandLength pc.toNat opcode rest).map (· + 1)) := by
  cases hshape : shape? opcode with
  | none =>
      rw [instructionLength, lift_bind (byteAt?_of_drop hcode)]
      simp only [hshape, operandLength]
      rfl
  | some shape =>
      cases shape with
      | tableSwitch => exact computes_tableSwitch hfits hcode hshape
      | lookupSwitch => exact computes_lookupSwitch hfits hcode hshape
      | wide => exact computes_wide hfits hcode hshape
      | fixed size =>
          have hsize := fixed_le hshape
          rw [instructionLength, lift_bind (byteAt?_of_drop hcode)]
          simp only [hshape, operandLength]
          exact ⟨(size + 1).toUInt64, rfl, UInt64.toNat_ofNat_of_lt' (by simp [UInt64.size]; omega)⟩

theorem bounds_of_word? {bytes : List UInt8} {value : Int} (h : word? bytes = some value) :
    -0x80000000 ≤ value ∧ value < 0x80000000 := by
  obtain ⟨word, -, -, rfl⟩ := eq_ofUInt32_of_word? h
  have hlt := word.toNat_lt
  unfold signed
  split <;> omega

-- The longest instruction is a table of 2^32 targets.
theorem operandLength_lt {pc size : Nat} (h : operandLength pc opcode rest = .ok size) :
    size < 0x1000000000 := by
  have hpadding := padding_le pc
  unfold operandLength at h
  split at h
  · cases h
  · rename_i hshape
    obtain rfl := Except.ok.inj h
    have hsize := fixed_le hshape
    omega
  · split at h
    · rename_i hlow hhigh
      have hlow := bounds_of_word? hlow
      have hhigh := bounds_of_word? hhigh
      split at h
      · cases h
      · obtain rfl := Except.ok.inj h
        omega
    · cases h
  · split at h
    · rename_i hpairs
      have hpairs := bounds_of_word? hpairs
      split at h
      · cases h
      · obtain rfl := Except.ok.inj h
        omega
    · cases h
  · split at h
    · cases h
    · obtain rfl := Except.ok.inj h
      split <;> omega

end Instructions

end CallCensus.WordScan
