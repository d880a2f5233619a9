import CallCensus.Proofs.ClassFile.Scan
import CallCensus.Proofs.ClassFile.WordLengths

namespace CallCensus.WordScan

open Bytecode

section Instructions

variable {code rest : List UInt8} {opcode : UInt8} {pc : UInt64}

-- The scan goes on as the exact one does.
theorem computes_advance (hfits : code.length < 0x4000000000000000)
    (hcode : code.drop pc.toNat = opcode :: rest) :
    Computes (advance code pc)
      ((step pc.toNat opcode rest).map fun parts => pc.toNat + 1 + parts.1.length) := by
  have hlength := length_eq_of_drop hcode
  have hmeasured := computes_instructionLength hfits hcode
  cases hsize : operandLength pc.toNat opcode rest with
  | error error =>
      rw [hsize] at hmeasured
      rw [advance, bind_of_error hmeasured, step, hsize]
      rfl
  | ok size =>
      rw [hsize] at hmeasured
      obtain ⟨length, hrun, hlengthNat⟩ := hmeasured
      have hlengthNat : length.toNat = size + 1 := hlengthNat
      have hlt := operandLength_lt hsize
      obtain ⟨next, hnext, hnextNat⟩ := exists_add? pc length (by omega)
      rw [advance, bind_of_ok hrun, lift_bind hnext, step, hsize]
      simp only
      -- the comparison with the length of the code is what the cut finds out
      cases hcut : Bytes.cut size rest with
      | error missing =>
          have hshort := (Bytes.cut_eq_error.mp hcut).1
          rw [if_pos (by omega)]
          rfl
      | ok parts =>
          obtain ⟨operands, following⟩ := parts
          obtain ⟨rfl, rfl⟩ := Bytes.append_eq_of_cut hcut
          rw [List.length_append] at hlength
          rw [if_neg (by omega)]
          refine ⟨next, rfl, ?_⟩
          show next.toNat = pc.toNat + 1 + operands.length
          omega

-- The operands of a call begin with the two bytes of a constant.
theorem exists_two_operands {pc : Nat} {operands following : List UInt8}
    (hstep : step pc opcode rest = .ok (operands, following)) (hcall : isInvocation opcode) :
    ∃ first second others, operands = first :: second :: others := by
  obtain ⟨rfl, instruction, hfits, hbytes⟩ := step_eq_ok_iff.mp hstep
  have hsize := operandLength_of_fitsAt hfits hbytes following
  have htwo : 2 ≤ operands.length := by
    simp only [isInvocation_iff, List.mem_cons, List.not_mem_nil, or_false] at hcall
    obtain rfl | rfl | rfl | rfl := hcall
    · exact Nat.le_of_eq (Except.ok.inj hsize)
    · exact Nat.le_of_eq (Except.ok.inj hsize)
    · exact Nat.le_of_eq (Except.ok.inj hsize)
    · have hfour : 4 = operands.length := Except.ok.inj hsize
      omega
  match operands, htwo with
  | first :: second :: others, _ => exact ⟨first, second, others, rfl⟩

theorem invokedAt_of_step (hfits : code.length < 0x4000000000000000)
    (hcode : code.drop pc.toNat = opcode :: rest) {operands following : List UInt8}
    (hstep : step pc.toNat opcode rest = .ok (operands, following)) :
    invokedAt code pc = some (invoked opcode operands) := by
  have hlength := length_eq_of_drop hcode
  have hone : (1 : UInt64).toNat = 1 := rfl
  have htwo : (2 : UInt64).toNat = 2 := rfl
  simp only [invokedAt, byteAt?_of_drop hcode, Option.bind_eq_bind, Option.bind_some]
  cases hcall : isInvocation opcode with
  | false => simp [invoked, hcall]
  | true =>
      obtain ⟨first, second, others, rfl⟩ := exists_two_operands hstep hcall
      obtain ⟨rfl, -⟩ := step_eq_ok_iff.mp hstep
      obtain ⟨firstPlace, hfirst, hfirstNat⟩ := exists_add? pc 1 (by omega)
      obtain ⟨secondPlace, hsecond, hsecondNat⟩ := exists_add? pc 2 (by omega)
      have hfirstByte := byteAt?_behind hcode firstPlace 0 (by omega)
      have hsecondByte := byteAt?_behind hcode secondPlace 1 (by omega)
      simp [hfirst, hsecond, hfirstByte, hsecondByte, invoked, hcall]

end Instructions

-- So many steps as there are bytes left are enough.
theorem run_scanFrom {code : List UInt8} (hfits : code.length < 0x4000000000000000) (steps : Nat)
    (pc : UInt64) (hsteps : code.length ≤ pc.toNat + steps) :
    (scanFrom code steps pc).run = some (invocationsFrom pc.toNat (code.drop pc.toNat)) := by
  induction steps generalizing pc with
  | zero =>
      rw [scanFrom, if_neg (by omega), List.drop_eq_nil_of_le (by omega), invocationsFrom_nil]
      rfl
  | succ steps ih =>
      cases hcode : code.drop pc.toNat with
      | nil =>
          rw [scanFrom, if_neg (Nat.not_lt.mpr (List.drop_eq_nil_iff.mp hcode)), invocationsFrom_nil]
          rfl
      | cons opcode rest =>
          have hlength := length_eq_of_drop hcode
          have hadvance := computes_advance hfits hcode
          rw [scanFrom, if_pos (by omega), invocationsFrom_eq_step]
          cases hstep : step pc.toNat opcode rest with
          | error error =>
              rw [hstep] at hadvance
              rw [bind_of_error hadvance]
              rfl
          | ok parts =>
              -- the opcode alone is a byte, so one step less is enough for what follows
              obtain ⟨operands, following⟩ := parts
              rw [hstep] at hadvance
              obtain ⟨next, hnext, hnextNat⟩ := hadvance
              have hnextNat : next.toNat = pc.toNat + 1 + operands.length := hnextNat
              have hfollowing : code.drop next.toNat = following := by
                rw [hnextNat, drop_behind hcode, (step_eq_ok_iff.mp hstep).1, List.drop_left]
              have hlater := ih next (by omega)
              rw [hfollowing, hnextNat] at hlater
              rw [bind_of_ok hnext, lift_bind (invokedAt_of_step hfits hcode hstep)]
              simp only
              cases hlaterRun : invocationsFrom (pc.toNat + 1 + operands.length) following with
              | error error =>
                  rw [hlaterRun] at hlater
                  rw [bind_of_error hlater]
                  rfl
              | ok indices =>
                  rw [hlaterRun] at hlater
                  rw [bind_of_ok hlater]
                  rfl

-- A step of the scan, from one instruction to the next.
def Advances (code : List UInt8) (pc next : UInt64) : Prop :=
  pc.toNat < code.length ∧ (advance code pc).run = some (.ok next)

-- What is computed about the instruction at `pc` stays in range.
structure InRange (code : List UInt8) (pc : UInt64) : Prop where
  operands : ∃ base, switchOperands pc = some base ∧
    IsLeast {place : Nat | pc.toNat < place ∧ 4 ∣ place} base.toNat
  measured : ∃ opcode rest, code.drop pc.toNat = opcode :: rest ∧
    Computes (instructionLength code pc) ((operandLength pc.toNat opcode rest).map (· + 1))
  forward : ∀ length, (instructionLength code pc).run = some (.ok length) → 1 ≤ length.toNat ∧
    ∃ next, add? pc length = some next ∧ next.toNat = pc.toNat + length.toNat
  advanced : ∃ outcome, (advance code pc).run = some outcome
  call : ∀ opcode length, byteAt? code pc = some opcode → isInvocation opcode →
    (instructionLength code pc).run = some (.ok length) → pc.toNat + length.toNat ≤ code.length →
    ∃ first second, code[pc.toNat + 1]? = some first ∧ code[pc.toNat + 2]? = some second ∧
      invokedAt code pc = some [(Bytes.bigEndian [first, second]).toUInt16]

theorem exists_drop_eq_cons {code : List UInt8} {pc : UInt64} (h : pc.toNat < code.length) :
    ∃ opcode rest, code.drop pc.toNat = opcode :: rest :=
  ⟨_, _, List.drop_eq_getElem_cons h⟩

theorem Computes.exists_outcome {attempt : Attempt UInt64} {result : Except DecodeError Nat}
    (h : Computes attempt result) : ∃ outcome, attempt.run = some outcome := by
  cases result with
  | error error => exact ⟨_, h⟩
  | ok value =>
      obtain ⟨word, hrun, -⟩ := h
      exact ⟨_, hrun⟩

theorem Computes.eq_ok {attempt : Attempt UInt64} {result : Except DecodeError Nat} {word : UInt64}
    (h : Computes attempt result) (hrun : attempt.run = some (.ok word)) :
    result = .ok word.toNat := by
  cases result with
  | error error => cases h.symm.trans hrun
  | ok value =>
      obtain ⟨found, hfound, rfl⟩ := h
      cases hfound.symm.trans hrun
      rfl

theorem inRange {code : List UInt8} (hfits : code.length < 0x4000000000000000) {pc : UInt64}
    (hpc : pc.toNat < code.length) : InRange code pc := by
  obtain ⟨opcode, rest, hcode⟩ := exists_drop_eq_cons hpc
  have hcodeLength := length_eq_of_drop hcode
  have hmeasured := computes_instructionLength hfits hcode
  have hadvanced := computes_advance hfits hcode
  have hexact (length : UInt64) (hrun : (instructionLength code pc).run = some (.ok length)) :
      ∃ size, operandLength pc.toNat opcode rest = .ok size ∧ size + 1 = length.toNat :=
    Results.map_eq_ok_iff.mp (hmeasured.eq_ok hrun)
  constructor
  case operands =>
    obtain ⟨base, hbase, hbaseNat⟩ := exists_switchOperands pc (by omega)
    exact ⟨base, hbase, hbaseNat ▸ isLeast_aligned pc.toNat⟩
  case measured => exact ⟨opcode, rest, hcode, hmeasured⟩
  case forward =>
    intro length hrun
    obtain ⟨size, hsize, hlength⟩ := hexact length hrun
    have hlt := operandLength_lt hsize
    exact ⟨by omega, exists_add? pc length (by omega)⟩
  case advanced => exact hadvanced.exists_outcome
  case call =>
    intro called length hcalled hcall hrun hend
    obtain rfl := Option.some.inj (hcalled.symm.trans (byteAt?_of_drop hcode))
    obtain ⟨size, hsize, hlength⟩ := hexact length hrun
    have hcut : Bytes.cut size rest = .ok (rest.take size, rest.drop size) :=
      Bytes.cut_of_le_length (by omega)
    have hstep : step pc.toNat called rest = .ok (rest.take size, rest.drop size) := by
      simp only [step, hsize, hcut]
      rfl
    obtain ⟨first, second, others, hoperands⟩ := exists_two_operands hstep hcall
    have hinvoked := invokedAt_of_step hfits hcode hstep
    have hrest := (step_eq_ok_iff.mp hstep).1
    rw [hoperands] at hinvoked hrest
    refine ⟨first, second, (getElem?_behind hcode 0).trans ?_, (getElem?_behind hcode 1).trans ?_, ?_⟩
    · rw [hrest]
      rfl
    · rw [hrest]
      rfl
    · rw [hinvoked, invoked, if_pos hcall]
      rfl

section Steps

variable {code : List UInt8} {pc next : UInt64} {places : List UInt64}

theorem Advances.bounds (hfits : code.length < 0x4000000000000000) (h : Advances code pc next) :
    pc < next ∧ next.toNat ≤ code.length := by
  obtain ⟨hpc, hrun⟩ := h
  obtain ⟨opcode, rest, hcode⟩ := exists_drop_eq_cons hpc
  have hlength := length_eq_of_drop hcode
  obtain ⟨⟨operands, following⟩, hstep, hnext⟩ :=
    Results.map_eq_ok_iff.mp ((computes_advance hfits hcode).eq_ok hrun)
  have hnext : pc.toNat + 1 + operands.length = next.toNat := hnext
  rw [(step_eq_ok_iff.mp hstep).1, List.length_append] at hlength
  rw [UInt64.lt_iff_toNat_lt]
  omega

theorem length_of_advances (hfits : code.length < 0x4000000000000000) (hpc : pc.toNat ≤ code.length)
    (h : List.IsChain (Advances code) (pc :: places)) : pc.toNat + places.length ≤ code.length := by
  induction places generalizing pc with
  | nil => exact hpc
  | cons next places ih =>
      obtain ⟨hstep, hlater⟩ := List.isChain_cons_cons.mp h
      obtain ⟨hlt, hnext⟩ := hstep.bounds hfits
      have hrest := ih hnext hlater
      rw [UInt64.lt_iff_toNat_lt] at hlt
      rw [List.length_cons]
      omega

theorem pairwise_lt_of_advances (hfits : code.length < 0x4000000000000000)
    (h : List.IsChain (Advances code) (pc :: places)) : (pc :: places).Pairwise (· < ·) :=
  List.isChain_iff_pairwise.mp (h.imp fun _ _ hstep => (hstep.bounds hfits).1)

end Steps

-- No operation of the scan leaves the range of 64 bits, no byte is taken that is not there, and
-- after as many steps as there are bytes it has come to the exact result.
theorem scan_stays_in_range (code : List UInt8) (hfits : code.length < 0x4000000000000000) :
    (∀ pc : UInt64, pc.toNat < code.length → InRange code pc) ∧
      (∀ low high : Int32, low ≤ high → ∃ count, entryCount low high = some count ∧
        count.toNat = high.toInt - low.toInt + 1 ∧ 1 ≤ count.toNat ∧ count.toNat ≤ 0x100000000) ∧
      (∀ places, List.IsChain (Advances code) (0 :: places) →
        ((0 : UInt64) :: places).Pairwise (· < ·) ∧ places.length ≤ code.length) ∧
      (scanFrom code code.length 0).run = some (invocations code) := by
  refine ⟨fun pc => inRange hfits, ?_, ?_, ?_⟩
  · intro low high hle
    rw [Int32.le_iff_toInt_le] at hle
    have hleast := low.le_toInt
    have hgreatest := high.toInt_lt
    obtain ⟨count, hcount, hcountInt⟩ := exists_entryCount hle
    exact ⟨count, hcount, hcountInt, by omega, by omega⟩
  · intro places hchain
    have hstart : (0 : UInt64).toNat ≤ code.length := Nat.zero_le code.length
    have hlength := length_of_advances hfits hstart hchain
    exact ⟨pairwise_lt_of_advances hfits hchain, by omega⟩
  · exact run_scanFrom hfits code.length 0 (Nat.le_add_left ..)

-- A table from the least to the greatest number says that it is 17179869200 bytes long, and a call
-- behind it is found where a shorter one ends.
theorem scan_stays_in_range_extremes :
    (instructionLength [0xAA, 0, 0, 0, 0, 0, 0, 0, 0x80, 0, 0, 0, 0x7F, 0xFF, 0xFF, 0xFF] 0).run =
        some (.ok 17179869200) ∧
      (scanFrom [0xAA, 0, 0, 0, 0, 0, 0, 0, 0x80, 0, 0, 0, 0x7F, 0xFF, 0xFF, 0xFF] 16 0).run =
        some (.error (.truncatedCode 0)) ∧
      (scanFrom [0xAB, 0, 0, 0, 0, 0, 0, 0, 0, 0, 0, 0, 0xB8, 0x01, 0x02] 15 0).run =
        some (.ok [0x0102]) := by
  have htable := (scan_stays_in_range
    [0xAA, 0, 0, 0, 0, 0, 0, 0, 0x80, 0, 0, 0, 0x7F, 0xFF, 0xFF, 0xFF] (by decide)).2.2.2
  have hcall := (scan_stays_in_range
    [0xAB, 0, 0, 0, 0, 0, 0, 0, 0, 0, 0, 0, 0xB8, 0x01, 0x02] (by decide)).2.2.2
  refine ⟨by decide +kernel, htable.trans ?_, hcall.trans ?_⟩
  · decide +kernel
  · decide +kernel

end CallCensus.WordScan
