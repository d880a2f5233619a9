import CallCensus.Bytes.Lemmas
import CallCensus.ClassFile.Instruction
import CallCensus.Proofs.Results

namespace CallCensus.Bytecode

theorem word?_ofUInt32 (word : UInt32) (rest : List UInt8) :
    word? (Bytes.ofUInt32 word ++ rest) = some (signed word.toNat) := by
  have hcut := Bytes.cut_append (Bytes.ofUInt32 word) rest
  rw [Bytes.length_ofUInt32] at hcut
  simp only [word?, hcut, Bytes.bigEndian_ofUInt32]

theorem eq_ofUInt32_of_word? {bytes : List UInt8} {value : Int} (h : word? bytes = some value) :
    ∃ word rest, bytes = Bytes.ofUInt32 word ++ rest ∧ value = signed word.toNat := by
  unfold word? at h
  split at h
  · cases h
  · rename_i front rest hcut
    obtain ⟨rfl, hlength⟩ := Bytes.append_eq_of_cut hcut
    refine ⟨(Bytes.bigEndian front).toUInt32, rest, by rw [Bytes.ofUInt32_bigEndian hlength], ?_⟩
    rw [Bytes.toNat_bigEndian_toUInt32 hlength]
    exact (Option.some.inj h).symm

theorem padding_eq_length {pc : Nat} {filler : List UInt8} (h : Instruction.Pads pc filler) :
    padding pc = filler.length := by
  obtain ⟨hlt, hmod⟩ := h
  unfold padding
  omega

theorem pads_of_length {pc : Nat} {filler : List UInt8} (h : filler.length = padding pc) :
    Instruction.Pads pc filler := by
  unfold padding at h
  constructor <;> omega

-- In front of the other fields of a switch stand its padding and the offset it falls back to.
theorem drop_fallback {pc : Nat} {filler : List UInt8} (hpads : Instruction.Pads pc filler)
    (fallback : UInt32) (fields : List UInt8) :
    (filler ++ (Bytes.ofUInt32 fallback ++ fields)).drop (padding pc + 4) = fields := by
  rw [padding_eq_length hpads, ← Bytes.length_ofUInt32 fallback, ← List.append_assoc,
    ← List.length_append, List.drop_left]

theorem exists_fallback {pc : Nat} {rest : List UInt8} {value : Int}
    (h : word? (rest.drop (padding pc + 4)) = some value) :
    ∃ filler fallback field fields, Instruction.Pads pc filler ∧ value = signed field.toNat ∧
      rest = filler ++ (Bytes.ofUInt32 fallback ++ (Bytes.ofUInt32 field ++ fields)) := by
  obtain ⟨field, fields, hfields, hvalue⟩ := eq_ofUInt32_of_word? h
  have hlength := congrArg List.length hfields
  simp only [List.length_drop, List.length_append, Bytes.length_ofUInt32] at hlength
  have hfiller : (rest.take (padding pc)).length = padding pc := by
    rw [List.length_take]
    omega
  have hfallback : ((rest.drop (padding pc)).take 4).length = 4 := by
    rw [List.length_take, List.length_drop]
    omega
  refine ⟨rest.take (padding pc), (Bytes.bigEndian ((rest.drop (padding pc)).take 4)).toUInt32,
    field, fields, pads_of_length hfiller, hvalue, ?_⟩
  rw [Bytes.ofUInt32_bigEndian hfallback, ← hfields, ← List.drop_drop, List.take_append_drop,
    List.take_append_drop]

-- A cut that reaches `size` bytes behind `front`.
theorem exists_end_of_cut (front : List UInt8) (size : Nat) {count : Nat}
    {back rest operands following : List UInt8} (h : Bytes.cut count rest = .ok (operands, following))
    (hcount : count = front.length + size) (hrest : rest = front ++ back) :
    ∃ entries, entries.length = size ∧ back = entries ++ following ∧ operands = front ++ entries := by
  subst hcount hrest
  obtain ⟨happend, hlength⟩ := Bytes.append_eq_of_cut h
  have htake := congrArg (List.take (front.length + size)) happend
  have hdrop := congrArg (List.drop (front.length + size)) happend
  rw [List.take_left' hlength, List.take_length_add_append] at htake
  rw [List.drop_left' hlength, List.drop_length_add_append] at hdrop
  refine ⟨back.take size, ?_, by rw [hdrop, List.take_append_drop], htake⟩
  have htotal := congrArg List.length htake
  rw [List.length_append] at htotal
  omega

theorem shape?_tableSwitch : shape? 0xAA = some .tableSwitch := rfl

theorem shape?_lookupSwitch : shape? 0xAB = some .lookupSwitch := rfl

theorem shape?_wide : shape? 0xC4 = some .wide := rfl

theorem eq_of_shape? {opcode : UInt8} {shape : Shape} (h : shape? opcode = some shape) :
    match shape with
    | .fixed _ => True
    | .tableSwitch => opcode = 0xAA
    | .lookupSwitch => opcode = 0xAB
    | .wide => opcode = 0xC4 := by
  unfold shape? at h
  split at h
  · cases h
    assumption
  · split at h
    · cases h
      assumption
    · split at h
      · cases h
        assumption
      · obtain ⟨entry, -, rfl⟩ := Option.map_eq_some_iff.mp h
        trivial

-- The size that a shape tells without a look at the operands.
def Shape.size? : Shape → Option Nat
  | .fixed size => some size
  | .tableSwitch | .lookupSwitch | .wide => none

theorem Shape.size?_eq_some_iff {shape : Shape} {size : Nat} :
    shape.size? = some size ↔ shape = .fixed size := by
  cases shape <;> simp [Shape.size?]

-- The ranges of opcodes list the same sizes as the instructions do one by one.
theorem shape?_eq_fixed_iff {opcode : UInt8} {size : Nat} :
    shape? opcode = some (.fixed size) ↔ Instruction.operandSize? opcode = some size := by
  have hall : ∀ number : Fin 256, Instruction.operandSize? (UInt8.ofNat number.val) =
      (shape? (UInt8.ofNat number.val)).bind Shape.size? := by decide +kernel
  have hopcode := hall ⟨opcode.toNat, opcode.toNat_lt⟩
  rw [UInt8.ofNat_toNat] at hopcode
  rw [hopcode]
  simp only [Option.bind_eq_some_iff, Shape.size?_eq_some_iff, exists_eq_right]

theorem isInvocation_iff (opcode : UInt8) :
    isInvocation opcode ↔ opcode ∈ [0xB6, 0xB7, 0xB8, 0xB9] := by
  simp only [isInvocation, Bool.and_eq_true, decide_eq_true_eq, UInt8.le_iff_toNat_le,
    List.mem_cons, List.not_mem_nil, or_false, ← UInt8.toNat_inj]
  show 182 ≤ opcode.toNat ∧ opcode.toNat ≤ 185 ↔
    opcode.toNat = 182 ∨ opcode.toNat = 183 ∨ opcode.toNat = 184 ∨ opcode.toNat = 185
  omega

theorem exists_word (chunk : List UInt8) (h : chunk.length = 4) :
    ∃ word, chunk = Bytes.ofUInt32 word :=
  ⟨_, (Bytes.ofUInt32_bigEndian h).symm⟩

def pairBytes (pair : UInt32 × UInt32) : List UInt8 :=
  Bytes.ofUInt32 pair.1 ++ Bytes.ofUInt32 pair.2

theorem length_pairBytes (pair : UInt32 × UInt32) : (pairBytes pair).length = 8 := by
  simp [pairBytes]

theorem pairBytes_inj {pair other : UInt32 × UInt32} (h : pairBytes pair = pairBytes other) :
    pair = other := by
  obtain ⟨hfirst, hsecond⟩ := Bytes.ofUInt32_append_inj h
  exact Prod.ext hfirst (Bytes.ofUInt32_inj hsecond)

theorem Instruction.bytes_tableSwitch (filler : List UInt8) (fallback low high : UInt32)
    (targets : List UInt32) :
    (tableSwitch filler fallback low high targets).bytes =
      0xAA :: (filler ++ (Bytes.ofUInt32 fallback ++ (Bytes.ofUInt32 low ++
        (Bytes.ofUInt32 high ++ targets.flatMap Bytes.ofUInt32)))) := by
  simp only [bytes, List.cons_append, List.append_assoc]

theorem Instruction.bytes_lookupSwitch (filler : List UInt8) (fallback : UInt32)
    (pairs : List (UInt32 × UInt32)) :
    (lookupSwitch filler fallback pairs).bytes =
      0xAB :: (filler ++ (Bytes.ofUInt32 fallback ++ (Bytes.toBigEndian 4 pairs.length ++
        pairs.flatMap pairBytes))) := by
  simp only [bytes, List.cons_append, List.append_assoc]
  rfl

theorem exists_pair (chunk : List UInt8) (h : chunk.length = 8) :
    ∃ pair, chunk = pairBytes pair := by
  obtain ⟨first, hfirst⟩ := exists_word (chunk.take 4) (by rw [List.length_take]; omega)
  obtain ⟨second, hsecond⟩ := exists_word (chunk.drop 4) (by rw [List.length_drop]; omega)
  exact ⟨(first, second), by rw [pairBytes, ← hfirst, ← hsecond, List.take_append_drop]⟩

theorem operandLength_tableSwitch {pc : Nat} {filler : List UInt8}
    (hpads : Instruction.Pads pc filler) (fallback low high : UInt32) (rest : List UInt8) :
    operandLength pc 0xAA (filler ++ (Bytes.ofUInt32 fallback ++ (Bytes.ofUInt32 low ++
        (Bytes.ofUInt32 high ++ rest)))) =
      if signed high.toNat < signed low.toNat then .error (.truncatedCode pc)
      else .ok (filler.length + 12 + (signed high.toNat - signed low.toNat + 1).toNat * 4) := by
  have hlow := drop_fallback hpads fallback (Bytes.ofUInt32 low ++ (Bytes.ofUInt32 high ++ rest))
  have hhigh : padding pc + 8 = padding pc + 4 + (Bytes.ofUInt32 low).length := by
    rw [Bytes.length_ofUInt32]
  simp only [operandLength, shape?_tableSwitch]
  rw [hlow, word?_ofUInt32, hhigh, ← List.drop_drop, hlow, List.drop_left, word?_ofUInt32,
    padding_eq_length hpads]

theorem toBigEndian_eq_ofUInt32 {count : Nat} (h : count < 0x100000000) :
    Bytes.toBigEndian 4 count = Bytes.ofUInt32 (UInt32.ofNat count) := by
  rw [Bytes.ofUInt32, UInt32.toNat_ofNat_of_lt' h]

theorem operandLength_lookupSwitch {pc : Nat} {filler : List UInt8}
    (hpads : Instruction.Pads pc filler) (fallback count : UInt32) (rest : List UInt8) :
    operandLength pc 0xAB (filler ++ (Bytes.ofUInt32 fallback ++ (Bytes.ofUInt32 count ++ rest))) =
      if signed count.toNat < 0 then .error (.truncatedCode pc)
      else .ok (filler.length + 8 + (signed count.toNat).toNat * 8) := by
  simp only [operandLength, shape?_lookupSwitch]
  rw [drop_fallback hpads, word?_ofUInt32, padding_eq_length hpads]

theorem signed_of_lt {value : Nat} (h : value < 0x80000000) : signed value = value := if_pos h

theorem signed_nonneg_iff {word : UInt32} : 0 ≤ signed word.toNat ↔ word.toNat < 0x80000000 := by
  have hlt := word.toNat_lt
  unfold signed
  split <;> omega

theorem operandLength_of_fitsAt {pc : Nat} {instruction : Instruction} {opcode : UInt8}
    {operands : List UInt8} (hfits : instruction.FitsAt pc)
    (hbytes : instruction.bytes = opcode :: operands) (following : List UInt8) :
    operandLength pc opcode (operands ++ following) = .ok operands.length := by
  cases instruction with
  | plain opcode operands =>
      obtain ⟨rfl, rfl⟩ := List.cons.inj hbytes
      simp only [Instruction.FitsAt, ← shape?_eq_fixed_iff] at hfits
      simp only [operandLength, hfits]
  | tableSwitch filler fallback low high targets =>
      rw [Instruction.bytes_tableSwitch] at hbytes
      obtain ⟨rfl, rfl⟩ := List.cons.inj hbytes
      obtain ⟨hpads, hle, hcount⟩ := hfits
      simp only [List.append_assoc]
      rw [operandLength_tableSwitch hpads, if_neg (Int.not_lt.mpr hle)]
      simp only [List.length_append, Bytes.length_ofUInt32,
        Bytes.length_flatMap_encode Bytes.length_ofUInt32]
      congr 1
      omega
  | lookupSwitch filler fallback pairs =>
      rw [Instruction.bytes_lookupSwitch] at hbytes
      obtain ⟨rfl, rfl⟩ := List.cons.inj hbytes
      obtain ⟨hpads, hlt⟩ := hfits
      have hfits : pairs.length < 0x100000000 := Nat.lt_trans hlt (by decide)
      rw [toBigEndian_eq_ofUInt32 hfits]
      simp only [List.append_assoc]
      rw [operandLength_lookupSwitch hpads, UInt32.toNat_ofNat_of_lt' hfits, signed_of_lt hlt,
        if_neg (by omega)]
      simp only [List.length_append, Bytes.length_ofUInt32,
        Bytes.length_flatMap_encode length_pairBytes]
      congr 1
      omega
  | wide modified operands =>
      obtain ⟨rfl, rfl⟩ := List.cons.inj hbytes
      simp only [Instruction.FitsAt] at hfits
      simp only [operandLength, shape?_wide, List.cons_append, List.length_cons, hfits]
      split <;> rfl

theorem exists_tableSwitch {pc size : Nat} {rest operands following : List UInt8}
    (hsize : operandLength pc 0xAA rest = .ok size)
    (hcut : Bytes.cut size rest = .ok (operands, following)) :
    ∃ instruction : Instruction, instruction.FitsAt pc ∧ instruction.bytes = 0xAA :: operands := by
  cases hlow : word? (rest.drop (padding pc + 4)) with
  | none => simp [operandLength, shape?_tableSwitch, hlow] at hsize
  | some low =>
      obtain ⟨filler, fallback, lowField, fields, hpads, rfl, rfl⟩ := exists_fallback hlow
      cases hhigh : word? fields with
      | none =>
          have hdrop : padding pc + 8 = padding pc + 4 + (Bytes.ofUInt32 lowField).length := by
            rw [Bytes.length_ofUInt32]
          simp only [operandLength, shape?_tableSwitch, hdrop, ← List.drop_drop,
            drop_fallback hpads, List.drop_left, hhigh] at hsize
          split at hsize
          · rename_i h
            cases h
          · cases hsize
      | some high =>
          obtain ⟨highField, entries, rfl, rfl⟩ := eq_ofUInt32_of_word? hhigh
          rw [operandLength_tableSwitch hpads] at hsize
          split at hsize
          · cases hsize
          · rename_i hle
            have hle := Int.not_lt.mp hle
            have hrest := exists_end_of_cut
              (filler ++ (Bytes.ofUInt32 fallback ++ (Bytes.ofUInt32 lowField ++
                Bytes.ofUInt32 highField)))
              ((signed highField.toNat - signed lowField.toNat + 1).toNat * 4) hcut
              (by simp [← Except.ok.inj hsize, Nat.add_assoc]) (by simp only [List.append_assoc]; rfl)
            obtain ⟨entries, hlength, rfl, rfl⟩ := hrest
            obtain ⟨targets, htargets, rfl⟩ :=
              Bytes.exists_entries exists_word _ entries hlength
            refine ⟨.tableSwitch filler fallback lowField highField targets, ⟨hpads, hle, ?_⟩, ?_⟩
            · omega
            · rw [Instruction.bytes_tableSwitch]
              simp only [List.append_assoc]

theorem exists_lookupSwitch {pc size : Nat} {rest operands following : List UInt8}
    (hsize : operandLength pc 0xAB rest = .ok size)
    (hcut : Bytes.cut size rest = .ok (operands, following)) :
    ∃ instruction : Instruction, instruction.FitsAt pc ∧ instruction.bytes = 0xAB :: operands := by
  cases hcount : word? (rest.drop (padding pc + 4)) with
  | none => simp [operandLength, shape?_lookupSwitch, hcount] at hsize
  | some count =>
      obtain ⟨filler, fallback, field, entries, hpads, rfl, rfl⟩ := exists_fallback hcount
      rw [operandLength_lookupSwitch hpads] at hsize
      split at hsize
      · cases hsize
      · rename_i hle
        have hlt := signed_nonneg_iff.mp (Int.not_lt.mp hle)
        have hrest := exists_end_of_cut
          (filler ++ (Bytes.ofUInt32 fallback ++ Bytes.ofUInt32 field)) (field.toNat * 8) hcut
          (by simp [← Except.ok.inj hsize, signed_of_lt hlt]) (by simp only [List.append_assoc]; rfl)
        obtain ⟨entries, hlength, rfl, rfl⟩ := hrest
        obtain ⟨pairs, hpairs, rfl⟩ :=
          Bytes.exists_entries exists_pair field.toNat entries hlength
        refine ⟨.lookupSwitch filler fallback pairs, ⟨hpads, hpairs ▸ hlt⟩, ?_⟩
        rw [Instruction.bytes_lookupSwitch, hpairs, ← Bytes.ofUInt32]
        simp only [List.append_assoc]

theorem exists_wide {pc size : Nat} {rest operands following : List UInt8}
    (hsize : operandLength pc 0xC4 rest = .ok size)
    (hcut : Bytes.cut size rest = .ok (operands, following)) :
    ∃ instruction : Instruction, instruction.FitsAt pc ∧ instruction.bytes = 0xC4 :: operands := by
  cases rest with
  | nil => simp [operandLength, shape?_wide] at hsize
  | cons modified rest =>
      simp only [operandLength, shape?_wide, Except.ok.injEq] at hsize
      obtain ⟨happend, hlength⟩ := Bytes.append_eq_of_cut hcut
      cases operands with
      | nil => split at hsize <;> simp at hlength <;> omega
      | cons first operands =>
          obtain ⟨rfl, -⟩ := List.cons.inj happend
          refine ⟨.wide first operands, ?_, rfl⟩
          rw [Instruction.FitsAt]
          rw [List.length_cons] at hlength
          split at hsize <;> simp_all only [ite_true, ite_false] <;> omega

-- The operands that are cut off behind an opcode make up an instruction with it.
theorem exists_instruction {pc size : Nat} {opcode : UInt8} {rest operands following : List UInt8}
    (hsize : operandLength pc opcode rest = .ok size)
    (hcut : Bytes.cut size rest = .ok (operands, following)) :
    ∃ instruction : Instruction, instruction.FitsAt pc ∧ instruction.bytes = opcode :: operands := by
  cases hshape : shape? opcode with
  | none => simp [operandLength, hshape] at hsize
  | some shape =>
      have hopcode := eq_of_shape? hshape
      cases shape with
      | fixed count =>
          simp only [operandLength, hshape, Except.ok.injEq] at hsize
          refine ⟨.plain opcode operands, ?_, rfl⟩
          rw [Instruction.FitsAt, ← shape?_eq_fixed_iff, hshape, hsize,
            (Bytes.append_eq_of_cut hcut).2]
      | tableSwitch =>
          obtain rfl : opcode = 0xAA := hopcode
          exact exists_tableSwitch hsize hcut
      | lookupSwitch =>
          obtain rfl : opcode = 0xAB := hopcode
          exact exists_lookupSwitch hsize hcut
      | wide =>
          obtain rfl : opcode = 0xC4 := hopcode
          exact exists_wide hsize hcut

theorem toList_reference? {instruction : Instruction} {opcode : UInt8} {operands : List UInt8}
    (h : instruction.bytes = opcode :: operands) :
    instruction.reference?.toList = invoked opcode operands := by
  cases instruction with
  | plain opcode operands =>
      obtain ⟨rfl, rfl⟩ := List.cons.inj h
      simp only [Instruction.reference?, invoked, ← isInvocation_iff]
      split <;> rfl
  | tableSwitch filler fallback low high targets =>
      obtain ⟨rfl, -⟩ := List.cons.inj h
      rfl
  | lookupSwitch filler fallback pairs =>
      obtain ⟨rfl, -⟩ := List.cons.inj h
      rfl
  | wide modified operands =>
      obtain ⟨rfl, -⟩ := List.cons.inj h
      rfl

theorem invocationsFrom_nil (pc : Nat) : invocationsFrom pc [] = .ok [] := by
  rw [invocationsFrom]

theorem invocationsFrom_cons (pc : Nat) (opcode : UInt8) (rest : List UInt8) :
    invocationsFrom pc (opcode :: rest) =
      match operandLength pc opcode rest with
      | .error error => .error error
      | .ok size =>
        match Bytes.cut size rest with
        | .error _ => .error (.truncatedCode pc)
        | .ok (operands, following) =>
          (invocationsFrom (pc + 1 + size) following).map (invoked opcode operands ++ ·) := by
  rw [invocationsFrom]
  cases operandLength pc opcode rest with
  | error error => rfl
  | ok size =>
      simp only
      split
      · rename_i hcut
        rw [hcut]
      · rename_i operands following hcut
        rw [hcut]
        simp only
        cases invocationsFrom (pc + 1 + size) following <;> rfl

theorem Instruction.exists_bytes_eq_cons (instruction : Instruction) :
    ∃ opcode operands, instruction.bytes = opcode :: operands := by
  cases instruction <;> exact ⟨_, _, rfl⟩

theorem references_cons (instruction : Instruction) (rest : List Instruction) :
    Instruction.references (instruction :: rest) =
      instruction.reference?.toList ++ Instruction.references rest := by
  unfold Instruction.references
  cases h : instruction.reference? with
  | none => rw [List.filterMap_cons_none h]; rfl
  | some index => rw [List.filterMap_cons_some h]; rfl

theorem invocationsFrom_assemble {pc : Nat} {instructions : List Instruction}
    (h : Instruction.FitFrom pc instructions) :
    invocationsFrom pc (Instruction.assemble instructions) =
      .ok (Instruction.references instructions) := by
  induction instructions generalizing pc with
  | nil => exact invocationsFrom_nil pc
  | cons instruction rest ih =>
      obtain ⟨hfits, hrest⟩ := h
      obtain ⟨opcode, operands, hbytes⟩ := instruction.exists_bytes_eq_cons
      have hnext : pc + 1 + operands.length = pc + instruction.bytes.length := by
        rw [hbytes, List.length_cons]
        omega
      have hassemble : Instruction.assemble (instruction :: rest) =
          opcode :: (operands ++ Instruction.assemble rest) := by
        rw [Instruction.assemble, List.flatMap_cons, hbytes]
        rfl
      rw [hassemble, invocationsFrom_cons, operandLength_of_fitsAt hfits hbytes]
      simp only [Bytes.cut_append, hnext, ih hrest, Except.map, references_cons,
        toList_reference? hbytes]

-- A method body is read if and only if it consists of instructions, each of which fits where it
-- stands.
theorem invocationsFrom_eq_ok_iff {pc : Nat} {code : List UInt8} {indices : List UInt16} :
    invocationsFrom pc code = .ok indices ↔
      ∃ instructions, Instruction.FitFrom pc instructions ∧
        code = Instruction.assemble instructions ∧
        indices = Instruction.references instructions := by
  constructor
  · intro h
    induction hlength : code.length using Nat.strongRecOn generalizing pc code indices with
    | ind length ih =>
      cases code with
      | nil =>
          rw [invocationsFrom_nil] at h
          exact ⟨[], trivial, rfl, (Except.ok.inj h).symm⟩
      | cons opcode rest =>
          rw [invocationsFrom_cons] at h
          split at h
          · cases h
          · rename_i size hsize
            split at h
            · cases h
            · rename_i operands following hcut
              obtain ⟨instruction, hfits, hbytes⟩ := exists_instruction hsize hcut
              obtain ⟨happend, hoperands⟩ := Bytes.append_eq_of_cut hcut
              obtain ⟨later, hlater, rfl⟩ := Results.map_eq_ok_iff.mp h
              have hshorter : following.length < length := by
                rw [← hlength, ← happend, List.length_cons, List.length_append]
                omega
              obtain ⟨instructions, hfit, rfl, rfl⟩ := ih _ hshorter hlater rfl
              refine ⟨instruction :: instructions, ⟨hfits, ?_⟩, ?_, ?_⟩
              · rwa [hbytes, List.length_cons, hoperands, ← Nat.add_assoc, Nat.add_right_comm]
              · rw [Instruction.assemble, List.flatMap_cons, hbytes, ← happend]
                rfl
              · rw [references_cons, toList_reference? hbytes]
  · rintro ⟨instructions, hfit, rfl, rfl⟩
    exact invocationsFrom_assemble hfit

end CallCensus.Bytecode
