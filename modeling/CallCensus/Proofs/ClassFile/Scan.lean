import CallCensus.Proofs.ClassFile.Bodies

namespace CallCensus

-- The instruction that an error is about.
def DecodeError.pc? : DecodeError → Option Nat
  | .unknownOpcode _ pc => some pc
  | .truncatedCode pc => some pc
  | _ => none

namespace Bytecode

-- The operands of the instruction at `pc` and the code behind it, or what is wrong with the
-- instruction.
def step (pc : Nat) (opcode : UInt8) (rest : List UInt8) :
    Except DecodeError (List UInt8 × List UInt8) :=
  match operandLength pc opcode rest with
  | .error error => .error error
  | .ok size => (Bytes.cut size rest).mapError fun _ => .truncatedCode pc

-- How a scan comes from `code`, which starts at `pc`, to `rest`, which starts at `place`: over whole
-- instructions, in which it finds calls that name `indices`.
inductive Scans : (pc : Nat) → (code : List UInt8) → (indices : List UInt16) → (place : Nat) →
    (rest : List UInt8) → Prop where
  | refl (pc : Nat) (code : List UInt8) : Scans pc code [] pc code
  | cons {pc place : Nat} {opcode : UInt8} {rest operands following remaining : List UInt8}
      {indices : List UInt16} (hstep : step pc opcode rest = .ok (operands, following))
      (hlater : Scans (pc + 1 + operands.length) following indices place remaining) :
      Scans pc (opcode :: rest) (invoked opcode operands ++ indices) place remaining

-- The places of a method body that a scan comes to, with the code from there on.
def Reaches (code : List UInt8) (pc : Nat) (rest : List UInt8) : Prop :=
  ∃ indices, Scans 0 code indices pc rest

section Steps

variable {pc : Nat} {opcode : UInt8} {rest operands following : List UInt8}

theorem shape?_eq_none_iff : shape? opcode = none ↔ 0xCB ≤ opcode ∧ opcode ≤ 0xFD := by
  have hall : ∀ number : Fin 256, shape? (UInt8.ofNat number.val) = none ↔
      0xCB ≤ UInt8.ofNat number.val ∧ UInt8.ofNat number.val ≤ 0xFD := by decide +kernel
  have hopcode := hall ⟨opcode.toNat, opcode.toNat_lt⟩
  rwa [UInt8.ofNat_toNat] at hopcode

theorem step_eq_ok_iff : step pc opcode rest = .ok (operands, following) ↔
    rest = operands ++ following ∧
      ∃ instruction : Instruction, instruction.FitsAt pc ∧ instruction.bytes = opcode :: operands := by
  constructor
  · intro h
    unfold step at h
    split at h
    · cases h
    · rename_i size hsize
      cases hcut : Bytes.cut size rest with
      | error missing =>
          rw [hcut] at h
          cases h
      | ok parts =>
          rw [hcut] at h
          obtain rfl := Except.ok.inj h
          exact ⟨(Bytes.append_eq_of_cut hcut).1.symm, exists_instruction hsize hcut⟩
  · rintro ⟨rfl, instruction, hfits, hbytes⟩
    rw [step, operandLength_of_fitsAt hfits hbytes]
    simp only [Bytes.cut_append]
    rfl

theorem operandLength_eq_error {error : DecodeError} (h : operandLength pc opcode rest = .error error) :
    error = if shape? opcode = none then .unknownOpcode opcode pc else .truncatedCode pc := by
  unfold operandLength at h
  split at h <;> rename_i hshape <;> simp only [hshape, reduceCtorEq, ite_true, ite_false]
  · exact (Except.error.inj h).symm
  · cases h
  · split at h
    · split at h
      · exact (Except.error.inj h).symm
      · cases h
    · exact (Except.error.inj h).symm
  · split at h
    · split at h
      · exact (Except.error.inj h).symm
      · cases h
    · exact (Except.error.inj h).symm
  · split at h
    · exact (Except.error.inj h).symm
    · cases h

-- What is wrong is told by the opcode alone.
theorem step_eq_error {error : DecodeError} (h : step pc opcode rest = .error error) :
    error = if shape? opcode = none then .unknownOpcode opcode pc else .truncatedCode pc := by
  unfold step at h
  split at h
  · rename_i found hsize
    obtain rfl := Except.error.inj h
    exact operandLength_eq_error hsize
  · rename_i size hsize
    have hshape : shape? opcode ≠ none := by
      intro hnone
      simp [operandLength, hnone] at hsize
    rw [if_neg hshape]
    cases hcut : Bytes.cut size rest with
    | error missing =>
        rw [hcut] at h
        exact (Except.error.inj h).symm
    | ok parts =>
        rw [hcut] at h
        cases h

-- An instruction that is there in full does not depend on what is behind it.
theorem step_append (h : step pc opcode rest = .ok (operands, following)) (back : List UInt8) :
    step pc opcode (operands ++ back) = .ok (operands, back) := by
  obtain ⟨-, hinstruction⟩ := step_eq_ok_iff.mp h
  exact step_eq_ok_iff.mpr ⟨rfl, hinstruction⟩

-- What is wrong with an instruction is not mended by a cut behind it.
theorem step_take_eq_error {error : DecodeError} (h : step pc opcode rest = .error error)
    (count : Nat) : step pc opcode (rest.take count) = .error error := by
  cases hcut : step pc opcode (rest.take count) with
  | error other => rw [step_eq_error hcut, step_eq_error h]
  | ok parts =>
      obtain ⟨operands, following⟩ := parts
      have hwhole : rest = operands ++ (following ++ rest.drop count) := by
        rw [← List.append_assoc, ← (step_eq_ok_iff.mp hcut).1, List.take_append_drop]
      have hlater := step_append hcut (following ++ rest.drop count)
      rw [← hwhole, h] at hlater
      cases hlater

theorem invocationsFrom_eq_step (pc : Nat) (opcode : UInt8) (rest : List UInt8) :
    invocationsFrom pc (opcode :: rest) =
      match step pc opcode rest with
      | .error error => .error error
      | .ok (operands, following) =>
        (invocationsFrom (pc + 1 + operands.length) following).map (invoked opcode operands ++ ·) := by
  rw [invocationsFrom_cons, step]
  cases operandLength pc opcode rest with
  | error error => rfl
  | ok size =>
      simp only
      cases hcut : Bytes.cut size rest with
      | error missing => rfl
      | ok parts =>
          obtain ⟨operands, following⟩ := parts
          obtain ⟨-, rfl⟩ := Bytes.append_eq_of_cut hcut
          rfl

end Steps

section Scans

variable {pc place : Nat} {code rest : List UInt8} {indices : List UInt16}

theorem Scans.invocationsFrom_eq (h : Scans pc code indices place rest) :
    invocationsFrom pc code = (invocationsFrom place rest).map (indices ++ ·) := by
  induction h with
  | refl pc code =>
      cases invocationsFrom pc code <;> rfl
  | @cons pc place opcode rest operands following remaining indices hstep hlater ih =>
      rw [invocationsFrom_eq_step, hstep]
      simp only [ih]
      cases invocationsFrom place remaining with
      | error error => rfl
      | ok later => simp only [Except.map, List.append_assoc]

-- A scan does not look further than it comes.
theorem Scans.exists_front (h : Scans pc code indices place rest) :
    ∃ front, code = front ++ rest ∧ place = pc + front.length ∧
      ∀ back, Scans pc (front ++ back) indices place back := by
  induction h with
  | refl pc code => exact ⟨[], rfl, rfl, Scans.refl pc⟩
  | @cons pc place opcode rest operands following remaining indices hstep hlater ih =>
      obtain ⟨front, rfl, hplace, hscans⟩ := ih
      obtain ⟨rfl, -⟩ := step_eq_ok_iff.mp hstep
      refine ⟨opcode :: (operands ++ front), ?_, ?_, fun back => ?_⟩
      · rw [List.cons_append, List.append_assoc]
      · rw [hplace, List.length_cons, List.length_append]
        omega
      · rw [List.cons_append, List.append_assoc]
        exact .cons (step_append hstep _) (hscans back)

-- A scan comes to the end of the code or to an instruction that is wrong.
theorem exists_scans (pc : Nat) (code : List UInt8) :
    (∃ indices, Scans pc code indices (pc + code.length) []) ∨
      ∃ indices place opcode rest error, Scans pc code indices place (opcode :: rest) ∧
        step place opcode rest = .error error := by
  induction hlength : code.length using Nat.strongRecOn generalizing pc code with
  | ind length ih =>
    cases code with
    | nil =>
        subst hlength
        exact .inl ⟨[], .refl pc []⟩
    | cons opcode rest =>
        cases hstep : step pc opcode rest with
        | error error => exact .inr ⟨[], pc, opcode, rest, error, .refl pc _, hstep⟩
        | ok parts =>
            obtain ⟨operands, following⟩ := parts
            obtain ⟨rfl, -⟩ := step_eq_ok_iff.mp hstep
            rw [List.length_cons, List.length_append] at hlength
            rcases ih following.length (by omega) (pc + 1 + operands.length) following rfl with
              ⟨indices, hscans⟩ | ⟨indices, place, wrong, behind, error, hscans, herror⟩
            · have hend : pc + 1 + operands.length + following.length = pc + length := by omega
              rw [hend] at hscans
              exact .inl ⟨_, .cons hstep hscans⟩
            · exact .inr ⟨_, place, wrong, behind, error, .cons hstep hscans, herror⟩

theorem Scans.invocationsFrom_eq_error {opcode : UInt8} {error : DecodeError}
    (h : Scans pc code indices place (opcode :: rest)) (hstep : step place opcode rest = .error error) :
    invocationsFrom pc code = .error error := by
  rw [h.invocationsFrom_eq, invocationsFrom_eq_step, hstep]
  rfl

theorem Scans.invocationsFrom_eq_ok (h : Scans pc code indices place []) :
    invocationsFrom pc code = .ok indices := by
  rw [h.invocationsFrom_eq, invocationsFrom_nil, Except.map, List.append_nil]

theorem scans_of_invocationsFrom_eq_ok (h : invocationsFrom pc code = .ok indices) :
    Scans pc code indices (pc + code.length) [] := by
  rcases exists_scans pc code with ⟨found, hscans⟩ | ⟨_, _, _, _, _, hscans, hstep⟩
  · rw [hscans.invocationsFrom_eq_ok] at h
    obtain rfl := Except.ok.inj h
    exact hscans
  · rw [hscans.invocationsFrom_eq_error hstep] at h
    cases h

-- The first instruction that is wrong is the one that is told of.
theorem exists_scans_of_invocationsFrom_eq_error {error : DecodeError}
    (h : invocationsFrom pc code = .error error) :
    ∃ indices place opcode rest, Scans pc code indices place (opcode :: rest) ∧
      step place opcode rest = .error error := by
  rcases exists_scans pc code with ⟨_, hscans⟩ | ⟨found, place, opcode, rest, other, hscans, hstep⟩
  · rw [hscans.invocationsFrom_eq_ok] at h
    cases h
  · rw [hscans.invocationsFrom_eq_error hstep] at h
    obtain rfl := Except.error.inj h
    exact ⟨found, place, opcode, rest, hscans, hstep⟩

end Scans

end Bytecode

end CallCensus
