import CallCensus.Proofs.ClassFile.Scan

namespace CallCensus.Bytecode

variable {pc : Nat} {opcode : UInt8} {code rest : List UInt8}

theorem pc?_of_step_eq_error {error : DecodeError} (h : step pc opcode rest = .error error) :
    error.pc? = some pc := by
  rw [step_eq_error h]
  split <;> rfl

theorem step_eq_unknownOpcode {found : UInt8} {place : Nat}
    (h : step pc opcode rest = .error (.unknownOpcode found place)) :
    found = opcode ∧ place = pc ∧ shape? opcode = none := by
  have herror := step_eq_error h
  split at herror
  · rename_i hshape
    obtain ⟨rfl, rfl⟩ := DecodeError.unknownOpcode.inj herror
    exact ⟨rfl, rfl, hshape⟩
  · cases herror

-- An opcode that stands for no instruction is wrong whatever is behind it.
theorem step_of_shape?_eq_none (hshape : shape? opcode = none) (pc : Nat) (rest : List UInt8) :
    step pc opcode rest = .error (.unknownOpcode opcode pc) := by
  simp only [step, operandLength, hshape]

-- The first instruction that is wrong: the code in front of it is accepted, and with any cut of the
-- code behind its opcode it stays the first.
theorem exists_fault_of_invocations_eq_error {error : DecodeError}
    (h : invocations code = .error error) :
    ∃ front opcode rest indices, code = front ++ opcode :: rest ∧
      step front.length opcode rest = .error error ∧
      ∀ back, Scans 0 (front ++ back) indices front.length back := by
  obtain ⟨indices, place, opcode, rest, hscans, hstep⟩ :=
    exists_scans_of_invocationsFrom_eq_error h
  obtain ⟨front, hcode, hplace, hfront⟩ := hscans.exists_front
  rw [Nat.zero_add] at hplace
  subst hplace
  exact ⟨front, opcode, rest, indices, hcode, hstep, hfront⟩

-- An error of the scan is about the first instruction that is wrong: the code up to it is accepted,
-- and every longer part of the code is refused for the same reason. It is an unknown opcode if and
-- only if the byte there is one that no instruction starts with, and then it does not matter what
-- follows.
theorem invocations_error_first (code : List UInt8) :
    (∀ error, invocations code = .error error → ∃ pc, error.pc? = some pc ∧ pc < code.length ∧
      (∃ indices, invocations (code.take pc) = .ok indices) ∧
      (∀ cut, pc < cut → cut ≤ code.length → invocations (code.take cut) = .error error) ∧
      ∀ opcode, error = .unknownOpcode opcode pc ↔
        code[pc]? = some opcode ∧ 0xCB ≤ opcode ∧ opcode ≤ 0xFD) ∧
    ∀ opcode pc, invocations code = .error (.unknownOpcode opcode pc) →
      ∀ suffix, invocations (code ++ suffix) = .error (.unknownOpcode opcode pc) := by
  constructor
  · intro error h
    obtain ⟨front, opcode, rest, indices, rfl, hstep, hscans⟩ :=
      exists_fault_of_invocations_eq_error h
    refine ⟨front.length, pc?_of_step_eq_error hstep, ?_, ⟨indices, ?_⟩, fun cut hlt hle => ?_,
      fun found => ?_⟩
    · rw [List.length_append, List.length_cons]
      omega
    · have hfront := hscans []
      rw [List.append_nil] at hfront
      rw [List.take_left]
      exact hfront.invocationsFrom_eq_ok
    · obtain ⟨count, rfl⟩ := Nat.exists_eq_add_of_lt hlt
      have htake : (front ++ opcode :: rest).take (front.length + count + 1) =
          front ++ opcode :: rest.take count := by
        rw [Nat.add_assoc, List.take_length_add_append, List.take_succ_cons]
      rw [htake]
      exact (hscans _).invocationsFrom_eq_error (step_take_eq_error hstep count)
    · rw [List.getElem?_append_right (Nat.le_refl _), Nat.sub_self, List.getElem?_cons_zero,
        Option.some.injEq]
      constructor
      · rintro rfl
        obtain ⟨rfl, -, hshape⟩ := step_eq_unknownOpcode hstep
        exact ⟨rfl, shape?_eq_none_iff.mp hshape⟩
      · rintro ⟨rfl, hrange⟩
        rw [step_of_shape?_eq_none (shape?_eq_none_iff.mpr hrange)] at hstep
        exact (Except.error.inj hstep).symm
  · intro opcode pc h suffix
    obtain ⟨front, found, rest, indices, rfl, hstep, hscans⟩ :=
      exists_fault_of_invocations_eq_error h
    obtain ⟨rfl, rfl, hshape⟩ := step_eq_unknownOpcode hstep
    rw [List.append_assoc, List.cons_append]
    exact (hscans _).invocationsFrom_eq_error (step_of_shape?_eq_none hshape _ _)

-- Behind a switch over two offsets stands an opcode of no instruction in the first, and a jump that
-- lacks its second byte in the other.
theorem invocations_error_first_switch :
    let switch : List UInt8 := [0xAA, 0, 0, 0, 0, 0, 0, 0, 0, 0, 0, 0, 0, 0, 0, 1, 0, 0, 0, 0, 0, 0, 0, 0]
    let unknown : List UInt8 := switch ++ [0xCB, 0xB8]
    let short : List UInt8 := switch ++ [0xA7, 0xCB]
    invocations unknown = .error (.unknownOpcode 0xCB 24) ∧
      (∃ indices, invocations (unknown.take 24) = .ok indices) ∧
      (∀ suffix, invocations (unknown ++ suffix) = .error (.unknownOpcode 0xCB 24)) ∧
      invocations short = .error (.truncatedCode 24) ∧
      invocations (short.take 25) = .error (.truncatedCode 24) := by
  intro switch unknown short
  have hunknown : invocations unknown = .error (.unknownOpcode 0xCB 24) := by decide +kernel
  have hshort : invocations short = .error (.truncatedCode 24) := by decide +kernel
  obtain ⟨pc, hpc, -, haccepted, -⟩ := (invocations_error_first unknown).1 _ hunknown
  obtain rfl : 24 = pc := Option.some.inj hpc
  obtain ⟨pc, hpc, -, -, hcuts, -⟩ := (invocations_error_first short).1 _ hshort
  obtain rfl : 24 = pc := Option.some.inj hpc
  exact ⟨hunknown, haccepted, (invocations_error_first unknown).2 _ _ hunknown, hshort,
    hcuts 25 (by decide) (by decide)⟩

end CallCensus.Bytecode
