import CallCensus.Proofs.ClassFile.Scan

namespace CallCensus

-- The same error about an instruction that stands further behind.
def DecodeError.moved (distance : Nat) : DecodeError → DecodeError
  | .unknownOpcode opcode pc => .unknownOpcode opcode (pc + distance)
  | .truncatedCode pc => .truncatedCode (pc + distance)
  | error => error

namespace Bytecode

variable {pc place distance : Nat} {opcode : UInt8} {code rest : List UInt8} {indices : List UInt16}

theorem padding_moved (h : distance % 4 = 0) (pc : Nat) :
    padding (pc + distance) = padding pc := by
  unfold padding
  omega

-- Only the fields of a switch depend on where it stands, and they do so up to multiples of four.
theorem operandLength_moved (h : distance % 4 = 0 ∨ opcode ≠ 0xAA ∧ opcode ≠ 0xAB) (pc : Nat)
    (rest : List UInt8) : operandLength (pc + distance) opcode rest =
      (operandLength pc opcode rest).mapError (DecodeError.moved distance) := by
  cases hshape : shape? opcode with
  | none =>
      simp only [operandLength, hshape]
      rfl
  | some shape =>
      have hopcode := eq_of_shape? hshape
      cases shape with
      | fixed size =>
          simp only [operandLength, hshape]
          rfl
      | tableSwitch =>
          obtain rfl : opcode = 0xAA := hopcode
          have hdistance : distance % 4 = 0 := h.resolve_right fun hne => hne.1 rfl
          simp only [operandLength, hshape, padding_moved hdistance]
          split
          · split <;> rfl
          · rfl
      | lookupSwitch =>
          obtain rfl : opcode = 0xAB := hopcode
          have hdistance : distance % 4 = 0 := h.resolve_right fun hne => hne.2 rfl
          simp only [operandLength, hshape, padding_moved hdistance]
          split
          · split <;> rfl
          · rfl
      | wide =>
          simp only [operandLength, hshape]
          cases rest <;> rfl

theorem step_moved (h : distance % 4 = 0 ∨ opcode ≠ 0xAA ∧ opcode ≠ 0xAB) (pc : Nat)
    (rest : List UInt8) :
    step (pc + distance) opcode rest = (step pc opcode rest).mapError (DecodeError.moved distance) := by
  rw [step, step, operandLength_moved h]
  cases operandLength pc opcode rest with
  | error error => rfl
  | ok size =>
      simp only [Except.mapError]
      cases Bytes.cut size rest <;> rfl

-- No switch is among the instructions that a scan of the code comes to.
def SwitchFree (pc : Nat) (code : List UInt8) : Prop :=
  ∀ indices place opcode rest, Scans pc code indices place (opcode :: rest) →
    opcode ≠ 0xAA ∧ opcode ≠ 0xAB

theorem Scans.moved (h : Scans pc code indices place rest)
    (hplaced : distance % 4 = 0 ∨ SwitchFree pc code) :
    Scans (pc + distance) code indices (place + distance) rest := by
  induction h with
  | refl pc code => exact .refl _ code
  | @cons pc place opcode rest operands following remaining indices hstep hlater ih =>
      have hopcode : distance % 4 = 0 ∨ opcode ≠ 0xAA ∧ opcode ≠ 0xAB :=
        hplaced.imp_right fun hfree => hfree [] pc opcode rest (.refl pc _)
      have hfollowing : distance % 4 = 0 ∨ SwitchFree (pc + 1 + operands.length) following :=
        hplaced.imp_right fun hfree _ _ _ _ hscans => hfree _ _ _ _ (.cons hstep hscans)
      have hmoved := step_moved hopcode pc rest
      rw [hstep] at hmoved
      have hnext : pc + 1 + operands.length + distance = pc + distance + 1 + operands.length := by
        omega
      exact .cons hmoved (hnext ▸ ih hfollowing)

-- What stands at another place of a method is scanned in the same way, with errors at their new
-- places.
theorem invocationsFrom_moved (pc : Nat) (code : List UInt8)
    (hplaced : distance % 4 = 0 ∨ SwitchFree pc code) :
    invocationsFrom (pc + distance) code =
      (invocationsFrom pc code).mapError (DecodeError.moved distance) := by
  rcases exists_scans pc code with ⟨indices, hscans⟩ |
    ⟨indices, place, opcode, rest, error, hscans, hstep⟩
  · rw [hscans.invocationsFrom_eq_ok, (hscans.moved hplaced).invocationsFrom_eq_ok]
    rfl
  · have hopcode := hplaced.imp_right fun hfree => hfree _ _ _ _ hscans
    have hmoved := step_moved hopcode place rest
    rw [hstep] at hmoved
    rw [hscans.invocationsFrom_eq_error hstep,
      (hscans.moved hplaced).invocationsFrom_eq_error hmoved]
    rfl

-- Behind code that is accepted, more code is scanned as from its own start.
theorem invocations_append_eq {front : List UInt8} (hfront : invocations front = .ok indices)
    (back : List UInt8) (hplaced : front.length % 4 = 0 ∨ SwitchFree 0 back) :
    invocations (front ++ back) =
      ((invocations back).mapError (DecodeError.moved front.length)).map (indices ++ ·) := by
  have hscans := scans_of_invocationsFrom_eq_ok hfront
  obtain ⟨code, hcode, -, hlater⟩ := hscans.exists_front
  rw [List.append_nil] at hcode
  subst hcode
  have hmoved := invocationsFrom_moved 0 back hplaced
  rw [invocations, (hlater back).invocationsFrom_eq, hmoved]
  rfl

theorem invocations_error_cases {error : DecodeError} (h : invocations code = .error error) :
    ∃ pc, (∃ opcode, error = .unknownOpcode opcode pc) ∨ error = .truncatedCode pc := by
  obtain ⟨indices, place, opcode, rest, -, hstep⟩ := exists_scans_of_invocationsFrom_eq_error h
  have herror := step_eq_error hstep
  split at herror
  · exact ⟨place, .inl ⟨opcode, herror⟩⟩
  · exact ⟨place, .inr herror⟩

-- Method bodies can be put together. Behind a body that is accepted and whose length is a multiple of
-- four, any code is scanned as it is by itself: the constants of its calls come behind those of the
-- body, and an error stays of its kind, at the place where the instruction stands now. Where no scan
-- of the code comes to a switch, the length of the body does not matter.
theorem invocations_append {front : List UInt8} {named : List UInt16}
    (hfront : invocations front = .ok named) (back : List UInt8)
    (hplaced : front.length % 4 = 0 ∨
      ∀ pc opcode rest, Reaches back pc (opcode :: rest) → opcode ≠ 0xAA ∧ opcode ≠ 0xAB) :
    (∀ others, invocations back = .ok others →
      invocations (front ++ back) = .ok (named ++ others)) ∧
    ∀ error, invocations back = .error error → ∃ pc,
      (∃ opcode, error = .unknownOpcode opcode pc ∧
        invocations (front ++ back) = .error (.unknownOpcode opcode (pc + front.length))) ∨
      (error = .truncatedCode pc ∧
        invocations (front ++ back) = .error (.truncatedCode (pc + front.length))) := by
  have hfree : front.length % 4 = 0 ∨ SwitchFree 0 back :=
    hplaced.imp_right fun h _ _ _ _ hscans => h _ _ _ ⟨_, hscans⟩
  have happend := invocations_append_eq hfront back hfree
  constructor
  · intro others hback
    rw [happend, hback]
    rfl
  · intro error hback
    rw [hback] at happend
    obtain ⟨pc, ⟨opcode, rfl⟩ | rfl⟩ := invocations_error_cases hback
    · exact ⟨pc, .inl ⟨opcode, rfl, happend⟩⟩
    · exact ⟨pc, .inr ⟨rfl, happend⟩⟩

-- A call in front of another and of a switch, and a constant in front of code in which the opcode of a
-- switch is an operand only.
theorem invocations_append_operand :
    let call : List UInt8 := [0xB8, 0, 7, 0xB1]
    let switch : List UInt8 := [0xAB, 0, 0, 0, 0, 0, 0, 0, 0, 0, 0, 0, 0xCB]
    let push : List UInt8 := [0x10, 0xAA, 0xB8]
    invocations call = .ok [7] ∧ call.length % 4 = 0 ∧ invocations (call ++ call) = .ok [7, 7] ∧
      invocations switch = .error (.unknownOpcode 0xCB 12) ∧
      invocations (call ++ switch) = .error (.unknownOpcode 0xCB 16) ∧
      invocations [0x03] = .ok [] ∧ invocations push = .error (.truncatedCode 2) ∧
      invocations ([0x03] ++ push) = .error (.truncatedCode 3) := by
  intro call switch push
  have hcall : invocations call = .ok [7] := by decide +kernel
  have hswitch : invocations switch = .error (.unknownOpcode 0xCB 12) := by decide +kernel
  have hconstant : invocations [0x03] = .ok [] := by decide +kernel
  have hpush : invocations push = .error (.truncatedCode 2) := by decide +kernel
  have haligned : call.length % 4 = 0 := by decide
  have hfree : ∀ pc opcode rest, Reaches [0x10, 0xAA, 0xB8] pc (opcode :: rest) →
      opcode ≠ 0xAA ∧ opcode ≠ 0xAB := by
    rintro pc opcode rest ⟨indices, hscans⟩
    cases hscans with
    | refl => decide
    | cons hstep hlater =>
        have hfirst : step 0 0x10 [0xAA, 0xB8] = .ok ([0xAA], [0xB8]) := by decide +kernel
        rw [hfirst] at hstep
        cases hstep
        cases hlater with
        | refl => decide
        | cons hstep _ =>
            have hsecond : step 2 0xB8 [] = .error (.truncatedCode 2) := by decide +kernel
            cases hsecond.symm.trans hstep
  have hcalls := (invocations_append hcall call (.inl haligned)).1 _ hcall
  obtain ⟨pc, ⟨opcode, herror, hbehind⟩ | ⟨herror, -⟩⟩ :=
    (invocations_append hcall switch (.inl haligned)).2 _ hswitch
  · obtain ⟨rfl, rfl⟩ := DecodeError.unknownOpcode.inj herror
    obtain ⟨pc, ⟨_, herror, -⟩ | ⟨herror, hshort⟩⟩ :=
      (invocations_append hconstant push (.inr hfree)).2 _ hpush
    · cases herror
    · obtain rfl := DecodeError.truncatedCode.inj herror
      exact ⟨hcall, haligned, hcalls, hswitch, hbehind, hconstant, hpush, hshort⟩
  · cases herror

end Bytecode

end CallCensus
