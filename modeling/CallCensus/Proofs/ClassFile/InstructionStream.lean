import CallCensus.Proofs.ClassFile.Bodies

namespace CallCensus.Bytecode

namespace Instruction

-- The shape that the opcode of an instruction tells.
def shape : Instruction → Shape
  | .plain _ operands => .fixed operands.length
  | .tableSwitch .. => .tableSwitch
  | .lookupSwitch .. => .lookupSwitch
  | .wide .. => .wide

theorem shape?_of_fitsAt {pc : Nat} {instruction : Instruction} {opcode : UInt8}
    {operands : List UInt8} (hfits : instruction.FitsAt pc)
    (hbytes : instruction.bytes = opcode :: operands) : shape? opcode = some instruction.shape := by
  cases instruction with
  | plain opcode operands =>
      obtain ⟨rfl, rfl⟩ := List.cons.inj hbytes
      exact shape?_eq_fixed_iff.mpr hfits
  | tableSwitch filler fallback low high targets =>
      obtain ⟨rfl, -⟩ := List.cons.inj hbytes
      exact shape?_tableSwitch
  | lookupSwitch filler fallback pairs =>
      obtain ⟨rfl, -⟩ := List.cons.inj hbytes
      exact shape?_lookupSwitch
  | wide modified operands =>
      obtain ⟨rfl, -⟩ := List.cons.inj hbytes
      exact shape?_wide

theorem shape_eq_of_bytes_eq {pc : Nat} {first second : Instruction} (hfirst : first.FitsAt pc)
    (hsecond : second.FitsAt pc) (h : first.bytes = second.bytes) : first.shape = second.shape := by
  obtain ⟨opcode, operands, hbytes⟩ := first.exists_bytes_eq_cons
  have hshape := shape?_of_fitsAt hfirst hbytes
  rw [shape?_of_fitsAt hsecond (h.symm.trans hbytes)] at hshape
  exact (Option.some.inj hshape).symm

-- The fields that both kinds of switch start with are told apart by their sizes.
theorem switchFields_inj {pc : Nat} {filler other : List UInt8} (hfiller : Pads pc filler)
    (hother : Pads pc other) {fallback default : UInt32} {rest fields : List UInt8}
    (h : filler ++ (Bytes.ofUInt32 fallback ++ rest) = other ++ (Bytes.ofUInt32 default ++ fields)) :
    filler = other ∧ fallback = default ∧ rest = fields := by
  have hlength : filler.length = other.length := by
    rw [← padding_eq_length hfiller, ← padding_eq_length hother]
  obtain ⟨hpadding, hrest⟩ := List.append_inj h hlength
  obtain ⟨hword, hfields⟩ := Bytes.ofUInt32_append_inj hrest
  exact ⟨hpadding, hword, hfields⟩

-- Two instructions that fit at one place of a method are written in different ways.
theorem eq_of_bytes_eq {pc : Nat} {first second : Instruction} (hfirst : first.FitsAt pc)
    (hsecond : second.FitsAt pc) (h : first.bytes = second.bytes) : first = second := by
  have hshape := shape_eq_of_bytes_eq hfirst hsecond h
  cases first with
  | plain opcode operands =>
      cases second with
      | plain opcode' operands' =>
          obtain ⟨rfl, rfl⟩ := List.cons.inj h
          rfl
      | tableSwitch | lookupSwitch | wide => cases hshape
  | tableSwitch filler fallback low high targets =>
      cases second with
      | tableSwitch filler' fallback' low' high' targets' =>
          rw [bytes_tableSwitch, bytes_tableSwitch] at h
          obtain ⟨hfiller, hfallback, hfields⟩ :=
            switchFields_inj hfirst.1 hsecond.1 (List.cons.inj h).2
          obtain ⟨hlow, hfields⟩ := Bytes.ofUInt32_append_inj hfields
          obtain ⟨hhigh, hfields⟩ := Bytes.ofUInt32_append_inj hfields
          have htargets := Bytes.flatMap_encode_inj Bytes.length_ofUInt32 (by decide)
            (fun _ _ => Bytes.ofUInt32_inj) hfields
          rw [hfiller, hfallback, hlow, hhigh, htargets]
      | plain | lookupSwitch | wide => cases hshape
  | lookupSwitch filler fallback pairs =>
      cases second with
      | lookupSwitch filler' fallback' pairs' =>
          rw [bytes_lookupSwitch, bytes_lookupSwitch] at h
          obtain ⟨hfiller, hfallback, hfields⟩ :=
            switchFields_inj hfirst.1 hsecond.1 (List.cons.inj h).2
          have hcount : (Bytes.toBigEndian 4 pairs.length).length =
              (Bytes.toBigEndian 4 pairs'.length).length := by
            rw [Bytes.length_toBigEndian, Bytes.length_toBigEndian]
          have hentries := (List.append_inj hfields hcount).2
          have hpairs := Bytes.flatMap_encode_inj length_pairBytes (by decide)
            (fun _ _ => pairBytes_inj) hentries
          rw [hfiller, hfallback, hpairs]
      | plain | tableSwitch | wide => cases hshape
  | wide modified operands =>
      cases second with
      | wide modified' operands' =>
          obtain ⟨rfl, rfl⟩ := List.cons.inj (List.cons.inj h).2
          rfl
      | plain | tableSwitch | lookupSwitch => cases hshape

-- The end of an instruction is found from its front, so none is the beginning of another.
theorem eq_of_bytes_append_eq {pc : Nat} {first second : Instruction} {after following : List UInt8}
    (hfirst : first.FitsAt pc) (hsecond : second.FitsAt pc)
    (h : first.bytes ++ after = second.bytes ++ following) : first = second ∧ after = following := by
  obtain ⟨opcode, operands, hbytes⟩ := first.exists_bytes_eq_cons
  obtain ⟨opcode', operands', hbytes'⟩ := second.exists_bytes_eq_cons
  rw [hbytes, hbytes', List.cons_append, List.cons_append] at h
  obtain ⟨rfl, hrest⟩ := List.cons.inj h
  have hsize := operandLength_of_fitsAt hfirst hbytes after
  rw [hrest, operandLength_of_fitsAt hsecond hbytes' following] at hsize
  have hlength : operands.length = operands'.length := (Except.ok.inj hsize).symm
  obtain ⟨hoperands, hafter⟩ := List.append_inj hrest hlength
  have hsame : first.bytes = second.bytes := by rw [hbytes, hbytes', hoperands]
  exact ⟨eq_of_bytes_eq hfirst hsecond hsame, hafter⟩

theorem assemble_inj {pc : Nat} {instructions others : List Instruction}
    (hinstructions : FitFrom pc instructions) (hothers : FitFrom pc others)
    (h : assemble instructions = assemble others) : instructions = others := by
  induction instructions generalizing pc others with
  | nil =>
      cases others with
      | nil => rfl
      | cons other others =>
          obtain ⟨opcode, operands, hbytes⟩ := other.exists_bytes_eq_cons
          rw [assemble, assemble, List.flatMap_cons, hbytes] at h
          cases h
  | cons instruction rest ih =>
      cases others with
      | nil =>
          obtain ⟨opcode, operands, hbytes⟩ := instruction.exists_bytes_eq_cons
          rw [assemble, assemble, List.flatMap_cons, hbytes] at h
          cases h
      | cons other others =>
          obtain ⟨hfits, hrest⟩ := hinstructions
          obtain ⟨hfits', hothers⟩ := hothers
          rw [assemble, assemble, List.flatMap_cons, List.flatMap_cons] at h
          obtain ⟨hfirst, hafter⟩ := eq_of_bytes_append_eq hfits hfits' h
          subst hfirst
          rw [ih hrest hothers hafter]

end Instruction

-- A method body is accepted if and only if it is a sequence of instructions from its first byte to
-- its last, and then it is so in one way only, and the constants of its calls are told in order.
theorem invocations_eq_ok_iff_unique (code : List UInt8) :
    (∀ indices, invocations code = .ok indices ↔ ∃ instructions,
      Instruction.FitFrom 0 instructions ∧ code = Instruction.assemble instructions ∧
        indices = Instruction.references instructions) ∧
    ∀ instructions others,
      Instruction.FitFrom 0 instructions ∧ code = Instruction.assemble instructions →
      Instruction.FitFrom 0 others ∧ code = Instruction.assemble others → instructions = others := by
  constructor
  · intro indices
    rw [invocations, invocationsFrom_eq_ok_iff]
  · intro instructions others hinstructions hothers
    have hsame := hinstructions.2.symm.trans hothers.2
    exact Instruction.assemble_inj hinstructions.1 hothers.1 hsame

end CallCensus.Bytecode
