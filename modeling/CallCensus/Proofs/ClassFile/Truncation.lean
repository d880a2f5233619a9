import CallCensus.Proofs.ClassFile.Grammar
import CallCensus.Proofs.ClassFile.Incremental

namespace CallCensus

open Read

namespace ConstantPool

theorem text_definite (pool : ConstantPool) (index : UInt16) :
    Fails DecodeError.Definite (pool.text index) := by
  unfold text
  split
  · exact fails_ok _
  · exact fails_error trivial

theorem className_definite (pool : ConstantPool) (index : UInt16) :
    Fails DecodeError.Definite (pool.className index) := by
  unfold className
  split
  · exact text_definite pool _
  · exact fails_error trivial

theorem methodOwner_definite (pool : ConstantPool) (index : UInt16) :
    Fails DecodeError.Definite (pool.methodOwner index) := by
  unfold methodOwner
  split
  · exact className_definite pool _
  · exact fails_error trivial

end ConstantPool

namespace Bytecode

theorem operandLength_definite (pc : Nat) (opcode : UInt8) (rest : List UInt8) :
    Fails DecodeError.Definite (operandLength pc opcode rest) := by
  unfold operandLength
  split
  · exact fails_error trivial
  · exact fails_ok _
  · split
    · exact (fails_error trivial).ite (fails_ok _)
    · exact fails_error trivial
  · split
    · exact (fails_error trivial).ite (fails_ok _)
    · exact fails_error trivial
  · split
    · exact fails_error trivial
    · exact fails_ok _

theorem invocationsFrom_definite (pc : Nat) (code : List UInt8) :
    Fails DecodeError.Definite (invocationsFrom pc code) := by
  induction pc, code using invocationsFrom.induct with
  | case1 pc =>
      rw [invocationsFrom_nil]
      exact fails_ok []
  | case2 pc opcode rest error hsize =>
      have hdefinite := operandLength_definite pc opcode rest
      rw [invocationsFrom_cons]
      rw [hsize] at hdefinite ⊢
      exact fails_error (hdefinite error rfl)
  | case3 pc opcode rest size hsize missing hcut =>
      rw [invocationsFrom_cons, hsize]
      simp only [hcut]
      exact fails_error trivial
  | case4 pc opcode rest size hsize operands following hcut ih =>
      rw [invocationsFrom_cons, hsize]
      simp only [hcut]
      exact ih.map _

theorem invocations_definite (code : List UInt8) : Fails DecodeError.Definite (invocations code) :=
  invocationsFrom_definite 0 code

end Bytecode

section Readers

variable {Short : List UInt8 → Nat → Nat → Prop}

namespace ConstantPool

theorem composed_readSlot (tag : UInt8) (index : UInt16) : Composed Short (readSlot tag index) := by
  unfold readSlot
  split
  · refine composed_u16.bind fun length => (Composed.bytes length.toNat).bind fun spelled => ?_
    cases ModifiedUtf8.decode? spelled with
    | none => exact composed_throw trivial
    | some text => exact .pure _
  · exact composed_u16.bind fun name => .pure _
  · exact composed_u16.bind fun owner => (composed_skip 2).bind fun _ => .pure _
  · exact composed_u16.bind fun owner => (composed_skip 2).bind fun _ => .pure _
  · split
    · exact (composed_skip _).bind fun _ => .pure _
    · exact composed_throw trivial

theorem composed_readSlots (count filled : Nat) : Composed Short (readSlots count filled) := by
  induction filled using readSlots.induct count with
  | case1 filled hlt ihwide ihnarrow =>
      rw [readSlots, if_pos hlt]
      refine composed_u8.bind fun tag => (composed_readSlot tag filled.toUInt16).bind fun slot => ?_
      have hwide := ihwide.bind fun others => .pure (slot :: .unusable :: others)
      have hnarrow := ihnarrow.bind fun others => .pure (slot :: others)
      exact hwide.ite hnarrow
  | case2 filled hnlt =>
      rw [readSlots, if_neg hnlt]
      exact .pure []

theorem composed_read : Composed Short ConstantPool.read :=
  composed_u16.bind fun count => (composed_readSlots count.toNat 1).bind fun _ => .pure _

end ConstantPool

namespace DecodedClass

theorem composed_skipAttributes : Composed Short skipAttributes := by
  have hattribute : Composed Short skipAttribute :=
    (composed_skip 2).bind fun _ => composed_sized.bind fun _ => .pure ()
  exact hattribute.table.bind fun _ => .pure ()

theorem composed_readField : Composed Short readField :=
  (composed_skip 6).bind fun _ => composed_skipAttributes

theorem composed_readMark : Composed Short readMark :=
  composed_u32.bind fun _ => (Composed.pure ()).ite (composed_throw trivial)

theorem composed_readName (pool : ConstantPool) : Composed Short (readName pool) :=
  (composed_skip 2).bind fun _ => composed_u16.bind fun index =>
    (Composed.ofExcept (pool.className_definite index)).bind fun _ =>
      (composed_skip 2).bind fun _ => .pure _

theorem composed_skipInterfaces : Composed Short skipInterfaces :=
  composed_u16.bind fun count => composed_skip (count.toNat * 2)

end DecodedClass

end Readers

namespace DecodedClass

-- The body of a `Code` attribute ends before what it says of itself does.
def CutShort (body : List UInt8) (offset needed : Nat) : Prop :=
  code.all body = .error (.truncated offset needed)

-- Three reads can run into the end of a body: of the limits, of the length, and of the instructions.
theorem code_all (body : List UInt8) : code.all body =
    match Bytes.cut 4 body with
    | .error missing => .error (.truncated 0 missing)
    | .ok (_, rest) =>
      match Bytes.cut 4 rest with
      | .error missing => .error (.truncated 4 missing)
      | .ok (length, rest) =>
        match Bytes.cut (Bytes.bigEndian length).toUInt32.toNat rest with
        | .error missing => .error (.truncated 8 missing)
        | .ok (instructions, _) => .ok instructions := by
  rw [Read.all, code, startingAt_bind, skip, startingAt_map_bytes, Cursor.ofBytes]
  cases Bytes.cut 4 body with
  | error missing => rfl
  | ok parts =>
      simp only
      rw [sized, startingAt_bind, u32, startingAt_map_bytes]
      cases Bytes.cut 4 parts.2 with
      | error missing => rfl
      | ok following =>
          simp only
          rw [startingAt_bytes]
          cases Bytes.cut (Bytes.bigEndian following.1).toUInt32.toNat following.2 <;> rfl

-- Something is missing, at a place in the body, and at one of the first in it.
theorem CutShort.bounds {body : List UInt8} {offset needed : Nat} (h : CutShort body offset needed) :
    offset ≤ body.length ∧ offset ≤ 8 ∧ 1 ≤ needed := by
  rw [CutShort, code_all] at h
  split at h
  · rename_i missing hlimits
    obtain ⟨rfl, rfl⟩ := DecodeError.truncated.inj (Except.error.inj h)
    have hmissing := Bytes.cut_eq_error.mp hlimits
    omega
  · rename_i limits rest hlimits
    obtain ⟨rfl, hfour⟩ := Bytes.append_eq_of_cut hlimits
    rw [List.length_append]
    split at h
    · rename_i missing hlength
      obtain ⟨rfl, rfl⟩ := DecodeError.truncated.inj (Except.error.inj h)
      have hmissing := Bytes.cut_eq_error.mp hlength
      omega
    · rename_i length rest hlength
      obtain ⟨rfl, height⟩ := Bytes.append_eq_of_cut hlength
      rw [List.length_append]
      split at h
      · rename_i missing hinstructions
        obtain ⟨rfl, rfl⟩ := DecodeError.truncated.inj (Except.error.inj h)
        have hmissing := Bytes.cut_eq_error.mp hinstructions
        omega
      · cases h

theorem exists_cutShort {body : List UInt8} {error : DecodeError} (h : code.all body = .error error) :
    ∃ offset needed, error = .truncated offset needed ∧ CutShort body offset needed := by
  have htruncated : ∃ offset needed, error = .truncated offset needed := by
    rw [code_all] at h
    split at h
    · exact ⟨_, _, (Except.error.inj h).symm⟩
    · split at h
      · exact ⟨_, _, (Except.error.inj h).symm⟩
      · split at h
        · exact ⟨_, _, (Except.error.inj h).symm⟩
        · cases h
  obtain ⟨offset, needed, rfl⟩ := htruncated
  exact ⟨offset, needed, rfl, h⟩

theorem owners_fails (pool : ConstantPool) (body : List UInt8) :
    Fails (fun error => error.Definite ∨
      ∃ offset needed, error = .truncated offset needed ∧ CutShort body offset needed)
      (owners pool body) := by
  unfold owners
  cases hcode : code.all body with
  | error error => exact fails_error (.inr (exists_cutShort hcode))
  | ok instructions =>
      refine Fails.mono ?_ fun error hdefinite => .inl hdefinite
      exact (Bytecode.invocations_definite instructions).bind fun indices =>
        fails_mapM (fun index => (pool.methodOwner_definite index).bind fun _ => fails_ok _) indices

-- What comes of the body of an attribute, which depends on the name of the attribute.
def scanAttribute (pool : ConstantPool) (name : UInt16) (body : List UInt8) :
    Except DecodeError (List String) := do
  if (← pool.text name) = "Code" then owners pool body else return []

theorem readMethodAttribute_eq (pool : ConstantPool) :
    readMethodAttribute pool = (do
      let name ← u16
      Read.ofExcept (scanAttribute pool name (← sized))) := by
  unfold readMethodAttribute scanAttribute
  congr 1
  funext name
  congr 1
  funext body
  cases pool.text name with
  | error error => rfl
  | ok text =>
      show (if text = "Code" then _ else _) = Read.ofExcept (if text = "Code" then _ else _)
      split <;> rfl

theorem scanAttribute_fails (pool : ConstantPool) (name : UInt16) (body : List UInt8) :
    Fails (fun error => error.Definite ∨
      ∃ offset needed, error = .truncated offset needed ∧ CutShort body offset needed)
      (scanAttribute pool name body) :=
  ((pool.text_definite name).mono fun _ hdefinite => .inl hdefinite).bind fun _ =>
    (owners_fails pool body).ite (fails_ok [])

theorem composed_readMethodAttribute (pool : ConstantPool) :
    Composed CutShort (readMethodAttribute pool) := by
  rw [readMethodAttribute_eq]
  exact composed_u16.bind fun name => .part (scanAttribute_fails pool name)

theorem composed_readMethod (pool : ConstantPool) : Composed CutShort (readMethod pool) :=
  (composed_skip 6).bind fun _ => (composed_readMethodAttribute pool).table.bind fun _ => .pure _

theorem composed_read : Composed CutShort read :=
  composed_readMark.bind fun _ => (composed_skip 4).bind fun _ =>
    ConstantPool.composed_read.bind fun pool => (composed_readName pool).bind fun _ =>
      composed_skipInterfaces.bind fun _ => composed_readField.table.bind fun _ =>
        (composed_readMethod pool).table.bind fun _ =>
          composed_skipAttributes.bind fun _ => .pure _

theorem incremental_read : Incremental read :=
  composed_read.incremental fun _ _ _ hcut => hcut.bounds.1

-- An accepted class file is read up to its end.
theorem startingAt_of_ofBytes {bytes : List UInt8} {decoded : DecodedClass}
    (h : ofBytes bytes = .ok decoded) :
    read.startingAt ⟨0, bytes⟩ = (.ok decoded, ⟨bytes.length, []⟩) := by
  obtain ⟨position, hrun⟩ := ofBytes_eq_ok_iff_startingAt.mp h
  rw [Cursor.ofBytes] at hrun
  have htotal := incremental_read.total ⟨0, bytes⟩
  rw [hrun] at htotal
  simp only [List.length_nil, Nat.add_zero, Nat.zero_add] at htotal
  rw [hrun, htotal]

theorem ofBytes_of_startingAt {bytes : List UInt8} {error : DecodeError} {cursor : Cursor}
    (h : read.startingAt ⟨0, bytes⟩ = (.error error, cursor)) : ofBytes bytes = .error error := by
  unfold ofBytes Cursor.ofBytes
  rw [h]

theorem ofBytes_cut {front back : List UInt8} {decoded : DecodedClass}
    (h : ofBytes (front ++ back) = .ok decoded) (hback : back ≠ []) :
    ∃ offset needed, ofBytes front = .error (.truncated offset needed) ∧ offset ≤ front.length ∧
      1 ≤ needed ∧ needed ≤ back.length := by
  have hlater := incremental_read.later 0 front back
  have htotal := incremental_read.total ⟨0, front⟩
  rw [startingAt_of_ofBytes h] at hlater
  generalize hrun : read.startingAt ⟨0, front⟩ = before at hlater htotal
  generalize hafter : (Except.ok decoded, Cursor.mk (front ++ back).length []) = after at hlater
  cases hlater with
  | settled result position rest =>
      have hrest := congrArg (fun run => run.2.rest) hafter
      exact absurd (List.append_eq_nil_iff.mp hrest.symm).2 hback
  | @wanting position needed rest _ hneeded hshort henough =>
      have hle : needed ≤ back.length := by
        by_contra hlt
        cases hafter.trans (hshort (Nat.not_le.mp hlt))
      refine ⟨position, needed, ofBytes_of_startingAt hrun, ?_, hneeded, hle⟩
      simp only [Nat.zero_add] at htotal
      omega

theorem ofBytes_append {bytes suffix : List UInt8} {decoded : DecodedClass}
    (h : ofBytes bytes = .ok decoded) (hsuffix : suffix ≠ []) :
    ofBytes (bytes ++ suffix) = .error (.trailingBytes bytes.length suffix.length) := by
  have hlater := incremental_read.later 0 bytes suffix
  rw [startingAt_of_ofBytes h] at hlater
  generalize hrun : read.startingAt ⟨0, bytes ++ suffix⟩ = after at hlater
  cases hlater
  unfold ofBytes Cursor.ofBytes
  rw [hrun]
  simp only [List.nil_append, if_neg hsuffix]
  rfl

-- No accepted class file is the beginning of another. Where one is cut, the missing bytes are named,
-- and never more of them than there are; where bytes follow it, these are named.
theorem ofBytes_prefix_free {bytes : List UInt8} {decoded : DecodedClass}
    (h : ofBytes bytes = .ok decoded) :
    (∀ cut < bytes.length, ∃ offset needed,
      ofBytes (bytes.take cut) = .error (.truncated offset needed) ∧ offset ≤ cut ∧ 1 ≤ needed ∧
        cut + needed ≤ bytes.length) ∧
    ∀ suffix, suffix ≠ [] →
      ofBytes (bytes ++ suffix) = .error (.trailingBytes bytes.length suffix.length) := by
  constructor
  · intro cut hcut
    have hfront : (bytes.take cut).length = cut := by
      rw [List.length_take]
      omega
    have hback : bytes.drop cut ≠ [] := by
      rw [ne_eq, List.drop_eq_nil_iff]
      omega
    rw [← List.take_append_drop cut bytes] at h
    obtain ⟨offset, needed, herror, hoffset, hneeded, hle⟩ := ofBytes_cut h hback
    rw [List.length_drop] at hle
    exact ⟨offset, needed, herror, by omega, hneeded, by omega⟩
  · intro suffix hsuffix
    exact ofBytes_append h hsuffix

-- The class `A` with a method that calls one of its own.
theorem ofBytes_prefix_free_caller :
    let bytes : List UInt8 := [0xCA, 0xFE, 0xBA, 0xBE, 0, 0, 0, 52, 0, 5, 1, 0, 1, 0x41, 7, 0, 1,
      10, 0, 2, 0, 0, 1, 0, 4, 0x43, 0x6F, 0x64, 0x65, 0, 0, 0, 2, 0, 0, 0, 0, 0, 0, 0, 1, 0, 0, 0, 0,
      0, 0, 0, 1, 0, 4, 0, 0, 0, 12, 0, 0, 0, 0, 0, 0, 0, 4, 0xB8, 0, 3, 0xB1, 0, 0]
    ofBytes bytes = .ok ⟨"A", ["A"]⟩ ∧
      (∀ cut < bytes.length, ∃ offset needed,
        ofBytes (bytes.take cut) = .error (.truncated offset needed) ∧ offset ≤ cut ∧ 1 ≤ needed ∧
          cut + needed ≤ bytes.length) ∧
      ∀ suffix, suffix ≠ [] →
        ofBytes (bytes ++ suffix) = .error (.trailingBytes bytes.length suffix.length) := by
  intro bytes
  have h : ofBytes bytes = .ok ⟨"A", ["A"]⟩ := by decide +kernel
  exact ⟨h, ofBytes_prefix_free h⟩

end DecodedClass

end CallCensus
