import CallCensus.Proofs.ClassFile.Outcomes
import CallCensus.Proofs.ClassFile.PoolExtension

namespace CallCensus

open Read

namespace ClassFile

-- The constants of a string literal: its code units, and the string that points at them in the slot
-- with this index.
def literal (index : UInt16) (units : List UInt16) : List Constant :=
  [.utf8 (ModifiedUtf8.encodeUnits units), .plain 8 (Bytes.ofUInt16 index)]

-- A class file with one string literal more, behind all other constants.
def withLiteral (file : ClassFile) (units : List UInt16) : ClassFile :=
  { file with
    declared := file.declared + 2
    constants := file.constants ++ literal file.declared units }

-- What stands in front of the number of slots, and what stands behind the constants.
def beforePool (file : ClassFile) : List UInt8 := [0xCA, 0xFE, 0xBA, 0xBE] ++ Bytes.ofUInt32 file.version

def afterPool (file : ClassFile) : List UInt8 :=
  Bytes.ofUInt16 file.flags ++ Bytes.ofUInt16 file.thisClass ++
    Bytes.ofUInt16 file.superClass ++ tableBytes Bytes.ofUInt16 file.interfaces ++
    tableBytes ClassMember.bytes file.fields ++ tableBytes ClassMember.bytes file.methods ++
    tableBytes Attribute.bytes file.attributes

theorem bytes_eq (file : ClassFile) :
    file.bytes = file.beforePool ++ (Bytes.ofUInt16 file.declared ++
      (file.constants.flatMap Constant.bytes ++ file.afterPool)) := by
  simp only [bytes, beforePool, afterPool, List.append_assoc]

theorem bytes_withLiteral (file : ClassFile) (units : List UInt16) :
    (file.withLiteral units).bytes = file.beforePool ++ (Bytes.ofUInt16 (file.declared + 2) ++
      (file.constants.flatMap Constant.bytes ++
        ((literal file.declared units).flatMap Constant.bytes ++ file.afterPool))) := by
  rw [bytes_eq, withLiteral, List.flatMap_append, List.append_assoc]
  rfl

theorem slotCount_append (front back : List Constant) :
    slotCount (front ++ back) = slotCount front + slotCount back := by
  induction front with
  | nil => exact (Nat.zero_add _).symm
  | cons constant front ih =>
      rw [List.cons_append]
      simp only [slotCount, List.foldr_cons] at ih ⊢
      rw [ih, Nat.add_assoc]

theorem toNat_declared_withLiteral {file : ClassFile} (hcount : file.declared.toNat ≤ 65533)
    (units : List UInt16) : (file.withLiteral units).declared.toNat = file.declared.toNat + 2 := by
  have hsum := UInt16.toNat_add file.declared 2
  have htwo : (2 : UInt16).toNat = 2 := rfl
  rw [htwo] at hsum
  show (file.declared + 2).toNat = _
  omega

section Literal

variable {file : ClassFile} {units : List UInt16}

theorem wellFormed_withLiteral (hwell : file.WellFormed) (hcount : file.declared.toNat ≤ 65533)
    (hends : 1 + slotCount file.constants ≤ file.declared.toNat)
    (hfits : (ModifiedUtf8.encodeUnits units).length < 0x10000) :
    (file.withLiteral units).WellFormed := by
  obtain ⟨hconstants, hfills, hparts⟩ := hwell
  refine ⟨?_, ?_, hparts⟩
  · intro constant hconstant
    obtain hold | hnew := List.mem_append.mp hconstant
    · exact hconstants constant hold
    · obtain rfl | rfl : constant = .utf8 (ModifiedUtf8.encodeUnits units) ∨
          constant = .plain 8 (Bytes.ofUInt16 file.declared) := by
        simpa [literal] using hnew
      · exact hfits
      · rfl
  · have hlast : (file.withLiteral units).constants.dropLast =
        file.constants ++ [.utf8 (ModifiedUtf8.encodeUnits units)] := by
      rw [withLiteral, literal, List.dropLast_append_cons]
      rfl
    have hall : slotCount (file.withLiteral units).constants = slotCount file.constants + 2 :=
      slotCount_append ..
    have hfront : slotCount (file.withLiteral units).constants.dropLast =
        slotCount file.constants + 1 := by
      rw [hlast]
      exact slotCount_append ..
    have hdeclared := hfills.1
    rw [Fills, toNat_declared_withLiteral hcount, hall, hfront]
    omega

-- What a class file denotes does not change, since all that was looked up stays where it is.
theorem Denotes.withLiteral {decoded : DecodedClass} (h : file.Denotes decoded)
    (hcount : file.declared.toNat ≤ 65533)
    (hends : 1 + slotCount file.constants ≤ file.declared.toNat)
    (hfits : (ModifiedUtf8.encodeUnits units).length < 0x10000) (hpaired : Utf16.Paired units) :
    (file.withLiteral units).Denotes decoded := by
  obtain ⟨pool, name, instructions, owners, hresolves, howners, rfl⟩ := h
  obtain ⟨text, rfl⟩ := Utf16.paired_iff_exists_text.mp hpaired
  have hliteral : Gathers Constant.Keeps (literal file.declared (Utf16.encode text))
      [.utf8 (String.ofList text), .other] := by
    refine ⟨[[.utf8 (String.ofList text)], [.other]], .cons ⟨String.ofList text, ?_, rfl⟩ ?_, rfl⟩
    · rw [String.toList_ofList]
      rfl
    · exact .cons rfl .nil
  obtain ⟨more, hmore, hextends⟩ := hresolves.hasPool.extend hliteral
  refine ⟨more, name, instructions, owners, ⟨?_, hmore, ?_, ?_, ?_⟩, ?_, rfl⟩
  · exact wellFormed_withLiteral hresolves.wellFormed hcount hends hfits
  · exact hextends.isClass hresolves.named
  · exact hextends.yields hresolves.yields
  · intro index hindex
    obtain ⟨owner, howner⟩ := hresolves.owned index hindex
    exact ⟨owner, hextends.isOwner howner⟩
  · exact howners.imp fun _ _ => hextends.isOwner

end Literal

end ClassFile

namespace ConstantPool

theorem slotsFrom_literal {units : List UInt16} (hunpaired : ¬ Utf16.Paired units) (index : UInt16) :
    slotsFrom index.toNat (ClassFile.literal index units) = .error (.invalidUtf8 index) := by
  have hspelled : ModifiedUtf8.decode? (ModifiedUtf8.encodeUnits units) = none := by
    rw [ModifiedUtf8.decode?_encodeUnits, Utf16.decode?_eq_none_iff]
    exact hunpaired
  rw [ClassFile.literal, slotsFrom, Constant.slot, hspelled, Nat.toUInt16_eq, UInt16.ofNat_toNat]
  rfl

end ConstantPool

namespace DecodedClass

-- What an accepted file is read as is what a file denotes that has the same constants, and the same
-- bytes in front of them and behind them.
theorem exists_denoting_of_ofBytes {file : ClassFile} {decoded : DecodedClass}
    (hwell : file.WellFormed) (h : ofBytes file.bytes = .ok decoded) :
    ∃ found : ClassFile, found.Denotes decoded ∧ found.beforePool = file.beforePool ∧
      found.declared = file.declared ∧ found.constants = file.constants ∧
      found.afterPool = file.afterPool := by
  obtain ⟨found, hbytes, hdenotes⟩ := exists_file_of_ofBytes h
  have ⟨_, _, _, _, hresolves, _, _⟩ := hdenotes
  obtain ⟨hconstants, hfills, -⟩ := hwell
  obtain ⟨hconstants', hfills', -⟩ := hresolves.wellFormed
  have hlength : found.beforePool.length = file.beforePool.length := by simp [ClassFile.beforePool]
  rw [ClassFile.bytes_eq, ClassFile.bytes_eq] at hbytes
  obtain ⟨hbefore, hbytes⟩ := List.append_inj hbytes hlength
  obtain ⟨hdeclared, hbytes⟩ := Bytes.ofUInt16_append_inj hbytes
  rw [ClassFile.Fills, ← ConstantPool.fillsFrom_iff] at hfills hfills'
  rw [hdeclared] at hfills'
  obtain ⟨hpool, hafter⟩ :=
    ConstantPool.constants_append_inj hfills' hfills hconstants' hconstants hbytes
  exact ⟨found, hdenotes, hbefore, hdeclared, hpool, hafter⟩

section Literal

variable {file : ClassFile} {decoded : DecodedClass} {units : List UInt16}

theorem ofBytes_of_unpaired (h : file.Denotes decoded) (hcount : file.declared.toNat ≤ 65533)
    (hends : 1 + ClassFile.slotCount file.constants ≤ file.declared.toNat)
    (hfits : (ModifiedUtf8.encodeUnits units).length < 0x10000) (hunpaired : ¬ Utf16.Paired units) :
    ofBytes (file.withLiteral units).bytes = .error (.invalidUtf8 file.declared) := by
  obtain ⟨_, _, _, _, hresolves, -, -⟩ := h
  have hwell := ClassFile.wellFormed_withLiteral hresolves.wellFormed hcount hends hfits
  obtain ⟨-, ⟨hfills, -⟩, -⟩ := hresolves.wellFormed
  obtain ⟨slots, hslots, -⟩ := hresolves.hasPool
  have hfilled : 1 + ClassFile.slotCount file.constants = file.declared.toNat := by omega
  have hpool : ConstantPool.ofConstants (file.withLiteral units).constants =
      .error (.invalidUtf8 file.declared) := by
    rw [ConstantPool.ofConstants, ClassFile.withLiteral, ConstantPool.slotsFrom_append,
      ConstantPool.slotsFrom_eq_ok_iff.mpr hslots, hfilled]
    simp only [bind, Except.bind, ConstantPool.slotsFrom_literal hunpaired]
  rw [ofBytes_bytes_eq_outcome hwell, ClassFile.outcome, hpool]
  rfl

-- A string literal more in the constants does not matter as far as it is the form of a text. Where
-- one of its surrogates has no partner, the class is refused, and the error points at the literal.
theorem ofBytes_withLiteral (hwell : file.WellFormed) (h : ofBytes file.bytes = .ok decoded)
    (hcount : file.declared.toNat ≤ 65533)
    (hends : 1 + ClassFile.slotCount file.constants ≤ file.declared.toNat)
    (hfits : (ModifiedUtf8.encodeUnits units).length < 0x10000) :
    (Utf16.Paired units → ofBytes (file.withLiteral units).bytes = .ok decoded) ∧
    (¬ Utf16.Paired units →
      ofBytes (file.withLiteral units).bytes = .error (.invalidUtf8 file.declared)) := by
  obtain ⟨found, hdenotes, hbefore, hdeclared, hconstants, hafter⟩ :=
    exists_denoting_of_ofBytes hwell h
  have hbytes : (file.withLiteral units).bytes = (found.withLiteral units).bytes := by
    rw [ClassFile.bytes_withLiteral, ClassFile.bytes_withLiteral, hbefore, hdeclared, hconstants,
      hafter]
  rw [← hdeclared] at hcount hends ⊢
  rw [← hconstants] at hends
  rw [hbytes]
  constructor
  · intro hpaired
    exact ofBytes_bytes (hdenotes.withLiteral hcount hends hfits hpaired)
  · intro hunpaired
    exact ofBytes_of_unpaired hdenotes hcount hends hfits hunpaired

end Literal

section Bare

-- The class `A`, which has no members.
def bareFile : ClassFile where
  version := 52
  declared := 3
  constants := [.utf8 [0x41], .classRef 1]
  flags := 0
  thisClass := 2
  superClass := 0
  interfaces := []
  fields := []
  methods := []
  attributes := []

theorem wellFormed_bareFile : bareFile.WellFormed := by
  simp [ClassFile.WellFormed, ClassFile.Fills, ClassFile.slotCount, Constant.WellFormed,
    Constant.width, bareFile]

-- The literal is a letter and a character outside the basic plane.
theorem ofBytes_withLiteral_pair :
    let units : List UInt16 := [0x61, 0xD83D, 0xDE00]
    bareFile.WellFormed ∧ ofBytes bareFile.bytes = .ok ⟨"A", []⟩ ∧
      bareFile.declared.toNat ≤ 65533 ∧
      1 + ClassFile.slotCount bareFile.constants ≤ bareFile.declared.toNat ∧
      (ModifiedUtf8.encodeUnits units).length < 0x10000 ∧ Utf16.Paired units ∧
      ofBytes (bareFile.withLiteral units).bytes = .ok ⟨"A", []⟩ := by
  intro units
  have haccepted : ofBytes bareFile.bytes = .ok ⟨"A", []⟩ := by decide +kernel
  have hcount : bareFile.declared.toNat ≤ 65533 := by decide
  have hends : 1 + ClassFile.slotCount bareFile.constants ≤ bareFile.declared.toNat := by decide
  have hfits : (ModifiedUtf8.encodeUnits units).length < 0x10000 := by decide
  have hpaired : Utf16.Paired units :=
    .single (by decide) (by decide) (.pair (by decide) (by decide) .nil)
  have hliteral := ofBytes_withLiteral wellFormed_bareFile haccepted hcount hends hfits
  exact ⟨wellFormed_bareFile, haccepted, hcount, hends, hfits, hpaired, hliteral.1 hpaired⟩

-- A high surrogate alone is a literal that the class is refused for.
theorem ofBytes_withLiteral_unpaired :
    let units : List UInt16 := [0xD800]
    bareFile.WellFormed ∧ ofBytes bareFile.bytes = .ok ⟨"A", []⟩ ∧
      bareFile.declared.toNat ≤ 65533 ∧
      1 + ClassFile.slotCount bareFile.constants ≤ bareFile.declared.toNat ∧
      (ModifiedUtf8.encodeUnits units).length < 0x10000 ∧
      ofBytes (bareFile.withLiteral units).bytes = .error (.invalidUtf8 3) ∧
      ofBytes (bareFile.withLiteral units).bytes ≠ ofBytes bareFile.bytes := by
  intro units
  have haccepted : ofBytes bareFile.bytes = .ok ⟨"A", []⟩ := by decide +kernel
  have hrefused : ofBytes (bareFile.withLiteral units).bytes = .error (.invalidUtf8 3) := by
    decide +kernel
  refine ⟨wellFormed_bareFile, haccepted, by decide, by decide, by decide, hrefused, ?_⟩
  rw [hrefused, haccepted]
  simp

end Bare

end DecodedClass

end CallCensus
