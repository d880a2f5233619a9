import CallCensus.Proofs.ClassFile.Outcomes

namespace CallCensus

-- Constants of which the same is kept: the text, the name of a class, the class that owns a method,
-- and of other constants only how many slots they take.
inductive Constant.Alike : Constant → Constant → Prop where
  | utf8 (text : List UInt8) : Alike (.utf8 text) (.utf8 text)
  | classRef (name : UInt16) : Alike (.classRef name) (.classRef name)
  | methodRef (interface interface' : Bool) (owner nameAndType nameAndType' : UInt16) :
      Alike (.methodRef interface owner nameAndType) (.methodRef interface' owner nameAndType')
  | plain (tag tag' : UInt8) (payload payload' : List UInt8)
      (hwide : ConstantPool.isWide tag = ConstantPool.isWide tag') :
      Alike (.plain tag payload) (.plain tag' payload')

-- Bodies of `Code` attributes that hold the same code.
inductive SameCode : List UInt8 → List UInt8 → Prop where
  -- The limits may differ, and what stands behind the code.
  | complete (body body' : CodeBody) (hcode : body.code = body'.code)
      (hlength : body.code.length < 0x100000000) : SameCode body.bytes body'.bytes
  -- Only the limits may differ where nothing is known of the code, which may be cut short.
  | limits {body body' : List UInt8} (hlength : body.length = body'.length)
      (hrest : body.drop 4 = body'.drop 4) : SameCode body body'

-- Attributes of methods that have the same name, and the same code if the name is `Code`. Where the
-- name cannot be looked up, it has to be looked for in the same place.
structure Attribute.Alike (pool : ConstantPool) (info info' : Attribute) : Prop where
  named : info.name = info'.name ∨ ∃ text, pool.IsText info.name text ∧ pool.IsText info'.name text
  body : pool.IsText info.name "Code" → SameCode info.body info'.body

def ClassMember.Alike (pool : ConstantPool) (method method' : ClassMember) : Prop :=
  List.Forall₂ (Attribute.Alike pool) method.attributes method'.attributes

-- Class files that differ in nothing but what is skipped: in version, flags, super class, interfaces,
-- fields and attributes they may be as different as they like, and so may the methods in all but
-- their attributes. If the constants fill no pool then the methods do not matter either.
structure ClassFile.Alike (file file' : ClassFile) : Prop where
  constants : List.Forall₂ Constant.Alike file.constants file'.constants
  thisClass : file.thisClass = file'.thisClass
  methods : ∀ pool : ConstantPool, pool.Holds file.constants →
    List.Forall₂ (ClassMember.Alike pool) file.methods file'.methods

theorem Constant.Alike.slot_eq {constant constant' : Constant} (h : constant.Alike constant')
    (index : UInt16) : constant.slot index = constant'.slot index := by
  cases h <;> rfl

theorem Constant.Alike.hiddenSlots_eq {constant constant' : Constant} (h : constant.Alike constant') :
    ConstantPool.hiddenSlots constant.tag = ConstantPool.hiddenSlots constant'.tag := by
  cases h with
  | utf8 text => rfl
  | classRef name => rfl
  | methodRef interface interface' owner nameAndType nameAndType' =>
      cases interface <;> cases interface' <;> rfl
  | plain tag tag' payload payload' hwide =>
      rw [Constant.tag, Constant.tag, ConstantPool.hiddenSlots, hwide, ConstantPool.hiddenSlots]

namespace ConstantPool

theorem slotsFrom_eq {constants constants' : List Constant}
    (h : List.Forall₂ Constant.Alike constants constants') (filled : Nat) :
    slotsFrom filled constants = slotsFrom filled constants' := by
  induction h generalizing filled with
  | nil => rfl
  | cons hfirst _ ih =>
      rw [slotsFrom, slotsFrom, hfirst.slot_eq, hfirst.hiddenSlots_eq, width_eq_hiddenSlots,
        width_eq_hiddenSlots, hfirst.hiddenSlots_eq, ih]

theorem ofConstants_eq {constants constants' : List Constant}
    (h : List.Forall₂ Constant.Alike constants constants') :
    ofConstants constants = ofConstants constants' := by
  rw [ofConstants, ofConstants, slotsFrom_eq h]

end ConstantPool

namespace DecodedClass

theorem code_all_eq_of_sameCode {body body' : List UInt8} (h : SameCode body body') :
    code.all body = code.all body' := by
  cases h with
  | complete body body' hcode hlength =>
      rw [code_all_eq_ok_iff.mpr ⟨body, rfl, rfl, hlength⟩]
      exact (code_all_eq_ok_iff.mpr ⟨body', rfl, hcode.symm, hlength⟩).symm
  | limits hlength hrest =>
      rw [code_all, code_all]
      by_cases hshort : body.length < 4
      · rw [Bytes.cut_eq_error.mpr ⟨hshort, rfl⟩, Bytes.cut_eq_error.mpr ⟨hlength ▸ hshort, rfl⟩,
          hlength]
      · have hlong := Nat.le_of_not_lt hshort
        rw [Bytes.cut_of_le_length hlong, Bytes.cut_of_le_length (hlength ▸ hlong)]
        simp only [hrest]

-- An attribute that is not named `Code` is not looked into.
theorem scanAttribute_eq_of_alike {pool : ConstantPool} {info info' : Attribute}
    (h : info.Alike pool info') :
    scanAttribute pool info.name info.body = scanAttribute pool info'.name info'.body := by
  have htext : pool.text info.name = pool.text info'.name := by
    obtain hname | ⟨text, htext, htext'⟩ := h.named
    · rw [hname]
    · rw [(pool.text_eq_ok_iff _).mpr htext, (pool.text_eq_ok_iff _).mpr htext']
  rw [scanAttribute, scanAttribute, ← htext]
  cases hfound : pool.text info.name with
  | error error => rfl
  | ok text =>
      by_cases hcode : text = "Code"
      · subst hcode
        have hbody := h.body ((pool.text_eq_ok_iff _).mp hfound)
        simp only [owners, code_all_eq_of_sameCode hbody]
      · show (if text = "Code" then _ else _) = if text = "Code" then _ else _
        rw [if_neg hcode, if_neg hcode]

theorem outcome_eq_of_alike {pool : ConstantPool} {method method' : ClassMember}
    (h : method.Alike pool method') : method.outcome pool = method'.outcome pool := by
  have hattributes := Results.mapM_eq_of_forall₂ (h.imp fun _ _ => scanAttribute_eq_of_alike)
  rw [ClassMember.outcome, ClassMember.outcome, hattributes]

-- What is skipped has no influence on what a class file is read as, nor on what is found wrong with
-- it and where.
theorem ofBytes_eq_of_alike {file file' : ClassFile} (hwell : file.WellFormed)
    (hwell' : file'.WellFormed) (h : file.Alike file') : ofBytes file.bytes = ofBytes file'.bytes := by
  rw [ofBytes_bytes_eq_outcome hwell, ofBytes_bytes_eq_outcome hwell', ClassFile.outcome,
    ClassFile.outcome, ← ConstantPool.ofConstants_eq h.constants, ← h.thisClass]
  cases hpool : ConstantPool.ofConstants file.constants with
  | error error => rfl
  | ok pool =>
      have hmethods := (h.methods pool (ConstantPool.ofConstants_eq_ok_iff.mp hpool)).imp
        fun _ _ => outcome_eq_of_alike
      have hreferences := Results.mapM_eq_of_forall₂ hmethods
      simp only [bind, Except.bind] at hreferences ⊢
      rw [hreferences]

section Example

variable {code : List UInt8}

-- The class `A` with one method, which has this code and an attribute named `A`.
def briefFile (code : List UInt8) : ClassFile where
  version := 52
  declared := 9
  constants := [.utf8 [0x41], .classRef 1, .utf8 [0x42], .classRef 3, .methodRef false 4 0,
    .utf8 [0x43, 0x6F, 0x64, 0x65], .plain 5 (List.replicate 8 0)]
  flags := 0
  thisClass := 2
  superClass := 0
  interfaces := []
  fields := []
  methods := [⟨0, 0, 0, [⟨1, []⟩, ⟨6, (CodeBody.mk 0 code []).bytes⟩]⟩]
  attributes := []

-- The same class with more in it that is skipped.
def ampleFile (code : List UInt8) : ClassFile where
  version := 65
  declared := 9
  constants := [.utf8 [0x41], .classRef 1, .utf8 [0x42], .classRef 3, .methodRef true 4 9,
    .utf8 [0x43, 0x6F, 0x64, 0x65], .plain 6 (List.replicate 8 1)]
  flags := 0x21
  thisClass := 2
  superClass := 4
  interfaces := [4, 99]
  fields := [⟨1, 2, 3, [⟨99, [1]⟩]⟩]
  methods := [⟨1, 2, 3, [⟨1, [7, 7]⟩, ⟨6, (CodeBody.mk 5 code [0, 0]).bytes⟩]⟩]
  attributes := [⟨99, [2, 3]⟩]

theorem wellFormed_briefFile (h : code.length < 0x10000) : (briefFile code).WellFormed := by
  have hbody : (CodeBody.mk 0 code []).bytes.length < 0x100000000 := by
    simp only [CodeBody.bytes, List.length_append, Bytes.length_ofUInt32, Bytes.length_toBigEndian,
      List.length_nil]
    omega
  have hsize : Constant.plainSizes.lookup 5 = some 8 := rfl
  simp [ClassFile.WellFormed, ClassFile.Fills, ClassFile.slotCount, Constant.WellFormed,
    Constant.width, ClassMember.WellFormed, Attribute.WellFormed, briefFile, hbody, hsize]

theorem wellFormed_ampleFile (h : code.length < 0x10000) : (ampleFile code).WellFormed := by
  have hbody : (CodeBody.mk 5 code [0, 0]).bytes.length < 0x100000000 := by
    simp only [CodeBody.bytes, List.length_append, Bytes.length_ofUInt32, Bytes.length_toBigEndian,
      List.length_cons, List.length_nil]
    omega
  have hsize : Constant.plainSizes.lookup 6 = some 8 := rfl
  simp [ClassFile.WellFormed, ClassFile.Fills, ClassFile.slotCount, Constant.WellFormed,
    Constant.width, ClassMember.WellFormed, Attribute.WellFormed, ampleFile, hbody, hsize]

theorem alike_ampleFile (h : code.length < 0x10000) : (briefFile code).Alike (ampleFile code) where
  constants := .cons (.utf8 _) (.cons (.classRef _) (.cons (.utf8 _) (.cons (.classRef _)
    (.cons (.methodRef ..) (.cons (.utf8 _) (.cons (.plain _ _ _ _ rfl) .nil))))))
  thisClass := rfl
  methods pool hpool := by
    have hslots : ConstantPool.ofConstants (briefFile []).constants = .ok ⟨[.unusable, .utf8 "A",
        .classRef 1, .utf8 "B", .classRef 3, .methodRef 4, .utf8 "Code", .other, .unusable]⟩ := by
      decide +kernel
    change pool.Holds (briefFile []).constants at hpool
    rw [← ConstantPool.ofConstants_eq_ok_iff, hslots] at hpool
    obtain rfl := Except.ok.inj hpool
    have hcode : SameCode (CodeBody.mk 0 code []).bytes (CodeBody.mk 5 code [0, 0]).bytes :=
      .complete ⟨0, code, []⟩ ⟨5, code, [0, 0]⟩ rfl (Nat.lt_trans h (by decide))
    refine .cons (.cons ⟨.inl rfl, fun hname => ?_⟩ (.cons ⟨.inl rfl, fun _ => hcode⟩ .nil)) .nil
    simp [ConstantPool.IsText, ConstantPool.get?] at hname

-- The code calls a method of `B` in one case, and it ends within a call in the other.
theorem ofBytes_eq_of_alike_ample :
    let calling : List UInt8 := [0xB8, 0, 5, 0xB1]
    let broken : List UInt8 := [0xB1, 0xB8, 0]
    (∀ code ∈ [calling, broken], (briefFile code).WellFormed ∧ (ampleFile code).WellFormed ∧
      (briefFile code).Alike (ampleFile code) ∧
      ofBytes (briefFile code).bytes = ofBytes (ampleFile code).bytes) ∧
      (briefFile calling).bytes ≠ (ampleFile calling).bytes ∧
      ofBytes (briefFile calling).bytes = .ok ⟨"A", ["B"]⟩ ∧
      ofBytes (briefFile broken).bytes = .error (.truncatedCode 1) := by
  intro calling broken
  refine ⟨fun code hmem => ?_, by decide +kernel, by decide +kernel, by decide +kernel⟩
  have hlength : code.length < 0x10000 := by
    revert code
    decide
  have hbrief := wellFormed_briefFile hlength
  have hample := wellFormed_ampleFile hlength
  have halike := alike_ampleFile hlength
  exact ⟨hbrief, hample, halike, ofBytes_eq_of_alike hbrief hample halike⟩

end Example

end DecodedClass

end CallCensus
