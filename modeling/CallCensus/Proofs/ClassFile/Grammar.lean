import CallCensus.Proofs.ClassFile.Bodies
import CallCensus.Proofs.ClassFile.Denotation
import CallCensus.Proofs.ClassFile.Pool

namespace CallCensus

open Read Bytecode

namespace DecodedClass

theorem parses_skipAttribute :
    Parses skipAttribute (Written Attribute.bytes fun info _ => info.WellFormed) := by
  apply ((parses_skip 2).bind fun _ => parses_sized.map fun _ => ()).congr
  intro bytes value
  constructor
  · rintro ⟨front, _, _, rfl, hlength, body, ⟨rfl, hlt⟩, -⟩
    refine ⟨⟨(Bytes.bigEndian front).toUInt16, body⟩, ?_, hlt⟩
    rw [Attribute.bytes, Bytes.ofUInt16_bigEndian hlength, List.append_assoc]
  · rintro ⟨info, rfl, hlt⟩
    exact ⟨_, _, (), by rw [Attribute.bytes, List.append_assoc], Bytes.length_ofUInt16 info.name,
      info.body, ⟨rfl, hlt⟩, rfl⟩

theorem parses_skipAttributes :
    Parses skipAttributes (Written (tableBytes Attribute.bytes) fun attributes _ =>
      attributes.length < 0x10000 ∧ ∀ info ∈ attributes, info.WellFormed) := by
  apply (parses_skipAttribute.passTable.map fun _ => ()).congr
  intro bytes value
  constructor
  · rintro ⟨_, ⟨attributes, rfl, -, hattributes⟩, -⟩
    exact ⟨attributes, rfl, hattributes⟩
  · rintro ⟨attributes, rfl, hattributes⟩
    exact ⟨_, ⟨attributes, rfl, rfl, hattributes⟩, rfl⟩

theorem exists_memberHeader {front : List UInt8} (h : front.length = 6) :
    ∃ flags name descriptor,
      front = Bytes.ofUInt16 flags ++ Bytes.ofUInt16 name ++ Bytes.ofUInt16 descriptor := by
  obtain ⟨words, hcount, hwords⟩ := Bytes.exists_entries
    (fun _ hlength => ⟨_, (Bytes.ofUInt16_bigEndian hlength).symm⟩) 3 front h
  obtain ⟨flags, name, descriptor, rfl⟩ := List.length_eq_three.mp hcount
  refine ⟨flags, name, descriptor, ?_⟩
  rw [hwords]
  simp only [List.flatMap_cons, List.flatMap_nil, List.append_nil, List.append_assoc]

-- A field or a method is its header and what its attributes are read as.
theorem parses_member {α : Type} {read : Read α} {Means : List Attribute → α → Prop}
    (h : Parses read (Written (tableBytes Attribute.bytes) Means)) :
    Parses (do Read.skip 6; read)
      (Written ClassMember.bytes fun member value => Means member.attributes value) := by
  apply ((parses_skip 6).bind fun _ => h).congr
  intro bytes value
  constructor
  · rintro ⟨front, _, _, rfl, hlength, attributes, rfl, hvalue⟩
    obtain ⟨flags, name, descriptor, rfl⟩ := exists_memberHeader hlength
    exact ⟨⟨flags, name, descriptor, attributes⟩, rfl, hvalue⟩
  · rintro ⟨member, rfl, hvalue⟩
    refine ⟨_, _, (), rfl, ?_, member.attributes, rfl, hvalue⟩
    simp only [List.length_append, Bytes.length_ofUInt16]

theorem parses_readField :
    Parses readField (Written ClassMember.bytes fun field _ => field.WellFormed) :=
  parses_member parses_skipAttributes

theorem parses_code :
    Parses code fun bytes value => ∃ limits, bytes = Bytes.ofUInt32 limits ++
      Bytes.toBigEndian 4 value.length ++ value ∧ value.length < 0x100000000 := by
  apply ((parses_skip 4).bind fun _ => parses_sized).congr
  intro bytes value
  constructor
  · rintro ⟨front, _, _, rfl, hlength, rfl, hlt⟩
    exact ⟨_, by rw [Bytes.ofUInt32_bigEndian hlength, List.append_assoc], hlt⟩
  · rintro ⟨limits, rfl, hlt⟩
    exact ⟨_, _, (), List.append_assoc .., Bytes.length_ofUInt32 limits, rfl, hlt⟩

theorem code_all_eq_ok_iff {body code' : List UInt8} :
    code.all body = .ok code' ↔
      ∃ parts : CodeBody, body = parts.bytes ∧ parts.code = code' ∧ code'.length < 0x100000000 := by
  rw [parses_code.all_eq_ok_iff]
  constructor
  · rintro ⟨_, tail, ⟨limits, rfl, hlt⟩, rfl⟩
    exact ⟨⟨limits, code', tail⟩, rfl, rfl, hlt⟩
  · rintro ⟨parts, rfl, rfl, hlt⟩
    exact ⟨_, parts.tail, ⟨parts.limits, rfl, hlt⟩, rfl⟩

theorem owners_eq_ok_iff {pool : ConstantPool} {body : List UInt8} {names : List String} :
    owners pool body = .ok names ↔ Calls pool HoldsCode body names := by
  have hnames (indices : List UInt16) :
      (indices.mapM fun index => do return ClassName.sourceForm (← pool.methodOwner index)) =
          .ok names ↔
        ∃ owners, List.Forall₂ pool.IsOwner indices owners ∧
          names = owners.map ClassName.sourceForm := by
    rw [Results.mapM_eq_ok_iff, ← Results.forall₂_exists_map_iff]
    simp only [Results.bind_eq_ok_iff, pool.methodOwner_eq_ok_iff, pure, Except.pure, Except.ok.injEq]
  unfold owners
  simp only [Results.bind_eq_ok_iff, hnames, code_all_eq_ok_iff, Bytecode.invocations,
    invocationsFrom_eq_ok_iff]
  constructor
  · rintro ⟨_, ⟨parts, rfl, rfl, hlt⟩, _, ⟨instructions, hfit, hcode, rfl⟩, owners, howners, rfl⟩
    exact ⟨instructions, owners, ⟨parts, rfl, hlt, hcode, hfit⟩, howners, rfl⟩
  · rintro ⟨instructions, owners, ⟨parts, rfl, hlt, hcode, hfit⟩, howners, rfl⟩
    exact ⟨_, ⟨parts, rfl, rfl, hlt⟩, _, ⟨instructions, hfit, hcode, rfl⟩, owners, howners, rfl⟩

theorem calls_attribute_iff {pool : ConstantPool} {info : Attribute} {names : List String} :
    Calls pool (Attribute.Yields pool) info names ↔ ∃ text, pool.IsText info.name text ∧
      (text = "Code" ∧ Calls pool HoldsCode info.body names ∨ text ≠ "Code" ∧ names = []) := by
  constructor
  · rintro ⟨instructions, owners, hyields, howners, rfl⟩
    cases hyields with
    | code hname hcode =>
        exact ⟨"Code", hname, .inl ⟨rfl, instructions, owners, hcode, howners, rfl⟩⟩
    | passedOver hname hne =>
        cases howners
        exact ⟨_, hname, .inr ⟨hne, rfl⟩⟩
  · rintro ⟨text, hname, ⟨rfl, instructions, owners, hcode, howners, rfl⟩ | ⟨hne, rfl⟩⟩
    · exact ⟨instructions, owners, .code hname hcode, howners, rfl⟩
    · exact ⟨[], [], .passedOver hname hne, .nil, rfl⟩

theorem parses_readMethodAttribute (pool : ConstantPool) :
    Parses (readMethodAttribute pool) (Written Attribute.bytes fun info names =>
      info.WellFormed ∧ Calls pool (Attribute.Yields pool) info names) := by
  have hbody (body : List UInt8) (text : String) :
      Parses (if text = "Code" then Read.ofExcept (owners pool body) else return [])
        fun bytes names => bytes = [] ∧
          (text = "Code" ∧ Calls pool HoldsCode body names ∨ text ≠ "Code" ∧ names = []) := by
    by_cases htext : text = "Code"
    · rw [if_pos htext]
      apply (parses_ofExcept _).congr
      simp [htext, owners_eq_ok_iff]
    · rw [if_neg htext]
      exact (parses_pure _).congr (by simp [htext])
  apply (parses_u16.bind fun name => parses_sized.bind fun body =>
    (parses_ofExcept (pool.text name)).bind (hbody body)).congr
  intro bytes names
  simp only [pool.text_eq_ok_iff, Written, calls_attribute_iff]
  constructor
  · rintro ⟨_, _, name, rfl, rfl, _, _, body, rfl, ⟨rfl, hlt⟩, _, _, text, rfl, ⟨rfl, hname⟩, rfl, h⟩
    exact ⟨⟨name, body⟩, by simp [Attribute.bytes], hlt, text, hname, h⟩
  · rintro ⟨info, rfl, hlt, text, hname, h⟩
    exact ⟨_, _, info.name, by rw [Attribute.bytes, List.append_assoc], rfl, _, [], info.body,
      by rw [List.append_nil], ⟨rfl, hlt⟩, [], [], text, rfl, ⟨rfl, hname⟩, rfl, h⟩

theorem parses_readMethod (pool : ConstantPool) :
    Parses (readMethod pool) (Written ClassMember.bytes fun method names =>
      method.WellFormed ∧ Calls pool (ClassMember.Yields pool) method names) := by
  have hattributes : Parses (do return (← Read.table (readMethodAttribute pool)).flatten)
      (Written (tableBytes Attribute.bytes) fun attributes names =>
        (attributes.length < 0x10000 ∧ ∀ info ∈ attributes, info.WellFormed) ∧
          Calls pool (Gathers (Attribute.Yields pool)) attributes names) := by
    apply ((parses_readMethodAttribute pool).table.map List.flatten).congr
    intro bytes names
    simp only [Written, ← gathers_calls, Gathers, List.forall₂_and_left]
    constructor
    · rintro ⟨parts, ⟨attributes, rfl, hlt, hwell, hparts⟩, rfl⟩
      exact ⟨attributes, rfl, ⟨hlt, hwell⟩, parts, hparts, rfl⟩
    · rintro ⟨attributes, rfl, ⟨hlt, hwell⟩, parts, hparts, rfl⟩
      exact ⟨parts, ⟨attributes, rfl, hlt, hwell, hparts⟩, rfl⟩
  exact parses_member hattributes

theorem parses_readMark :
    Parses readMark fun bytes _ => bytes = [0xCA, 0xFE, 0xBA, 0xBE] := by
  have hmark (mark : UInt32) : Parses (if mark = magic then return else throw (.badMagic mark))
      fun bytes (_ : Unit) => bytes = [] ∧ mark = magic := by
    by_cases hmagic : mark = magic
    · rw [if_pos hmagic]
      exact (parses_pure ()).congr (by simp [hmagic])
    · rw [if_neg hmagic]
      exact (parses_throw _).congr (by simp [hmagic])
  have hbytes : Bytes.ofUInt32 magic = [0xCA, 0xFE, 0xBA, 0xBE] := by decide
  apply (parses_u32.bind hmark).congr
  simp [hbytes]

theorem parses_readName (pool : ConstantPool) :
    Parses (readName pool) fun bytes name => ∃ flags thisClass superClass text,
      bytes = Bytes.ofUInt16 flags ++ Bytes.ofUInt16 thisClass ++ Bytes.ofUInt16 superClass ∧
      pool.IsClass thisClass text ∧ name = ClassName.sourceForm text := by
  apply ((parses_skip 2).bind fun _ => parses_u16.bind fun thisClass =>
    (parses_ofExcept (pool.className thisClass)).bind fun text =>
      (parses_skip 2).map fun _ => ClassName.sourceForm text).congr
  intro bytes name
  simp only [pool.className_eq_ok_iff]
  constructor
  · rintro ⟨front, _, _, rfl, hfront, _, _, thisClass, rfl, rfl, _, back, text, rfl, ⟨rfl, htext⟩,
      _, hback, rfl⟩
    refine ⟨(Bytes.bigEndian front).toUInt16, thisClass, (Bytes.bigEndian back).toUInt16, text, ?_,
      htext, rfl⟩
    rw [Bytes.ofUInt16_bigEndian hfront, Bytes.ofUInt16_bigEndian hback, List.append_assoc]
    rfl
  · rintro ⟨flags, thisClass, superClass, text, rfl, htext, rfl⟩
    exact ⟨_, _, (), List.append_assoc .., Bytes.length_ofUInt16 flags, _, _, thisClass, rfl, rfl,
      [], _, text, rfl, ⟨rfl, htext⟩, (), Bytes.length_ofUInt16 superClass, rfl⟩

theorem parses_skipInterfaces :
    Parses skipInterfaces (Written (tableBytes Bytes.ofUInt16) fun interfaces _ =>
      interfaces.length < 0x10000) := by
  apply (parses_u16.bind fun count => parses_skip (count.toNat * 2)).congr
  intro bytes value
  constructor
  · rintro ⟨_, back, count, rfl, rfl, hlength⟩
    obtain ⟨interfaces, hcount, rfl⟩ := Bytes.exists_entries
      (fun _ hlength => ⟨_, (Bytes.ofUInt16_bigEndian hlength).symm⟩) count.toNat back hlength
    have hlt : interfaces.length < 0x10000 := hcount ▸ count.toNat_lt
    exact ⟨interfaces, by rw [tableBytes, hcount, Bytes.ofUInt16], hlt⟩
  · rintro ⟨interfaces, rfl, hlt⟩
    have hcount : (UInt16.ofNat interfaces.length).toNat = interfaces.length :=
      UInt16.toNat_ofNat_of_lt' hlt
    refine ⟨_, _, UInt16.ofNat interfaces.length, rfl, by rw [Bytes.ofUInt16, hcount], ?_⟩
    rw [Bytes.length_flatMap_encode Bytes.length_ofUInt16, hcount]

theorem parses_read : Parses read (Written ClassFile.bytes ClassFile.Denotes) := by
  apply (parses_readMark.bind fun _ => (parses_skip 4).bind fun _ =>
    ConstantPool.parses_read.bind fun pool => (parses_readName pool).bind fun name =>
      parses_skipInterfaces.bind fun _ => parses_readField.passTable.bind fun _ =>
        (parses_readMethod pool).table.bind fun references => parses_skipAttributes.map fun _ =>
          DecodedClass.mk name references.flatten).congr
  intro bytes decoded
  simp only [Written, List.forall₂_and_left]
  constructor
  · rintro ⟨_, _, -, rfl, rfl, version, _, -, rfl, hversion, _, _, pool, rfl,
      ⟨declared, constants, rfl, hfills, hconstants, hpool⟩, _, _, _, rfl,
      ⟨flags, thisClass, superClass, text, rfl, htext, rfl⟩, _, _, -, rfl,
      ⟨interfaces, rfl, hinterfaces⟩, _, _, _, rfl, ⟨fields, rfl, -, hfields⟩, _, _, _, rfl,
      ⟨methods, rfl, hmethods, hwell, hcalls⟩, -, ⟨attributes, rfl, hattributes⟩, rfl⟩
    obtain ⟨instructions, owners, hyields, howners, hnames⟩ := gathers_calls.mp ⟨_, hcalls, rfl⟩
    refine ⟨⟨(Bytes.bigEndian version).toUInt32, declared, constants, flags, thisClass, superClass,
      interfaces, fields, methods, attributes⟩, ?_, pool, text, instructions, owners, ?_, howners, ?_⟩
    · simp only [ClassFile.bytes, Bytes.ofUInt32_bigEndian hversion, List.append_assoc]
    · exact ⟨⟨hconstants, hfills, hinterfaces, hfields.1, hfields.2, hmethods, hwell, hattributes⟩,
        hpool, htext, hyields, Results.exists_of_forall₂ howners⟩
    · rw [hnames]
  · rintro ⟨file, rfl, pool, text, instructions, owners, h, howners, rfl⟩
    obtain ⟨hconstants, hfills, hinterfaces, hfields, hfieldsWell, hmethods, hmethodsWell,
      hattributes⟩ := h.wellFormed
    obtain ⟨parts, hparts, hnames⟩ := gathers_calls.mpr ⟨instructions, owners, h.yields, howners, rfl⟩
    refine ⟨_, _, (), ?_, rfl, Bytes.ofUInt32 file.version, _, (), rfl, Bytes.length_ofUInt32 _,
      _, _, pool, rfl, ⟨file.declared, file.constants, rfl, hfills, hconstants, h.hasPool⟩,
      _, _, _, rfl, ⟨file.flags, file.thisClass, file.superClass, text, rfl, h.named, rfl⟩,
      _, _, (), rfl, ⟨file.interfaces, rfl, hinterfaces⟩,
      _, _, _, rfl, ⟨file.fields, rfl, rfl, hfields, hfieldsWell⟩,
      _, _, parts, rfl, ⟨file.methods, rfl, hmethods, hmethodsWell, hparts⟩,
      (), ⟨file.attributes, rfl, hattributes⟩, ?_⟩
    · simp only [ClassFile.bytes, List.append_assoc]
    · rw [hnames]

theorem ofBytes_eq_ok_iff_startingAt {bytes : List UInt8} {decoded : DecodedClass} :
    ofBytes bytes = .ok decoded ↔
      ∃ position, read.startingAt (Cursor.ofBytes bytes) = (.ok decoded, ⟨position, []⟩) := by
  unfold ofBytes
  split
  · rename_i hrun
    simp [hrun]
  · rename_i found after hrun
    rw [hrun]
    split
    · rename_i hrest
      obtain ⟨position, rest⟩ := after
      simp_all
    · rename_i hrest
      simp only [reduceCtorEq, false_iff, not_exists, Prod.mk.injEq, not_and]
      rintro position - rfl
      exact hrest rfl

theorem ofBytes_bytes {file : ClassFile} {decoded : DecodedClass} (h : file.Denotes decoded) :
    ofBytes file.bytes = .ok decoded := by
  apply ofBytes_eq_ok_iff_startingAt.mpr
  refine ⟨0 + file.bytes.length, (parses_read _ _ _).mpr ⟨file.bytes, ⟨file, rfl, h⟩, ?_, rfl⟩⟩
  rw [Cursor.ofBytes, List.append_nil]

theorem exists_file_of_ofBytes {bytes : List UInt8} {decoded : DecodedClass}
    (h : ofBytes bytes = .ok decoded) : ∃ file : ClassFile, file.bytes = bytes ∧ file.Denotes decoded := by
  obtain ⟨position, hrun⟩ := ofBytes_eq_ok_iff_startingAt.mp h
  obtain ⟨front, ⟨file, rfl, hdenotes⟩, hrest, -⟩ := (parses_read _ _ _).mp hrun
  exact ⟨file, by rw [Cursor.ofBytes, List.append_nil] at hrest; exact hrest.symm, hdenotes⟩

-- Bytes are accepted if and only if they are a class file in which everything that is looked up is
-- there, and then they are read as the class that it denotes.
theorem ofBytes_eq_ok_iff {bytes : List UInt8} {decoded : DecodedClass} :
    ofBytes bytes = .ok decoded ↔ ∃ file : ClassFile, file.bytes = bytes ∧ file.Denotes decoded := by
  constructor
  · exact exists_file_of_ofBytes
  · rintro ⟨file, rfl, h⟩
    exact ofBytes_bytes h

end DecodedClass

end CallCensus
