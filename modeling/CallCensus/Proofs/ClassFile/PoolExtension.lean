import CallCensus.Proofs.ClassFile.Pool

namespace CallCensus

open Read Bytecode

section Bytes

variable {constant other : Constant} {rest after : List UInt8}

theorem Constant.exists_behind_tag {tag : UInt8} {front : List UInt8}
    (h : tag :: front = other.bytes ++ after) :
    ∃ bytes, other.bytes = tag :: bytes ∧ front = bytes ++ after := by
  obtain ⟨hnil, -⟩ | ⟨bytes, hbytes, hfront⟩ := List.cons_eq_append_iff.mp h
  · cases other <;> cases hnil
  · exact ⟨bytes, hbytes, hfront⟩

theorem Constant.spelled_append_inj {text text' : List UInt8} (htext : text.length < 0x10000)
    (htext' : text'.length < 0x10000)
    (h : Bytes.toBigEndian 2 text.length ++ text ++ rest =
      Bytes.toBigEndian 2 text'.length ++ text' ++ after) : text = text' ∧ rest = after := by
  rw [List.append_assoc, List.append_assoc] at h
  have hwidth : (Bytes.toBigEndian 2 text.length).length =
      (Bytes.toBigEndian 2 text'.length).length := by
    rw [Bytes.length_toBigEndian, Bytes.length_toBigEndian]
  obtain ⟨hlength, hbytes⟩ := List.append_inj h hwidth
  have hsame := congrArg Bytes.bigEndian hlength
  rw [Bytes.bigEndian_toBigEndian, Bytes.bigEndian_toBigEndian] at hsame
  exact List.append_inj hbytes (by omega)

-- No constant is the beginning of another: its tag and its length say where it ends.
theorem Constant.bytes_append_inj (hwell : constant.WellFormed) (hother : other.WellFormed)
    (h : constant.bytes ++ rest = other.bytes ++ after) : constant = other ∧ rest = after := by
  cases constant with
  | utf8 text =>
      obtain ⟨bytes, hbytes, hrest⟩ := exists_behind_tag h
      obtain ⟨-, text', rfl, rfl⟩ | ⟨htag, -⟩ | ⟨htag, -⟩ | ⟨-, hsize⟩ := bytes_eq_cons hother hbytes
      · obtain ⟨rfl, hafter⟩ := spelled_append_inj hwell hother hrest
        exact ⟨rfl, hafter⟩
      · simp at htag
      · simp at htag
      · simp [ConstantPool.plainSize?] at hsize
  | classRef name =>
      obtain ⟨bytes, hbytes, hrest⟩ := exists_behind_tag h
      obtain ⟨htag, -⟩ | ⟨-, name', rfl, rfl⟩ | ⟨htag, -⟩ | ⟨-, hsize⟩ := bytes_eq_cons hother hbytes
      · simp at htag
      · obtain ⟨rfl, hafter⟩ := Bytes.ofUInt16_append_inj hrest
        exact ⟨rfl, hafter⟩
      · simp at htag
      · simp [ConstantPool.plainSize?] at hsize
  | methodRef interface owner nameAndType =>
      obtain ⟨bytes, hbytes, hrest⟩ := exists_behind_tag h
      obtain ⟨htag, -⟩ | ⟨htag, -⟩ | ⟨-, interface', owner', nameAndType', rfl, rfl⟩ | ⟨-, hsize⟩ :=
        bytes_eq_cons hother hbytes
      · cases interface <;> simp at htag
      · cases interface <;> simp at htag
      · have hfields : Bytes.ofUInt16 owner ++ (Bytes.ofUInt16 nameAndType ++ rest) =
            Bytes.ofUInt16 owner' ++ (Bytes.ofUInt16 nameAndType' ++ after) := by
          rw [← List.append_assoc, ← List.append_assoc]
          exact hrest
        obtain ⟨howner, hback⟩ := Bytes.ofUInt16_append_inj hfields
        obtain ⟨hname, hafter⟩ := Bytes.ofUInt16_append_inj hback
        have hinterface : interface = interface' := by
          cases interface <;> cases interface' <;> simp [bytes] at hbytes ⊢
        exact ⟨by rw [hinterface, howner, hname], hafter⟩
      · cases interface <;> simp [ConstantPool.plainSize?] at hsize
  | plain tag payload =>
      have hsize : ConstantPool.plainSize? tag = some payload.length :=
        (ConstantPool.plainSize?_eq_lookup tag).trans hwell
      obtain ⟨bytes, hbytes, hrest⟩ := exists_behind_tag h
      obtain ⟨rfl, -⟩ | ⟨rfl, -⟩ | ⟨rfl | rfl, -⟩ | ⟨rfl, hsize'⟩ := bytes_eq_cons hother hbytes
      · simp [ConstantPool.plainSize?] at hsize
      · simp [ConstantPool.plainSize?] at hsize
      · simp [ConstantPool.plainSize?] at hsize
      · simp [ConstantPool.plainSize?] at hsize
      · have hlength : payload.length = bytes.length := Option.some.inj (hsize.symm.trans hsize')
        obtain ⟨rfl, hafter⟩ := List.append_inj hrest hlength
        exact ⟨rfl, hafter⟩

end Bytes

namespace ConstantPool

-- So the number of slots that are to be filled says where the constants end.
theorem constants_append_inj {count filled : Nat} {constants others : List Constant}
    {rest after : List UInt8} (hfills : FillsFrom count filled constants)
    (hothers : FillsFrom count filled others)
    (hwell : ∀ constant ∈ constants, constant.WellFormed)
    (hother : ∀ constant ∈ others, constant.WellFormed)
    (h : constants.flatMap Constant.bytes ++ rest = others.flatMap Constant.bytes ++ after) :
    constants = others ∧ rest = after := by
  induction constants generalizing filled others with
  | nil =>
      cases others with
      | nil => exact ⟨rfl, h⟩
      | cons other others => exact absurd hothers.1 (Nat.not_lt.mpr hfills)
  | cons constant constants ih =>
      cases others with
      | nil => exact absurd hfills.1 (Nat.not_lt.mpr hothers)
      | cons other others =>
          rw [List.forall_mem_cons] at hwell hother
          rw [List.flatMap_cons, List.flatMap_cons, List.append_assoc, List.append_assoc] at h
          obtain ⟨rfl, hrest⟩ := Constant.bytes_append_inj hwell.1 hother.1 h
          obtain ⟨rfl, hafter⟩ := ih hfills.2 hothers.2 hwell.2 hother.2 hrest
          exact ⟨rfl, hafter⟩

-- A pool that begins as another does.
def Extends (more pool : ConstantPool) : Prop := ∃ others, more.slots = pool.slots ++ others

theorem Holds.extend {pool : ConstantPool} {constants others : List Constant} {slots : List Slot}
    (h : pool.Holds constants) (hothers : Gathers Constant.Keeps others slots) :
    ∃ more : ConstantPool, more.Holds (constants ++ others) ∧ more.Extends pool := by
  obtain ⟨_, ⟨parts, hparts, rfl⟩, rfl⟩ := h
  obtain ⟨further, hfurther, rfl⟩ := hothers
  refine ⟨⟨.unusable :: (parts.flatten ++ further.flatten)⟩, ⟨_, ?_, rfl⟩, further.flatten, rfl⟩
  exact ⟨parts ++ further, List.rel_append hparts hfurther, List.flatten_append.symm⟩

end ConstantPool

-- What is looked up in a pool is found in a larger one as well, and so is what is read by it.
section Extends

variable {more pool : ConstantPool} {index : UInt16}

theorem ConstantPool.Extends.get? (h : more.Extends pool) {slot : Slot}
    (hslot : pool.get? index = some slot) : more.get? index = some slot := by
  obtain ⟨others, hothers⟩ := h
  obtain ⟨hlt, -⟩ := List.getElem?_eq_some_iff.mp hslot
  rw [ConstantPool.get?, hothers, List.getElem?_append_left hlt]
  exact hslot

theorem ConstantPool.Extends.isText (h : more.Extends pool) {text : String}
    (htext : pool.IsText index text) : more.IsText index text :=
  h.get? htext

theorem ConstantPool.Extends.isClass (h : more.Extends pool) {name : String}
    (hname : pool.IsClass index name) : more.IsClass index name := by
  obtain ⟨text, hclass, htext⟩ := hname
  exact ⟨text, h.get? hclass, h.isText htext⟩

theorem ConstantPool.Extends.isOwner (h : more.Extends pool) {owner : String}
    (howner : pool.IsOwner index owner) : more.IsOwner index owner := by
  obtain ⟨owningClass, hmethod, hclass⟩ := howner
  exact ⟨owningClass, h.get? hmethod, h.isClass hclass⟩

theorem Gathers.imp {α β : Type} {Yields Others : α → List β → Prop} {items : List α}
    {gathered : List β} (h : ∀ item own, Yields item own → Others item own)
    (hitems : Gathers Yields items gathered) : Gathers Others items gathered := by
  obtain ⟨parts, hparts, rfl⟩ := hitems
  exact ⟨parts, hparts.imp h, rfl⟩

theorem ConstantPool.Extends.yields (h : more.Extends pool) {file : ClassFile}
    {instructions : List Instruction} (hyields : file.Yields pool instructions) :
    file.Yields more instructions := by
  refine Gathers.imp (fun method own => Gathers.imp fun info own hinfo => ?_) hyields
  cases hinfo with
  | code hname hbody => exact .code (h.isText hname) hbody
  | passedOver hname hne => exact .passedOver (h.isText hname) hne

end Extends

end CallCensus
