import CallCensus.Proofs.ClassFile.Truncation

namespace CallCensus

open Read

namespace Read

variable {α β ι : Type}

-- A reader that comes to a result on these bytes, whatever stands behind them. Where it succeeds it
-- takes them all.
def Settles (read : Read α) (bytes : List UInt8) : Except DecodeError α → Prop
  | .ok value => ∀ position rest,
      read.startingAt ⟨position, bytes ++ rest⟩ = (.ok value, ⟨position + bytes.length, rest⟩)
  | .error error => ∀ position rest, ∃ after,
      read.startingAt ⟨position, bytes ++ rest⟩ = (.error error, after)

variable {read : Read α} {next : α → Read β} {front back bytes : List UInt8}
  {language : List UInt8 → α → Prop}

theorem Parses.settles (h : Parses read language) {value : α} (hbytes : language bytes value) :
    Settles read bytes (.ok value) :=
  fun _ _ => (h _ value _).mpr ⟨bytes, hbytes, rfl, rfl⟩

theorem settles_pure (value : α) : Settles (pure value) [] (.ok value) :=
  (parses_pure value).settles ⟨rfl, rfl⟩

theorem settles_throw (error : DecodeError) : Settles (throw error : Read α) [] (.error error) :=
  fun position rest => ⟨⟨position, rest⟩, startingAt_throw error _⟩

theorem settles_ofExcept (result : Except DecodeError α) : Settles (ofExcept result) [] result := by
  cases result with
  | ok value => exact settles_pure value
  | error error => exact settles_throw error

-- What the second of two readers comes to matters only where the first succeeds.
theorem Settles.bind {result : Except DecodeError α} {following : α → Except DecodeError β}
    (hread : Settles read front result)
    (hnext : ∀ value, result = .ok value → Settles (next value) back (following value)) :
    Settles (read >>= next) (front ++ back) (result >>= following) := by
  cases result with
  | error error =>
      intro position rest
      obtain ⟨after, hafter⟩ := hread position (back ++ rest)
      refine ⟨after, ?_⟩
      rw [startingAt_bind, List.append_assoc, hafter]
  | ok value =>
      have hback := hnext value rfl
      change Settles (read >>= next) (front ++ back) (following value)
      generalize following value = result at hback ⊢
      cases result with
      | ok value =>
          intro position rest
          rw [startingAt_bind, List.append_assoc, hread, List.length_append, ← Nat.add_assoc]
          exact hback _ rest
      | error error =>
          intro position rest
          obtain ⟨after, hafter⟩ := hback (position + front.length) rest
          refine ⟨after, ?_⟩
          rw [startingAt_bind, List.append_assoc, hread]
          exact hafter

theorem Parses.settles_bind (hread : Parses read language) (value : α) (hfront : language front value)
    {result : Except DecodeError β} (hback : Settles (next value) back result) :
    Settles (read >>= next) (front ++ back) result := by
  have hbind : Settles (read >>= next) (front ++ back) (Except.ok value >>= fun _ => result) :=
    (hread.settles hfront).bind fun other hother => Except.ok.inj hother ▸ hback
  exact hbind

theorem Settles.map {result : Except DecodeError α} (h : Settles read bytes result) (f : α → β) :
    Settles (do return f (← read)) bytes (do return f (← result)) := by
  have hbind := h.bind fun value _ => settles_pure (f value)
  rwa [List.append_nil] at hbind

section Tables

variable {encode : ι → List UInt8} {outcome : ι → Except DecodeError α} {items : List ι}

-- The first entry that cannot be read is the end of a table.
theorem Settles.times (h : ∀ item ∈ items, Settles read (encode item) (outcome item)) :
    Settles (times items.length read) (items.flatMap encode) (items.mapM outcome) := by
  induction items with
  | nil => exact settles_pure []
  | cons item items ih =>
      obtain ⟨hfirst, hrest⟩ := List.forall_mem_cons.mp h
      rw [List.mapM_cons]
      exact hfirst.bind fun first _ => (ih hrest).map (first :: ·)

theorem Settles.table (hlt : items.length < 0x10000)
    (h : ∀ item ∈ items, Settles read (encode item) (outcome item)) :
    Settles (Read.table read) (tableBytes encode items) (items.mapM outcome) := by
  have hcount : (UInt16.ofNat items.length).toNat = items.length := UInt16.toNat_ofNat_of_lt' hlt
  refine parses_u16.settles_bind (UInt16.ofNat items.length) ?_ ?_
  · rw [Bytes.ofUInt16, hcount]
  · rw [hcount]
    exact Settles.times h

end Tables

end Read

namespace Constant

-- What is kept of a constant in its first slot. Only a text can be found wrong.
def slot (index : UInt16) : Constant → Except DecodeError Slot
  | .utf8 bytes =>
    match ModifiedUtf8.decode? bytes with
    | some text => .ok (.utf8 (String.ofList text))
    | none => .error (.invalidUtf8 index)
  | .classRef name => .ok (.classRef name)
  | .methodRef _ owner _ => .ok (.methodRef owner)
  | .plain _ _ => .ok .other

theorem exists_text_of_slot_eq_error {constant : Constant} {index : UInt16} {error : DecodeError}
    (h : constant.slot index = .error error) :
    ∃ text, constant = .utf8 text ∧ ModifiedUtf8.decode? text = none ∧
      error = .invalidUtf8 index := by
  cases constant with
  | utf8 text =>
      rw [slot] at h
      split at h
      · cases h
      · rename_i htext
        exact ⟨text, rfl, htext, (Except.error.inj h).symm⟩
  | _ => cases h

-- So the slots that a constant fills are determined, if there are any.
theorem keeps_iff (constant : Constant) (index : UInt16) (slots : List Slot) :
    constant.Keeps slots ↔ ∃ slot, constant.slot index = .ok slot ∧
      slots = slot :: ConstantPool.hiddenSlots constant.tag := by
  cases constant with
  | utf8 bytes =>
      simp only [Keeps, slot, ← ModifiedUtf8.decode?_eq_some_iff]
      constructor
      · rintro ⟨text, htext, rfl⟩
        exact ⟨.utf8 text, by simp only [htext, String.ofList_toList], rfl⟩
      · rintro ⟨found, hslot, rfl⟩
        cases htext : ModifiedUtf8.decode? bytes with
        | none =>
            rw [htext] at hslot
            cases hslot
        | some chars =>
            rw [htext] at hslot
            obtain rfl := Except.ok.inj hslot
            exact ⟨String.ofList chars, by rw [String.toList_ofList], rfl⟩
  | classRef name => simp [Keeps, slot, tag, ConstantPool.hiddenSlots, ConstantPool.isWide]
  | methodRef interface owner nameAndType =>
      cases interface <;> simp [Keeps, slot, tag, ConstantPool.hiddenSlots, ConstantPool.isWide]
  | plain tag payload =>
      rw [keeps_plain_iff]
      simp [slot, Constant.tag]

end Constant

namespace ConstantPool

-- The slots that constants fill from `filled` on, unless one of the texts is wrong.
def slotsFrom (filled : Nat) : List Constant → Except DecodeError (List Slot)
  | [] => .ok []
  | constant :: rest => do
    let slot ← constant.slot filled.toUInt16
    return slot :: hiddenSlots constant.tag ++ (← slotsFrom (filled + constant.width) rest)

theorem slotsFrom_append (filled : Nat) (front back : List Constant) :
    slotsFrom filled (front ++ back) = do
      let slots ← slotsFrom filled front
      return slots ++ (← slotsFrom (filled + ClassFile.slotCount front) back) := by
  induction front generalizing filled with
  | nil =>
      change slotsFrom filled back = do return [] ++ (← slotsFrom (filled + 0) back)
      simp only [List.nil_append, Nat.add_zero, bind_pure]
  | cons constant front ih =>
      have hcount : filled + ClassFile.slotCount (constant :: front) =
          filled + constant.width + ClassFile.slotCount front := (Nat.add_assoc ..).symm
      rw [List.cons_append, slotsFrom, slotsFrom, ih, hcount]
      simp only [bind_assoc, pure_bind, List.cons_append, List.append_assoc]

def ofConstants (constants : List Constant) : Except DecodeError ConstantPool := do
  return ⟨.unusable :: (← slotsFrom 1 constants)⟩

theorem slotsFrom_eq_ok_iff {filled : Nat} {constants : List Constant} {slots : List Slot} :
    slotsFrom filled constants = .ok slots ↔ Gathers Constant.Keeps constants slots := by
  induction constants generalizing filled slots with
  | nil =>
      rw [slotsFrom, Except.ok.injEq, gathers_nil]
      exact eq_comm
  | cons constant constants ih =>
      simp only [slotsFrom, Results.bind_eq_ok_iff, ih, gathers_cons,
        Constant.keeps_iff constant filled.toUInt16]
      constructor
      · rintro ⟨slot, hslot, rest, hrest, h⟩
        exact ⟨_, rest, ⟨slot, hslot, rfl⟩, hrest, (Except.ok.inj h).symm⟩
      · rintro ⟨_, rest, ⟨slot, hslot, rfl⟩, hrest, rfl⟩
        exact ⟨slot, hslot, rest, hrest, rfl⟩

theorem ofConstants_eq_ok_iff {constants : List Constant} {pool : ConstantPool} :
    ofConstants constants = .ok pool ↔ pool.Holds constants := by
  simp only [ofConstants, Results.bind_eq_ok_iff, slotsFrom_eq_ok_iff, Holds]
  constructor
  · rintro ⟨slots, hslots, h⟩
    exact ⟨slots, hslots, (Except.ok.inj h).symm⟩
  · rintro ⟨slots, hslots, rfl⟩
    exact ⟨slots, hslots, rfl⟩

theorem settles_textSlot {text : List UInt8} (hlt : text.length < 0x10000)
    (htext : ModifiedUtf8.decode? text = none) (index : UInt16) :
    Settles (readSlot 1 index) (Bytes.toBigEndian 2 text.length ++ text)
      (.error (.invalidUtf8 index)) := by
  have hlength : (UInt16.ofNat text.length).toNat = text.length := UInt16.toNat_ofNat_of_lt' hlt
  have hbehind : Settles (match ModifiedUtf8.decode? text with
      | some text => return Slot.utf8 (String.ofList text)
      | none => throw (.invalidUtf8 index)) [] (.error (.invalidUtf8 index)) := by
    rw [htext]
    exact settles_throw _
  have hread : Settles (readSlot 1 index)
      (Bytes.ofUInt16 (UInt16.ofNat text.length) ++ (text ++ [])) (.error (.invalidUtf8 index)) :=
    parses_u16.settles_bind (UInt16.ofNat text.length) rfl
      ((parses_bytes _).settles_bind text ⟨rfl, hlength.symm⟩ hbehind)
  rwa [List.append_nil, Bytes.ofUInt16, hlength] at hread

theorem settles_readSlot {constant : Constant} (hwell : constant.WellFormed) (index : UInt16)
    {behind : List UInt8} (hbytes : constant.bytes = constant.tag :: behind) :
    Settles (readSlot constant.tag index) behind (constant.slot index) := by
  cases hslot : constant.slot index with
  | ok slot =>
      have hkeeps := (constant.keeps_iff index _).mpr ⟨slot, hslot, rfl⟩
      exact (parses_readSlot constant.tag index).settles ⟨constant, hwell, hbytes, hkeeps⟩
  | error error =>
      obtain ⟨text, rfl, htext, rfl⟩ := Constant.exists_text_of_slot_eq_error hslot
      obtain rfl := (List.cons.inj hbytes).2
      exact settles_textSlot hwell htext index

theorem settles_readSlots {count filled : Nat} {constants : List Constant}
    (hwell : ∀ constant ∈ constants, constant.WellFormed)
    (hfills : FillsFrom count filled constants) :
    Settles (readSlots count filled) (constants.flatMap Constant.bytes)
      (slotsFrom filled constants) := by
  induction constants generalizing filled with
  | nil =>
      rw [readSlots, if_neg (Nat.not_lt.mpr hfills)]
      exact settles_pure []
  | cons constant constants ih =>
      obtain ⟨hlt, hfills⟩ := hfills
      obtain ⟨hfirst, hwell⟩ := List.forall_mem_cons.mp hwell
      obtain ⟨behind, hbytes⟩ := constant.exists_bytes_eq_tag_cons
      have hslot := settles_readSlot hfirst filled.toUInt16 hbytes
      have hrest := ih hwell hfills
      rw [width_eq_hiddenSlots] at hrest
      rw [readSlots, if_pos hlt, List.flatMap_cons, hbytes, List.cons_append, ← List.singleton_append,
        slotsFrom, width_eq_hiddenSlots]
      refine parses_u8.settles_bind constant.tag rfl (hslot.bind fun slot _ => ?_)
      cases hwide : isWide constant.tag with
      | true =>
          rw [hiddenSlots, if_pos hwide] at hrest ⊢
          exact hrest.map (slot :: .unusable :: ·)
      | false =>
          rw [hiddenSlots, hwide, if_neg Bool.false_ne_true] at hrest ⊢
          exact hrest.map (slot :: ·)

theorem settles_read {declared : UInt16} {constants : List Constant}
    (hwell : ∀ constant ∈ constants, constant.WellFormed)
    (hfills : ClassFile.Fills declared.toNat constants) :
    Settles ConstantPool.read (Bytes.ofUInt16 declared ++ constants.flatMap Constant.bytes)
      (ofConstants constants) := by
  rw [ClassFile.Fills, ← fillsFrom_iff] at hfills
  exact parses_u16.settles_bind declared rfl ((settles_readSlots hwell hfills).map fun slots =>
    ConstantPool.mk (.unusable :: slots))

end ConstantPool

-- The owners of the methods that a method calls.
def ClassMember.outcome (pool : ConstantPool) (method : ClassMember) :
    Except DecodeError (List String) := do
  return (← method.attributes.mapM fun info =>
    DecodedClass.scanAttribute pool info.name info.body).flatten

-- What a class file comes to: the first thing that is wrong with it is looked for among the texts,
-- then in the name of the class, and then in one method after the other.
def ClassFile.outcome (file : ClassFile) : Except DecodeError DecodedClass := do
  let pool ← ConstantPool.ofConstants file.constants
  let name ← pool.className file.thisClass
  let references ← file.methods.mapM (ClassMember.outcome pool)
  return ⟨ClassName.sourceForm name, references.flatten⟩

namespace DecodedClass

theorem settles_readMethodAttribute (pool : ConstantPool) {info : Attribute}
    (hwell : info.WellFormed) :
    Settles (readMethodAttribute pool) info.bytes (scanAttribute pool info.name info.body) := by
  rw [readMethodAttribute_eq, Attribute.bytes, List.append_assoc]
  refine parses_u16.settles_bind info.name rfl ?_
  have hbody : Settles (do Read.ofExcept (scanAttribute pool info.name (← sized)))
      (Bytes.toBigEndian 4 info.body.length ++ info.body ++ [])
      (scanAttribute pool info.name info.body) :=
    parses_sized.settles_bind info.body ⟨rfl, hwell⟩ (settles_ofExcept _)
  rwa [List.append_nil] at hbody

theorem settles_readMethod (pool : ConstantPool) {method : ClassMember} (hwell : method.WellFormed) :
    Settles (readMethod pool) method.bytes (method.outcome pool) := by
  have hattributes := Settles.table hwell.1 fun info hinfo =>
    settles_readMethodAttribute pool (hwell.2 info hinfo)
  refine (parses_skip 6).settles_bind () ?_ (hattributes.map List.flatten)
  simp only [List.length_append, Bytes.length_ofUInt16]

theorem settles_readName (pool : ConstantPool) (flags thisClass superClass : UInt16) :
    Settles (readName pool)
      (Bytes.ofUInt16 flags ++ Bytes.ofUInt16 thisClass ++ Bytes.ofUInt16 superClass)
      (do return ClassName.sourceForm (← pool.className thisClass)) := by
  rw [List.append_assoc]
  refine (parses_skip 2).settles_bind () (Bytes.length_ofUInt16 flags) ?_
  refine parses_u16.settles_bind thisClass rfl ?_
  refine (settles_ofExcept (pool.className thisClass)).bind fun name _ => ?_
  have hsuper : Settles (skip 2) (Bytes.ofUInt16 superClass) (.ok ()) :=
    (parses_skip 2).settles (Bytes.length_ofUInt16 superClass)
  exact hsuper.map fun _ => ClassName.sourceForm name

-- Behind the name of the class, only the methods can be found wrong.
theorem settles_members (pool : ConstantPool) (name : String) {file : ClassFile}
    (hwell : file.WellFormed) :
    Settles (do
        skipInterfaces
        let _ ← Read.table readField
        let references ← Read.table (readMethod pool)
        skipAttributes
        return DecodedClass.mk name references.flatten)
      (tableBytes Bytes.ofUInt16 file.interfaces ++ (tableBytes ClassMember.bytes file.fields ++
        (tableBytes ClassMember.bytes file.methods ++ tableBytes Attribute.bytes file.attributes)))
      (do return ⟨name, (← file.methods.mapM (ClassMember.outcome pool)).flatten⟩) := by
  obtain ⟨-, -, hinterfaces, hfields, hfieldsWell, hmethods, hmethodsWell, hattributes⟩ := hwell
  have hreferences := Settles.table hmethods fun method hmethod =>
    settles_readMethod pool (hmethodsWell method hmethod)
  have hskipped : Settles skipAttributes (tableBytes Attribute.bytes file.attributes) (.ok ()) :=
    parses_skipAttributes.settles ⟨file.attributes, rfl, hattributes⟩
  refine parses_skipInterfaces.settles_bind () ⟨file.interfaces, rfl, hinterfaces⟩ ?_
  refine parses_readField.passTable.settles_bind _ ⟨file.fields, rfl, rfl, hfields, hfieldsWell⟩ ?_
  exact hreferences.bind fun references _ =>
    hskipped.map fun _ => DecodedClass.mk name references.flatten

theorem settles_read {file : ClassFile} (hwell : file.WellFormed) :
    Settles read file.bytes file.outcome := by
  have hnamed (pool : ConstantPool) :=
    (settles_readName pool file.flags file.thisClass file.superClass).bind fun name _ =>
      settles_members pool name hwell
  simp only [bind_assoc, pure_bind] at hnamed
  obtain ⟨hconstants, hfills, -⟩ := hwell
  have hpool := (ConstantPool.settles_read hconstants hfills).bind fun pool _ => hnamed pool
  simp only [ClassFile.bytes, List.append_assoc] at hpool ⊢
  refine parses_readMark.settles_bind () rfl ?_
  exact (parses_skip 4).settles_bind () (Bytes.length_ofUInt32 file.version) hpool

theorem ofBytes_bytes_eq_outcome {file : ClassFile} (hwell : file.WellFormed) :
    ofBytes file.bytes = file.outcome := by
  have hread := settles_read hwell
  cases houtcome : file.outcome with
  | ok decoded =>
      rw [houtcome] at hread
      have hrun := hread 0 []
      rw [List.append_nil] at hrun
      exact ofBytes_eq_ok_iff_startingAt.mpr ⟨_, hrun⟩
  | error error =>
      rw [houtcome] at hread
      obtain ⟨after, hrun⟩ := hread 0 []
      rw [List.append_nil] at hrun
      exact ofBytes_of_startingAt hrun

end DecodedClass

end CallCensus
