import CallCensus.Proofs.ClassFile.Denotation
import CallCensus.Proofs.ClassFile.Reading
import CallCensus.Proofs.Text.ModifiedUtf8

namespace CallCensus

open Read

-- The slots that a constant with this tag takes behind its first.
def ConstantPool.hiddenSlots (tag : UInt8) : List Slot :=
  if ConstantPool.isWide tag then [.unusable] else []

theorem ConstantPool.isWide_iff {tag : UInt8} : isWide tag ↔ tag = 5 ∨ tag = 6 := by
  simp [isWide]

-- The sizes that are skipped are those of the plain constants.
theorem ConstantPool.plainSize?_eq_lookup (tag : UInt8) :
    plainSize? tag = Constant.plainSizes.lookup tag := by
  have hall : ∀ number : Fin 256, plainSize? (UInt8.ofNat number.val) =
      Constant.plainSizes.lookup (UInt8.ofNat number.val) := by decide +kernel
  have htag := hall ⟨tag.toNat, tag.toNat_lt⟩
  rwa [UInt8.ofNat_toNat] at htag

-- A constant as it is read: behind its tag stands the rest of it, and `slot` is kept of it.
structure Constant.ReadAs (constant : Constant) (tag : UInt8) (slot : Slot) (bytes : List UInt8) :
    Prop where
  wellFormed : constant.WellFormed
  bytes : constant.bytes = tag :: bytes
  slots : constant.Keeps (slot :: ConstantPool.hiddenSlots tag)

theorem Constant.keeps_plain_iff (tag : UInt8) (payload : List UInt8) (slots : List Slot) :
    (Constant.plain tag payload).Keeps slots ↔ slots = .other :: ConstantPool.hiddenSlots tag := by
  have hslots : (if tag = 5 ∨ tag = 6 then [Slot.other, .unusable] else [.other]) =
      .other :: ConstantPool.hiddenSlots tag := by
    simp only [← ConstantPool.isWide_iff, ConstantPool.hiddenSlots]
    split <;> rfl
  rw [Keeps, hslots]

def Constant.tag : Constant → UInt8
  | .utf8 _ => 1
  | .classRef _ => 7
  | .methodRef interface _ _ => if interface then 11 else 10
  | .plain tag _ => tag

theorem Constant.exists_bytes_eq_tag_cons (constant : Constant) :
    ∃ behind, constant.bytes = constant.tag :: behind := by
  cases constant <;> exact ⟨_, rfl⟩

-- The tag tells the kinds of constants apart.
theorem Constant.bytes_eq_cons {constant : Constant} {tag : UInt8} {bytes : List UInt8}
    (hwell : constant.WellFormed) (h : constant.bytes = tag :: bytes) :
    (tag = 1 ∧ ∃ text, constant = .utf8 text ∧ bytes = Bytes.toBigEndian 2 text.length ++ text) ∨
    (tag = 7 ∧ ∃ name, constant = .classRef name ∧ bytes = Bytes.ofUInt16 name) ∨
    ((tag = 10 ∨ tag = 11) ∧ ∃ interface owner nameAndType,
      constant = .methodRef interface owner nameAndType ∧
      bytes = Bytes.ofUInt16 owner ++ Bytes.ofUInt16 nameAndType) ∨
    (constant = .plain tag bytes ∧ ConstantPool.plainSize? tag = some bytes.length) := by
  cases constant with
  | utf8 text =>
      obtain ⟨rfl, rfl⟩ := List.cons.inj h
      exact .inl ⟨rfl, text, rfl, rfl⟩
  | classRef name =>
      obtain ⟨rfl, rfl⟩ := List.cons.inj h
      exact .inr (.inl ⟨rfl, name, rfl, rfl⟩)
  | methodRef interface owner nameAndType =>
      obtain ⟨rfl, rfl⟩ := List.cons.inj h
      refine .inr (.inr (.inl ⟨?_, interface, owner, nameAndType, rfl, rfl⟩))
      cases interface with
      | false => exact .inl rfl
      | true => exact .inr rfl
  | plain tag' payload =>
      obtain ⟨rfl, rfl⟩ := List.cons.inj h
      exact .inr (.inr (.inr ⟨rfl, (ConstantPool.plainSize?_eq_lookup tag').trans hwell⟩))

namespace ConstantPool

theorem parses_textSlot (index : UInt16) :
    Parses (do
      let length ← u16
      match ModifiedUtf8.decode? (← bytes length.toNat) with
      | some text => return .utf8 (String.ofList text)
      | none => throw (.invalidUtf8 index))
    fun bytes slot => ∃ text : String, (ModifiedUtf8.encode text.toList).length < 0x10000 ∧
      bytes = Bytes.toBigEndian 2 (ModifiedUtf8.encode text.toList).length ++
        ModifiedUtf8.encode text.toList ∧ slot = Slot.utf8 text := by
  have hslot (spelled : List UInt8) :
      Parses (match ModifiedUtf8.decode? spelled with
        | some text => return Slot.utf8 (String.ofList text)
        | none => throw (.invalidUtf8 index))
      fun bytes slot => ∃ text : String, bytes = [] ∧ spelled = ModifiedUtf8.encode text.toList ∧
        slot = Slot.utf8 text := by
    simp only [← ModifiedUtf8.decode?_eq_some_iff]
    cases hspelled : ModifiedUtf8.decode? spelled with
    | none => exact (parses_throw _).congr (by simp)
    | some chars =>
        apply (parses_pure _).congr
        intro bytes slot
        constructor
        · rintro ⟨rfl, rfl⟩
          exact ⟨String.ofList chars, rfl, by simp, rfl⟩
        · rintro ⟨text, rfl, hchars, rfl⟩
          rw [Option.some.inj hchars, String.ofList_toList]
          exact ⟨rfl, rfl⟩
  apply (parses_u16.bind fun length => (parses_bytes length.toNat).bind hslot).congr
  intro bytes slot
  constructor
  · rintro ⟨_, _, length, rfl, rfl, _, _, _, rfl, ⟨rfl, hlength⟩, text, rfl, rfl, rfl⟩
    refine ⟨text, hlength ▸ length.toNat_lt, ?_, rfl⟩
    rw [hlength, List.append_nil, Bytes.ofUInt16]
  · rintro ⟨text, hlt, rfl, rfl⟩
    generalize hspelled : ModifiedUtf8.encode text.toList = spelled at *
    have hlength : (UInt16.ofNat spelled.length).toNat = spelled.length :=
      UInt16.toNat_ofNat_of_lt' hlt
    exact ⟨_, _, UInt16.ofNat spelled.length, rfl, by rw [Bytes.ofUInt16, hlength],
      spelled, [], spelled, by rw [List.append_nil], ⟨rfl, hlength.symm⟩, text, rfl,
      hspelled.symm, rfl⟩

section Kinds

variable {tag : UInt8} {slot : Slot} {bytes : List UInt8}

theorem readAs_text_iff : (∃ constant : Constant, constant.ReadAs 1 slot bytes) ↔
    ∃ text : String, (ModifiedUtf8.encode text.toList).length < 0x10000 ∧
      bytes = Bytes.toBigEndian 2 (ModifiedUtf8.encode text.toList).length ++
        ModifiedUtf8.encode text.toList ∧ slot = Slot.utf8 text := by
  constructor
  · rintro ⟨constant, hwell, hbytes, hslots⟩
    obtain ⟨-, text, rfl, rfl⟩ | ⟨htag, -⟩ | ⟨htag, -⟩ | ⟨-, hsize⟩ :=
      Constant.bytes_eq_cons hwell hbytes
    · obtain ⟨text, rfl, hslot⟩ := hslots
      exact ⟨text, hwell, rfl, (List.cons.inj hslot).1⟩
    · simp at htag
    · simp at htag
    · simp [plainSize?] at hsize
  · rintro ⟨text, hlt, rfl, rfl⟩
    exact ⟨.utf8 (ModifiedUtf8.encode text.toList), hlt, rfl, text, rfl, rfl⟩

theorem readAs_class_iff : (∃ constant : Constant, constant.ReadAs 7 slot bytes) ↔
    ∃ name, bytes = Bytes.ofUInt16 name ∧ slot = .classRef name := by
  constructor
  · rintro ⟨constant, hwell, hbytes, hslots⟩
    obtain ⟨htag, -⟩ | ⟨-, name, rfl, rfl⟩ | ⟨htag, -⟩ | ⟨-, hsize⟩ :=
      Constant.bytes_eq_cons hwell hbytes
    · simp at htag
    · exact ⟨name, rfl, (List.cons.inj hslots).1⟩
    · simp at htag
    · simp [plainSize?] at hsize
  · rintro ⟨name, rfl, rfl⟩
    exact ⟨.classRef name, trivial, rfl, rfl⟩

theorem readAs_method_iff (htag : tag = 10 ∨ tag = 11) :
    (∃ constant : Constant, constant.ReadAs tag slot bytes) ↔
      ∃ owner nameAndType, bytes = Bytes.ofUInt16 owner ++ Bytes.ofUInt16 nameAndType ∧
        slot = .methodRef owner := by
  constructor
  · rintro ⟨constant, hwell, hbytes, hslots⟩
    obtain ⟨h, -⟩ | ⟨h, -⟩ | ⟨-, interface, owner, nameAndType, rfl, rfl⟩ | ⟨-, h⟩ :=
      Constant.bytes_eq_cons hwell hbytes
    · simp [h] at htag
    · simp [h] at htag
    · exact ⟨owner, nameAndType, rfl, (List.cons.inj hslots).1⟩
    · rcases htag with rfl | rfl <;> simp [plainSize?] at h
  · rintro ⟨owner, nameAndType, rfl, rfl⟩
    have hnarrow : hiddenSlots tag = [] := by
      rcases htag with rfl | rfl <;> rfl
    refine ⟨.methodRef (tag = 11) owner nameAndType, trivial, ?_, ?_⟩
    · rcases htag with rfl | rfl <;> rfl
    · rw [hnarrow]
      rfl

theorem readAs_plain_iff (htext : tag ≠ 1) (hclass : tag ≠ 7) (hmethod : ¬ (tag = 10 ∨ tag = 11)) :
    (∃ constant : Constant, constant.ReadAs tag slot bytes) ↔
      plainSize? tag = some bytes.length ∧ slot = .other := by
  constructor
  · rintro ⟨constant, hwell, hbytes, hslots⟩
    obtain ⟨h, -⟩ | ⟨h, -⟩ | ⟨h, -⟩ | ⟨rfl, hsize⟩ := Constant.bytes_eq_cons hwell hbytes
    · exact absurd h htext
    · exact absurd h hclass
    · exact absurd h hmethod
    · exact ⟨hsize, (List.cons.inj ((Constant.keeps_plain_iff ..).mp hslots)).1⟩
  · rintro ⟨hsize, rfl⟩
    exact ⟨.plain tag bytes, (plainSize?_eq_lookup tag).symm.trans hsize, rfl,
      (Constant.keeps_plain_iff ..).mpr rfl⟩

end Kinds

theorem parses_methodSlot :
    Parses (do
      let owner ← u16
      skip 2
      return Slot.methodRef owner)
    fun bytes slot => ∃ owner nameAndType,
      bytes = Bytes.ofUInt16 owner ++ Bytes.ofUInt16 nameAndType ∧ slot = .methodRef owner := by
  apply (parses_u16.bind fun owner => (parses_skip 2).map fun _ => Slot.methodRef owner).congr
  intro bytes slot
  constructor
  · rintro ⟨_, back, owner, rfl, rfl, _, hlength, rfl⟩
    exact ⟨owner, _, by rw [Bytes.ofUInt16_bigEndian hlength], rfl⟩
  · rintro ⟨owner, nameAndType, rfl, rfl⟩
    exact ⟨_, _, owner, rfl, rfl, (), Bytes.length_ofUInt16 nameAndType, rfl⟩

theorem parses_readSlot (tag : UInt8) (index : UInt16) :
    Parses (readSlot tag index) fun bytes slot =>
      ∃ constant : Constant, constant.ReadAs tag slot bytes := by
  unfold readSlot
  split
  · rename_i htag
    obtain rfl : tag = 1 := UInt8.toNat_inj.mp htag
    exact (parses_textSlot index).congr fun _ _ => readAs_text_iff.symm
  · rename_i htag
    obtain rfl : tag = 7 := UInt8.toNat_inj.mp htag
    exact (parses_u16.map Slot.classRef).congr fun _ _ => readAs_class_iff.symm
  · rename_i htag
    have hmethod : tag = 10 ∨ tag = 11 := .inl (UInt8.toNat_inj.mp htag)
    exact parses_methodSlot.congr fun _ _ => (readAs_method_iff hmethod).symm
  · rename_i htag
    have hmethod : tag = 10 ∨ tag = 11 := .inr (UInt8.toNat_inj.mp htag)
    exact parses_methodSlot.congr fun _ _ => (readAs_method_iff hmethod).symm
  · rename_i htext hclass hvirtual hinterface
    have hmethod : ¬ (tag = 10 ∨ tag = 11) := by
      rintro (rfl | rfl)
      · exact hvirtual rfl
      · exact hinterface rfl
    have hplain {bytes : List UInt8} {slot : Slot} :
        (∃ constant : Constant, constant.ReadAs tag slot bytes) ↔
          plainSize? tag = some bytes.length ∧ slot = .other :=
      readAs_plain_iff (mt (congrArg UInt8.toNat) htext) (mt (congrArg UInt8.toNat) hclass) hmethod
    split
    · rename_i size hsize
      apply ((parses_skip size).map fun _ => Slot.other).congr
      intro bytes slot
      rw [hplain, hsize, Option.some.injEq]
      constructor
      · rintro ⟨_, rfl, rfl⟩
        exact ⟨rfl, rfl⟩
      · rintro ⟨rfl, rfl⟩
        exact ⟨(), rfl, rfl⟩
    · rename_i hsize
      apply (parses_throw _).congr
      intro bytes slot
      rw [hplain, hsize]
      simp

-- Constants fill the slots from `filled` on, each of them starting below `count`.
def FillsFrom (count : Nat) : Nat → List Constant → Prop
  | filled, [] => count ≤ filled
  | filled, constant :: rest => filled < count ∧ FillsFrom count (filled + constant.width) rest

theorem fillsFrom_iff (count filled : Nat) (constants : List Constant) :
    FillsFrom count filled constants ↔
      count ≤ filled + ClassFile.slotCount constants ∧
        (constants ≠ [] → filled + ClassFile.slotCount constants.dropLast < count) := by
  induction constants generalizing filled with
  | nil => simp [FillsFrom, ClassFile.slotCount]
  | cons constant rest ih =>
      rw [FillsFrom, ih]
      cases rest with
      | nil =>
          simp only [ClassFile.slotCount, List.foldr_cons, List.foldr_nil, List.dropLast_singleton]
          simp only [ne_eq, not_true_eq_false, false_implies, reduceCtorEq, not_false_eq_true,
            forall_const, and_true]
          omega
      | cons next rest =>
          have hlast : (constant :: next :: rest).dropLast = constant :: (next :: rest).dropLast := rfl
          simp only [hlast, ClassFile.slotCount, List.foldr_cons, ne_eq, reduceCtorEq,
            not_false_eq_true, forall_const]
          omega

-- What the constants of a pool mean: slots that are filled from `filled` on.
def SlotsOf (count filled : Nat) (constants : List Constant) (slots : List Slot) : Prop :=
  FillsFrom count filled constants ∧ (∀ constant ∈ constants, constant.WellFormed) ∧
    Gathers Constant.Keeps constants slots

theorem slotsOf_cons (count filled : Nat) (constant : Constant) (rest : List Constant)
    (slots : List Slot) :
    SlotsOf count filled (constant :: rest) slots ↔
      filled < count ∧ constant.WellFormed ∧ ∃ own others, constant.Keeps own ∧
        SlotsOf count (filled + constant.width) rest others ∧ slots = own ++ others := by
  rw [SlotsOf, gathers_cons, List.forall_mem_cons]
  constructor
  · rintro ⟨⟨hlt, hfills⟩, ⟨hfirst, hrest⟩, own, others, hown, hothers, rfl⟩
    exact ⟨hlt, hfirst, own, others, hown, ⟨hfills, hrest, hothers⟩, rfl⟩
  · rintro ⟨hlt, hfirst, own, others, hown, ⟨hfills, hrest, hothers⟩, rfl⟩
    exact ⟨⟨hlt, hfills⟩, ⟨hfirst, hrest⟩, own, others, hown, hothers, rfl⟩

theorem width_eq_hiddenSlots (constant : Constant) :
    constant.width = 1 + (hiddenSlots constant.tag).length := by
  cases constant with
  | utf8 text => rfl
  | classRef name => rfl
  | methodRef interface owner nameAndType => cases interface <;> rfl
  | plain tag payload =>
      simp only [Constant.width, Constant.tag, ← isWide_iff, hiddenSlots]
      by_cases hwide : isWide tag <;> simp [hwide]

theorem width_eq_of_readAs {constant : Constant} {tag : UInt8} {slot : Slot} {bytes : List UInt8}
    (h : constant.ReadAs tag slot bytes) : constant.width = 1 + (hiddenSlots tag).length := by
  obtain ⟨behind, hbytes⟩ := constant.exists_bytes_eq_tag_cons
  rw [width_eq_hiddenSlots, (List.cons.inj (hbytes.symm.trans h.bytes)).1]

theorem exists_readAs {constant : Constant} {own : List Slot} (hwell : constant.WellFormed)
    (hslots : constant.Keeps own) :
    ∃ tag slot bytes, constant.ReadAs tag slot bytes ∧ own = slot :: hiddenSlots tag := by
  cases constant with
  | utf8 text =>
      obtain ⟨text, rfl, rfl⟩ := hslots
      exact ⟨_, _, _, ⟨hwell, rfl, text, rfl, rfl⟩, rfl⟩
  | classRef name =>
      obtain rfl := hslots
      exact ⟨_, _, _, ⟨hwell, rfl, rfl⟩, rfl⟩
  | methodRef interface owner nameAndType =>
      obtain rfl := hslots
      cases interface <;> exact ⟨_, _, _, ⟨hwell, rfl, rfl⟩, rfl⟩
  | plain tag payload =>
      obtain rfl := (Constant.keeps_plain_iff ..).mp hslots
      exact ⟨tag, .other, payload, ⟨hwell, rfl, hslots⟩, rfl⟩

theorem parses_readSlots (count filled : Nat) :
    Parses (readSlots count filled)
      (Written (List.flatMap Constant.bytes) (SlotsOf count filled)) := by
  induction filled using readSlots.induct count with
  | case1 filled hlt ihwide ihnarrow =>
      rw [readSlots, if_pos hlt]
      have hrest (tag : UInt8) (slot : Slot) :
          Parses (if isWide tag then
              return slot :: .unusable :: (← readSlots count (filled + 2))
            else return slot :: (← readSlots count (filled + 1)))
          fun bytes slots => ∃ others,
            Written (List.flatMap Constant.bytes)
              (SlotsOf count (filled + (1 + (hiddenSlots tag).length))) bytes others ∧
            slots = slot :: hiddenSlots tag ++ others := by
        cases hwide : isWide tag with
        | true => simpa [hiddenSlots, hwide] using ihwide.map (slot :: .unusable :: ·)
        | false => simpa [hiddenSlots, hwide] using ihnarrow.map (slot :: ·)
      apply (parses_u8.bind fun tag =>
        (parses_readSlot tag filled.toUInt16).bind fun slot => hrest tag slot).congr
      intro bytes slots
      constructor
      · rintro ⟨_, _, tag, rfl, rfl, front, _, slot, rfl, ⟨constant, h⟩, others,
          ⟨constants, rfl, hothers⟩, rfl⟩
        refine ⟨constant :: constants, ?_, (slotsOf_cons ..).mpr ⟨hlt, h.wellFormed, _, others,
          h.slots, ?_, rfl⟩⟩
        · rw [List.flatMap_cons, h.bytes]
          rfl
        · rwa [width_eq_of_readAs h]
      · rintro ⟨constants, rfl, hslots⟩
        cases constants with
        | nil => exact absurd hslots.1 (Nat.not_le.mpr hlt)
        | cons constant constants =>
            obtain ⟨-, hwell, own, others, hown, hothers, rfl⟩ := (slotsOf_cons ..).mp hslots
            obtain ⟨tag, slot, bytes, h, rfl⟩ := exists_readAs hwell hown
            rw [width_eq_of_readAs h] at hothers
            refine ⟨[tag], bytes ++ constants.flatMap Constant.bytes, tag, ?_, rfl,
              bytes, _, slot, rfl, ⟨constant, h⟩, others, ⟨constants, rfl, hothers⟩, rfl⟩
            rw [List.flatMap_cons, h.bytes]
            rfl
  | case2 filled hnlt =>
      rw [readSlots, if_neg hnlt]
      apply (parses_pure []).congr
      intro bytes slots
      constructor
      · rintro ⟨rfl, rfl⟩
        exact ⟨[], rfl, Nat.not_lt.mp hnlt, by simp, gathers_nil.mpr rfl⟩
      · rintro ⟨constants, rfl, hfills, -, hslots⟩
        cases constants with
        | nil => exact ⟨rfl, gathers_nil.mp hslots⟩
        | cons constant constants => exact absurd hfills.1 hnlt

end ConstantPool

theorem ConstantPool.parses_read :
    Parses ConstantPool.read fun bytes pool => ∃ declared constants,
      bytes = Bytes.ofUInt16 declared ++ constants.flatMap Constant.bytes ∧
      ClassFile.Fills declared.toNat constants ∧ (∀ constant ∈ constants, constant.WellFormed) ∧
        pool.Holds constants := by
  apply (parses_u16.bind fun count =>
    (parses_readSlots count.toNat 1).map fun slots => ConstantPool.mk (.unusable :: slots)).congr
  intro bytes pool
  simp only [ClassFile.Fills, ← fillsFrom_iff]
  constructor
  · rintro ⟨_, _, declared, rfl, rfl, slots, ⟨constants, rfl, hfills, hwell, hslots⟩, rfl⟩
    exact ⟨declared, constants, rfl, hfills, hwell, slots, hslots, rfl⟩
  · rintro ⟨declared, constants, rfl, hfills, hwell, slots, hslots, rfl⟩
    exact ⟨_, _, declared, rfl, rfl, slots, ⟨constants, rfl, hfills, hwell, hslots⟩, rfl⟩

end CallCensus
