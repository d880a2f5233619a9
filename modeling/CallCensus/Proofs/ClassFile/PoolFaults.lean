import CallCensus.Proofs.ClassFile.Outcomes
import CallCensus.Proofs.ClassFile.Literals

namespace CallCensus

open Read

namespace Read

variable {α β : Type} {read : Read α} {faults others : List UInt8 → DecodeError → Prop}

-- The byte strings that a reader finds wrong, each with what is wrong with it. They are found wrong
-- whatever stands behind them, and no others are.
def Rejects (read : Read α) (faults : List UInt8 → DecodeError → Prop) : Prop :=
  ∀ cursor error, error.Definite → ((read.startingAt cursor).1 = .error error ↔
    ∃ front back, faults front error ∧ cursor.rest = front ++ back)

theorem Rejects.congr (h : Rejects read faults)
    (heq : ∀ bytes error, faults bytes error ↔ others bytes error) : Rejects read others := by
  intro cursor error herror
  simp only [h cursor error herror, heq]

theorem rejects_pure (value : α) : Rejects (pure value) fun _ _ => False := by
  intro cursor error _
  simp [startingAt_pure]

theorem rejects_throw (error : DecodeError) :
    Rejects (throw error : Read α) fun bytes found => bytes = [] ∧ found = error := by
  intro cursor found _
  rw [startingAt_throw]
  constructor
  · intro h
    exact ⟨[], cursor.rest, ⟨rfl, (Except.error.inj h).symm⟩, rfl⟩
  · rintro ⟨front, back, ⟨-, rfl⟩, -⟩
    rfl

-- Too few bytes are not wrong: more of them may follow.
theorem rejects_bytes (count : Nat) : Rejects (bytes count) fun _ _ => False := by
  intro cursor error herror
  rw [startingAt_bytes]
  cases Bytes.cut count cursor.rest with
  | ok parts => simp
  | error missing =>
      simp only [false_and, exists_false, iff_false]
      intro h
      obtain rfl := Except.error.inj h
      exact herror

theorem fst_startingAt_bind_eq_error_iff (next : α → Read β) (cursor : Cursor)
    (error : DecodeError) :
    ((read >>= next).startingAt cursor).1 = .error error ↔
      (read.startingAt cursor).1 = .error error ∨
        ∃ value after, read.startingAt cursor = (.ok value, after) ∧
          ((next value).startingAt after).1 = .error error := by
  rw [startingAt_bind]
  cases hrun : read.startingAt cursor with
  | mk result after => cases result <;> simp

-- What the first of two readers takes stands in front of what the second finds wrong.
theorem Parses.rejects_bind {language : List UInt8 → α → Prop} {next : α → Read β}
    {further : α → List UInt8 → DecodeError → Prop} (hparses : Parses read language)
    (hread : Rejects read faults) (hnext : ∀ value, Rejects (next value) (further value)) :
    Rejects (read >>= next) fun bytes error => faults bytes error ∨
      ∃ front back value, bytes = front ++ back ∧ language front value ∧
        further value back error := by
  intro cursor error herror
  rw [fst_startingAt_bind_eq_error_iff, hread cursor error herror]
  constructor
  · rintro (⟨front, back, hfront, hrest⟩ | ⟨value, after, hvalue, hfails⟩)
    · exact ⟨front, back, .inl hfront, hrest⟩
    · obtain ⟨front, hfront, hrest, -⟩ := (hparses cursor value after).mp hvalue
      obtain ⟨middle, back, hmiddle, hafter⟩ := (hnext value after error herror).mp hfails
      refine ⟨front ++ middle, back, .inr ⟨front, middle, value, rfl, hfront, hmiddle⟩, ?_⟩
      rw [hrest, hafter, List.append_assoc]
  · rintro ⟨_, back, hfaulty | ⟨front, middle, value, rfl, hfront, hmiddle⟩, hrest⟩
    · exact .inl ⟨_, back, hfaulty, hrest⟩
    · rw [List.append_assoc] at hrest
      have hvalue := (hparses cursor value ⟨cursor.position + front.length, middle ++ back⟩).mpr
        ⟨front, hfront, hrest, rfl⟩
      exact .inr ⟨value, _, hvalue, (hnext value _ error herror).mpr ⟨middle, back, hmiddle, rfl⟩⟩

theorem Parses.rejects_map {language : List UInt8 → α → Prop} (hparses : Parses read language)
    (hread : Rejects read faults) (f : α → β) : Rejects (do return f (← read)) faults := by
  apply (hparses.rejects_bind hread fun value => rejects_pure (f value)).congr
  simp

theorem rejects_u8 : Rejects u8 fun _ _ => False :=
  (parses_bytes 1).rejects_map (rejects_bytes 1) _

theorem rejects_u16 : Rejects u16 fun _ _ => False :=
  (parses_bytes 2).rejects_map (rejects_bytes 2) _

theorem rejects_skip (count : Nat) : Rejects (skip count) fun _ _ => False :=
  (parses_bytes count).rejects_map (rejects_bytes count) _

end Read

-- What can be wrong with the constant in a slot: that it is a text but not in the modified form, or
-- that no constant has its tag.
inductive Constant.Faulty (index : UInt16) : List UInt8 → DecodeError → Prop where
  | text {text : List UInt8} (hwell : (Constant.utf8 text).WellFormed)
      (htext : ModifiedUtf8.decode? text = none) :
      Faulty index (Constant.utf8 text).bytes (.invalidUtf8 index)
  | tag {tag : UInt8} (htag : ∀ constant : Constant, constant.WellFormed → constant.tag ≠ tag) :
      Faulty index [tag] (.unknownConstantTag tag index)

theorem Constant.faulty_cons_iff {index : UInt16} {tag : UInt8} {bytes : List UInt8}
    {error : DecodeError} :
    Faulty index (tag :: bytes) error ↔
      (tag = 1 ∧ error = .invalidUtf8 index ∧ ∃ text : List UInt8, text.length < 0x10000 ∧
        ModifiedUtf8.decode? text = none ∧ bytes = Bytes.toBigEndian 2 text.length ++ text) ∨
      (bytes = [] ∧ error = .unknownConstantTag tag index ∧
        ∀ constant : Constant, constant.WellFormed → constant.tag ≠ tag) := by
  constructor
  · intro h
    generalize hall : tag :: bytes = all at h
    cases h with
    | @text text hwell htext =>
        obtain ⟨rfl, rfl⟩ := List.cons.inj hall
        exact .inl ⟨rfl, rfl, text, hwell, htext, rfl⟩
    | tag htag =>
        obtain ⟨rfl, rfl⟩ := List.cons.inj hall
        exact .inr ⟨rfl, rfl, htag⟩
  · rintro (⟨rfl, rfl, text, hwell, htext, rfl⟩ | ⟨rfl, rfl, htag⟩)
    · exact .text hwell htext
    · exact .tag htag

theorem Constant.faulty_unknownTag_iff {index found : UInt16} {tag : UInt8} {bytes : List UInt8} :
    Faulty index bytes (.unknownConstantTag tag found) ↔
      found = index ∧ bytes = [tag] ∧
        ∀ constant : Constant, constant.WellFormed → constant.tag ≠ tag := by
  constructor
  · intro h
    cases h with
    | tag htag => exact ⟨rfl, rfl, htag⟩
  · rintro ⟨rfl, rfl, htag⟩
    exact .tag htag

theorem Constant.faulty_invalidUtf8_iff {index found : UInt16} {bytes : List UInt8} :
    Faulty index bytes (.invalidUtf8 found) ↔
      found = index ∧ ∃ text, bytes = (Constant.utf8 text).bytes ∧
        (Constant.utf8 text).WellFormed ∧ ModifiedUtf8.decode? text = none := by
  constructor
  · intro h
    cases h with
    | @text text hwell htext => exact ⟨rfl, text, rfl, hwell, htext⟩
  · rintro ⟨rfl, text, rfl, hwell, htext⟩
    exact .text hwell htext

theorem Constant.Faulty.exists_tag {index : UInt16} {bytes : List UInt8} {error : DecodeError}
    (h : Faulty index bytes error) : ∃ tag behind, bytes = tag :: behind := by
  cases h with
  | text hwell htext => exact ⟨1, _, rfl⟩
  | @tag tag htag => exact ⟨tag, [], rfl⟩

namespace ConstantPool

theorem rejects_spelled (index : UInt16) (spelled : List UInt8) :
    Rejects (match ModifiedUtf8.decode? spelled with
      | some text => return Slot.utf8 (String.ofList text)
      | none => throw (.invalidUtf8 index))
    fun bytes error => bytes = [] ∧ ModifiedUtf8.decode? spelled = none ∧
      error = .invalidUtf8 index := by
  cases ModifiedUtf8.decode? spelled with
  | none => exact (rejects_throw _).congr (by simp)
  | some text => exact (rejects_pure _).congr (by simp)

theorem rejects_textSlot (index : UInt16) :
    Rejects (readSlot 1 index) fun bytes error => Constant.Faulty index (1 :: bytes) error := by
  apply (parses_u16.rejects_bind rejects_u16 fun length => (parses_bytes length.toNat).rejects_bind
    (rejects_bytes length.toNat) (rejects_spelled index)).congr
  intro bytes error
  rw [Constant.faulty_cons_iff]
  constructor
  · rintro (hnever | ⟨_, _, length, rfl, rfl, hnever |
      ⟨_, _, text, rfl, ⟨rfl, hlength⟩, rfl, htext, rfl⟩⟩)
    · exact False.elim hnever
    · exact False.elim hnever
    · refine .inl ⟨rfl, rfl, _, hlength ▸ length.toNat_lt, htext, ?_⟩
      rw [hlength, List.append_nil, Bytes.ofUInt16]
  · rintro (⟨-, rfl, text, hlt, htext, rfl⟩ | ⟨-, -, htag⟩)
    · have hlength : (UInt16.ofNat text.length).toNat = text.length :=
        UInt16.toNat_ofNat_of_lt' hlt
      exact .inr ⟨_, text, UInt16.ofNat text.length, rfl, by rw [Bytes.ofUInt16, hlength],
        .inr ⟨text, [], text, by rw [List.append_nil], ⟨rfl, hlength.symm⟩, rfl, htext, rfl⟩⟩
    · exact absurd rfl (htag (.utf8 []) (Nat.zero_lt_succ _))

-- A constant of another kind than a text is never found wrong.
theorem not_faulty_of_tag {constant : Constant} (hwell : constant.WellFormed)
    (htext : constant.tag ≠ 1) (index : UInt16) (bytes : List UInt8) (error : DecodeError) :
    ¬ Constant.Faulty index (constant.tag :: bytes) error := by
  rw [Constant.faulty_cons_iff]
  rintro (⟨htag, -⟩ | ⟨-, -, htag⟩)
  · exact htext htag
  · exact htag constant hwell rfl

theorem tag_eq_of_wellFormed {constant : Constant} (hwell : constant.WellFormed) :
    constant.tag = 1 ∨ constant.tag = 7 ∨ (constant.tag = 10 ∨ constant.tag = 11) ∨
      ∃ size, plainSize? constant.tag = some size := by
  cases constant with
  | utf8 text => exact .inl rfl
  | classRef name => exact .inr (.inl rfl)
  | methodRef interface owner nameAndType => cases interface <;> simp [Constant.tag]
  | plain tag payload =>
      exact .inr (.inr (.inr ⟨payload.length, (plainSize?_eq_lookup tag).trans hwell⟩))

theorem rejects_methodSlot :
    Rejects (do
      let owner ← u16
      skip 2
      return Slot.methodRef owner) fun _ _ => False := by
  apply (parses_u16.rejects_bind rejects_u16 fun owner =>
    (parses_skip 2).rejects_map (rejects_skip 2) fun _ => Slot.methodRef owner).congr
  simp

theorem rejects_readSlot (tag : UInt8) (index : UInt16) :
    Rejects (readSlot tag index) fun bytes error => Constant.Faulty index (tag :: bytes) error := by
  have hknown (read : Read Slot) (constant : Constant) (hwell : constant.WellFormed)
      (hne : constant.tag ≠ 1) (hrejects : Rejects read fun _ _ => False) :
      Rejects read fun bytes error => Constant.Faulty index (constant.tag :: bytes) error :=
    hrejects.congr fun bytes error =>
      iff_of_false id (not_faulty_of_tag hwell hne index bytes error)
  by_cases htext : tag = 1
  · rw [htext]
    exact rejects_textSlot index
  have hnumber : tag.toNat ≠ 1 := fun h => htext (UInt8.toNat_inj.mp h)
  unfold readSlot
  split
  · contradiction
  · rename_i htag
    obtain rfl : tag = 7 := UInt8.toNat_inj.mp htag
    exact hknown _ (.classRef 0) trivial htext (parses_u16.rejects_map rejects_u16 Slot.classRef)
  · rename_i htag
    obtain rfl : tag = 10 := UInt8.toNat_inj.mp htag
    exact hknown _ (.methodRef false 0 0) trivial htext rejects_methodSlot
  · rename_i htag
    obtain rfl : tag = 11 := UInt8.toNat_inj.mp htag
    exact hknown _ (.methodRef true 0 0) trivial htext rejects_methodSlot
  · rename_i hclass hvirtual hinterface
    split
    · rename_i size hsize
      have hwell : (Constant.plain tag (List.replicate size 0)).WellFormed := by
        rw [Constant.WellFormed, ← plainSize?_eq_lookup, hsize, List.length_replicate]
      exact hknown _ _ hwell htext
        ((parses_skip size).rejects_map (rejects_skip size) fun _ => Slot.other)
    · rename_i hsize
      have hunknown (constant : Constant) (hwell : constant.WellFormed) : constant.tag ≠ tag := by
        rintro rfl
        obtain htag | htag | (htag | htag) | ⟨size, htag⟩ := tag_eq_of_wellFormed hwell
        · exact htext htag
        · exact hclass (congrArg UInt8.toNat htag)
        · exact hvirtual (congrArg UInt8.toNat htag)
        · exact hinterface (congrArg UInt8.toNat htag)
        · exact Option.some_ne_none size (htag.symm.trans hsize)
      apply (rejects_throw _).congr
      intro bytes error
      rw [Constant.faulty_cons_iff]
      constructor
      · rintro ⟨rfl, rfl⟩
        exact .inr ⟨rfl, rfl, hunknown⟩
      · rintro (⟨htag, -⟩ | ⟨rfl, rfl, -⟩)
        · exact absurd htag htext
        · exact ⟨rfl, rfl⟩

-- Constants that are in order fill slots from `filled` on, and a slot is left below `count` for the
-- one behind them, which is faulty.
def FaultyFrom (count filled : Nat) (bytes : List UInt8) (error : DecodeError) : Prop :=
  ∃ constants fault, bytes = constants.flatMap Constant.bytes ++ fault ∧
    (∀ constant ∈ constants, constant.WellFormed) ∧
    (∃ slots, Gathers Constant.Keeps constants slots) ∧
    filled + ClassFile.slotCount constants < count ∧
    Constant.Faulty (filled + ClassFile.slotCount constants).toUInt16 fault error

theorem faultyFrom_nil {count filled : Nat} (hlt : filled < count) {bytes : List UInt8}
    {error : DecodeError} (h : Constant.Faulty filled.toUInt16 bytes error) :
    FaultyFrom count filled bytes error :=
  ⟨[], bytes, rfl, List.forall_mem_nil _, ⟨[], gathers_nil.mpr rfl⟩, hlt, h⟩

theorem faultyFrom_cons_iff {count filled : Nat} {tag : UInt8} {bytes : List UInt8}
    {error : DecodeError} (hlt : filled < count) :
    FaultyFrom count filled (tag :: bytes) error ↔
      Constant.Faulty filled.toUInt16 (tag :: bytes) error ∨
        ∃ front back slot, bytes = front ++ back ∧
          (∃ constant : Constant, constant.ReadAs tag slot front) ∧
          FaultyFrom count (filled + (1 + (hiddenSlots tag).length)) back error := by
  constructor
  · rintro ⟨constants, fault, hbytes, hwell, ⟨slots, hslots⟩, hcount, hfaulty⟩
    cases constants with
    | nil =>
        obtain rfl : tag :: bytes = fault := hbytes
        exact .inl hfaulty
    | cons constant constants =>
        rw [List.forall_mem_cons] at hwell
        obtain ⟨own, others, hown, hothers, -⟩ := gathers_cons.mp hslots
        obtain ⟨tag', slot, front, h, -⟩ := exists_readAs hwell.1 hown
        rw [List.flatMap_cons, h.bytes, List.append_assoc] at hbytes
        obtain ⟨rfl, rfl⟩ := List.cons.inj hbytes
        have hnext : filled + ClassFile.slotCount (constant :: constants) =
            filled + (1 + (hiddenSlots tag).length) + ClassFile.slotCount constants := by
          rw [← width_eq_of_readAs h]
          exact (Nat.add_assoc ..).symm
        rw [hnext] at hcount hfaulty
        exact .inr ⟨front, _, slot, rfl, ⟨constant, h⟩, constants, fault, rfl, hwell.2,
          ⟨others, hothers⟩, hcount, hfaulty⟩
  · rintro (hfaulty | ⟨front, _, slot, rfl, ⟨constant, h⟩, constants, fault, rfl, hwell,
      ⟨others, hothers⟩, hcount, hfaulty⟩)
    · exact faultyFrom_nil hlt hfaulty
    · rw [← width_eq_of_readAs h, Nat.add_assoc] at hcount hfaulty
      refine ⟨constant :: constants, fault, ?_, List.forall_mem_cons.mpr ⟨h.wellFormed, hwell⟩,
        ⟨_, gathers_cons.mpr ⟨_, others, h.slots, hothers, rfl⟩⟩, hcount, hfaulty⟩
      rw [List.flatMap_cons, h.bytes, List.append_assoc]
      rfl

theorem FaultyFrom.exists_tag {count filled : Nat} {bytes : List UInt8} {error : DecodeError}
    (h : FaultyFrom count filled bytes error) : ∃ tag behind, bytes = tag :: behind := by
  obtain ⟨constants, fault, rfl, -, -, -, hfaulty⟩ := h
  cases constants with
  | nil => exact hfaulty.exists_tag
  | cons constant constants =>
      obtain ⟨behind, hbytes⟩ := constant.exists_bytes_eq_tag_cons
      exact ⟨constant.tag, _, by rw [List.flatMap_cons, hbytes]; rfl⟩

theorem rejects_readSlots (count filled : Nat) :
    Rejects (readSlots count filled) (FaultyFrom count filled) := by
  induction filled using readSlots.induct count with
  | case1 filled hlt ihwide ihnarrow =>
      rw [readSlots, if_pos hlt]
      have hrest (tag : UInt8) (slot : Slot) :
          Rejects (if isWide tag then
              return slot :: .unusable :: (← readSlots count (filled + 2))
            else return slot :: (← readSlots count (filled + 1)))
          (FaultyFrom count (filled + (1 + (hiddenSlots tag).length))) := by
        cases hwide : isWide tag with
        | true =>
            simpa [hiddenSlots, hwide] using
              (parses_readSlots count (filled + 2)).rejects_map ihwide (slot :: .unusable :: ·)
        | false =>
            simpa [hiddenSlots, hwide] using
              (parses_readSlots count (filled + 1)).rejects_map ihnarrow (slot :: ·)
      apply (parses_u8.rejects_bind rejects_u8 fun tag =>
        (parses_readSlot tag filled.toUInt16).rejects_bind (rejects_readSlot tag filled.toUInt16)
          fun slot => hrest tag slot).congr
      -- the tag is there in any case; the constant is faulty, or the fault is behind it
      intro bytes error
      constructor
      · rintro (hnever | ⟨_, back, tag, rfl, rfl, h⟩)
        · exact False.elim hnever
        · exact (faultyFrom_cons_iff hlt).mpr h
      · intro h
        obtain ⟨tag, behind, rfl⟩ := h.exists_tag
        exact .inr ⟨[tag], behind, tag, rfl, rfl, (faultyFrom_cons_iff hlt).mp h⟩
  | case2 filled hnlt =>
      rw [readSlots, if_neg hnlt]
      apply (rejects_pure []).congr
      intro bytes error
      refine iff_of_false id ?_
      rintro ⟨constants, fault, -, -, -, hcount, -⟩
      omega

theorem rejects_read :
    Rejects ConstantPool.read fun bytes error => ∃ declared behind,
      bytes = Bytes.ofUInt16 declared ++ behind ∧ FaultyFrom declared.toNat 1 behind error := by
  apply (parses_u16.rejects_bind rejects_u16 fun count =>
    (parses_readSlots count.toNat 1).rejects_map (rejects_readSlots count.toNat 1)
      fun slots => ConstantPool.mk (.unusable :: slots)).congr
  intro bytes error
  constructor
  · rintro (hnever | ⟨_, behind, declared, rfl, rfl, h⟩)
    · exact False.elim hnever
    · exact ⟨declared, behind, rfl, h⟩
  · rintro ⟨declared, behind, rfl, h⟩
    exact .inr ⟨_, behind, declared, rfl, rfl, h⟩

-- Constants that all can be written and read again.
def InOrder (constants : List Constant) : Prop :=
  (∀ constant ∈ constants, constant.WellFormed) ∧ ∃ pool : ConstantPool, pool.Holds constants

-- A pool is found wrong with its first faulty constant, and in the slot that this would start in.
theorem read_eq_error_iff {cursor : Cursor} {error : DecodeError} (herror : error.Definite) :
    (ConstantPool.read.startingAt cursor).1 = .error error ↔
      ∃ declared constants fault rest index,
        cursor.rest = Bytes.ofUInt16 declared ++ constants.flatMap Constant.bytes ++ fault ++ rest ∧
        InOrder constants ∧ index.toNat = 1 + ClassFile.slotCount constants ∧ index < declared ∧
        Constant.Faulty index fault error := by
  rw [rejects_read cursor error herror]
  constructor
  · rintro ⟨_, rest, ⟨declared, _, rfl, constants, fault, rfl, hwell, ⟨slots, hslots⟩, hlt, hfaulty⟩,
      hrest⟩
    -- the number of the slot fits, since it is below one that does
    have hindex : (1 + ClassFile.slotCount constants).toUInt16.toNat =
        1 + ClassFile.slotCount constants :=
      UInt16.toNat_ofNat_of_lt' (Nat.lt_trans hlt declared.toNat_lt)
    refine ⟨declared, constants, fault, rest, _, ?_, ⟨hwell, ⟨_⟩, slots, hslots, rfl⟩, hindex, ?_,
      hfaulty⟩
    · simp only [hrest, List.append_assoc]
    · rw [UInt16.lt_iff_toNat_lt, hindex]
      exact hlt
  · rintro ⟨declared, constants, fault, rest, index, hrest, ⟨hwell, _, slots, hslots, -⟩, hindex, hlt,
      hfaulty⟩
    rw [UInt16.lt_iff_toNat_lt, hindex] at hlt
    refine ⟨_, rest, ⟨declared, _, rfl, constants, fault, rfl, hwell, ⟨slots, hslots⟩, hlt, ?_⟩, ?_⟩
    · rwa [← hindex, Nat.toUInt16_eq, UInt16.ofNat_toNat]
    · simp only [hrest, List.append_assoc]

end ConstantPool

end CallCensus
