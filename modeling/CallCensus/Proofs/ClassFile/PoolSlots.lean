import CallCensus.Proofs.ClassFile.PoolFaults
import Mathlib.Data.List.Induction

namespace CallCensus

open Read

namespace ClassFile

-- The slot that a constant starts in: so many are filled before its tag is read, the first included.
def StartsIn (constants : List Constant) (index : Nat) (constant : Constant) : Prop :=
  ∃ front behind, constants = front ++ constant :: behind ∧ index = 1 + slotCount front

-- The slot behind the one that a long or a double starts in.
def SecondIn (constants : List Constant) (index : Nat) : Prop :=
  ∃ first constant, StartsIn constants first constant ∧ (constant.tag = 5 ∨ constant.tag = 6) ∧
    index = first + 1

-- A long or a double that starts in the last slot of those that are declared.
def EndsPast (declared : Nat) (constants : List Constant) : Prop :=
  ∃ front last, constants = front ++ [last] ∧ (last.tag = 5 ∨ last.tag = 6) ∧
    1 + slotCount front + 1 = declared

section Widths

variable {constant : Constant}

theorem width_of_long (h : constant.tag = 5 ∨ constant.tag = 6) : constant.width = 2 := by
  rw [ConstantPool.width_eq_hiddenSlots, ConstantPool.hiddenSlots,
    if_pos (ConstantPool.isWide_iff.mpr h)]
  rfl

theorem width_of_not_long (h : ¬ (constant.tag = 5 ∨ constant.tag = 6)) : constant.width = 1 := by
  rw [ConstantPool.width_eq_hiddenSlots, ConstantPool.hiddenSlots,
    if_neg (mt ConstantPool.isWide_iff.mp h)]
  rfl

end Widths

theorem endsPast_concat_iff {declared : Nat} {front : List Constant} {last : Constant} :
    EndsPast declared (front ++ [last]) ↔
      (last.tag = 5 ∨ last.tag = 6) ∧ 1 + slotCount front + 1 = declared := by
  constructor
  · rintro ⟨front', last', hconstants, hlong, hdeclared⟩
    obtain ⟨rfl, hlast⟩ := List.append_inj' hconstants rfl
    obtain rfl := List.singleton_inj.mp hlast
    exact ⟨hlong, hdeclared⟩
  · rintro ⟨hlong, hdeclared⟩
    exact ⟨front, last, rfl, hlong, hdeclared⟩

theorem EndsPast.secondIn {declared : Nat} {constants : List Constant}
    (h : EndsPast declared constants) : SecondIn constants declared := by
  obtain ⟨front, last, rfl, hlong, rfl⟩ := h
  exact ⟨_, last, ⟨front, [], rfl, rfl⟩, hlong, rfl⟩

theorem StartsIn.append {front : List Constant} {index : Nat} {constant : Constant}
    (h : StartsIn front index constant) (more : List Constant) :
    StartsIn (front ++ more) index constant := by
  obtain ⟨before, behind, rfl, hindex⟩ := h
  exact ⟨before, behind ++ more, by rw [List.append_assoc, List.cons_append], hindex⟩

theorem SecondIn.append {front : List Constant} {index : Nat} (h : SecondIn front index)
    (more : List Constant) : SecondIn (front ++ more) index := by
  obtain ⟨first, constant, hstarts, hlong, hindex⟩ := h
  exact ⟨first, constant, hstarts.append more, hlong, hindex⟩

theorem slotCount_concat (front : List Constant) (last : Constant) :
    slotCount (front ++ [last]) = slotCount front + last.width :=
  slotCount_append front [last]

-- There is no slot between two constants.
theorem startsIn_or_secondIn {constants : List Constant} {index : Nat} (hpos : 1 ≤ index)
    (hlt : index < 1 + slotCount constants) :
    (∃ constant, StartsIn constants index constant) ∨ SecondIn constants index := by
  induction constants using List.reverseRecOn with
  | nil => exact absurd hlt (Nat.not_lt.mpr hpos)
  | append_singleton front last ih =>
      have hlast : StartsIn (front ++ [last]) (1 + slotCount front) last := ⟨front, [], rfl, rfl⟩
      rw [slotCount_concat] at hlt
      by_cases hfront : index < 1 + slotCount front
      · obtain ⟨constant, hstarts⟩ | hsecond := ih hfront
        · exact .inl ⟨constant, hstarts.append [last]⟩
        · exact .inr (hsecond.append [last])
      by_cases hlong : last.tag = 5 ∨ last.tag = 6
      · rw [width_of_long hlong] at hlt
        obtain rfl | rfl : index = 1 + slotCount front ∨ index = 1 + slotCount front + 1 := by omega
        · exact .inl ⟨last, hlast⟩
        · exact .inr ⟨_, last, hlast, hlong, rfl⟩
      · rw [width_of_not_long hlong] at hlt
        obtain rfl : index = 1 + slotCount front := by omega
        exact .inl ⟨last, hlast⟩

theorem slotCount_replicate (count : Nat) (constant : Constant) :
    slotCount (List.replicate count constant) = count * constant.width := by
  induction count with
  | zero => exact (Nat.zero_mul _).symm
  | succ count ih =>
      rw [List.replicate_succ', slotCount_concat, ih, Nat.succ_mul]

-- Constants that fill the declared slots fill no more than these, except by a wide one at the end.
theorem Fills.slotCount_eq {declared : Nat} {constants : List Constant}
    (h : Fills declared constants) :
    (EndsPast declared constants → 1 + slotCount constants = declared + 1) ∧
      (¬ EndsPast declared constants → 1 + slotCount constants = max declared 1) := by
  obtain ⟨hle, hlast⟩ := h
  cases constants using List.reverseRecOn with
  | nil =>
      refine ⟨?_, fun _ => (Nat.max_eq_right hle).symm⟩
      rintro ⟨front, last, hnil, -⟩
      exact absurd hnil.symm (List.append_ne_nil_of_right_ne_nil front (List.cons_ne_nil last []))
  | append_singleton front last _ =>
      have hstart := hlast (List.append_ne_nil_of_right_ne_nil front (List.cons_ne_nil last []))
      rw [List.dropLast_concat] at hstart
      rw [slotCount_concat] at hle ⊢
      rw [endsPast_concat_iff]
      by_cases hlong : last.tag = 5 ∨ last.tag = 6
      · rw [width_of_long hlong] at hle ⊢
        simp only [hlong, true_and]
        omega
      · rw [width_of_not_long hlong] at hle ⊢
        simp only [hlong, false_and, false_implies, true_and, not_false_eq_true, forall_const]
        omega

end ClassFile

namespace ConstantPool

open ClassFile

-- The slots of a pool stand in line with the constants that it is read from.
structure LinesUp (pool : ConstantPool) (declared : Nat) (constants : List Constant) : Prop where
  zeroth : pool.slots[0]? = some .unusable
  first : ∀ index constant, StartsIn constants index constant →
    ∃ slot, constant.slot index.toUInt16 = .ok slot ∧ pool.slots[index]? = some slot
  second : ∀ index, SecondIn constants index → pool.slots[index]? = some .unusable
  covered : ∀ index, 1 ≤ index → index < declared →
    (∃ constant, StartsIn constants index constant) ∨ SecondIn constants index
  past : EndsPast declared constants → pool.slots.length = declared + 1
  size : ¬ EndsPast declared constants → pool.slots.length = max declared 1

theorem length_of_slotsFrom {filled : Nat} {constants : List Constant} {slots : List Slot}
    (h : slotsFrom filled constants = .ok slots) : slots.length = slotCount constants := by
  induction constants generalizing filled slots with
  | nil =>
      obtain rfl := Except.ok.inj h
      rfl
  | cons constant rest ih =>
      rw [slotsFrom] at h
      obtain ⟨slot, -, h⟩ := Results.bind_eq_ok_iff.mp h
      obtain ⟨others, hothers, h⟩ := Results.bind_eq_ok_iff.mp h
      obtain rfl := Except.ok.inj h
      have hcount : slotCount (constant :: rest) = constant.width + slotCount rest := rfl
      rw [hcount, width_eq_hiddenSlots, ← ih hothers, List.length_append, List.length_cons]
      omega

-- The slots that are filled in front of a constant say where its own begin.
theorem exists_slots_of_slotsFrom {filled : Nat} {front behind : List Constant} {constant : Constant}
    {slots : List Slot} (h : slotsFrom filled (front ++ constant :: behind) = .ok slots) :
    ∃ before slot others, slots = before ++ (slot :: (hiddenSlots constant.tag ++ others)) ∧
      before.length = slotCount front ∧
      constant.slot (filled + slotCount front).toUInt16 = .ok slot := by
  rw [slotsFrom_append] at h
  obtain ⟨before, hbefore, h⟩ := Results.bind_eq_ok_iff.mp h
  obtain ⟨own, hown, h⟩ := Results.bind_eq_ok_iff.mp h
  rw [slotsFrom] at hown
  obtain ⟨slot, hslot, hown⟩ := Results.bind_eq_ok_iff.mp hown
  obtain ⟨others, -, hown⟩ := Results.bind_eq_ok_iff.mp hown
  refine ⟨before, slot, others, ?_, length_of_slotsFrom hbefore, hslot⟩
  rw [← Except.ok.inj h, ← Except.ok.inj hown, List.cons_append]

section Holds

variable {pool : ConstantPool} {constants : List Constant}

theorem Holds.exists_slots (h : pool.Holds constants) {index : Nat} {constant : Constant}
    (hstarts : StartsIn constants index constant) :
    ∃ before slot others, pool.slots = before ++ (slot :: (hiddenSlots constant.tag ++ others)) ∧
      before.length = index ∧ constant.slot index.toUInt16 = .ok slot := by
  obtain ⟨slots, hslots, rfl⟩ := h
  obtain ⟨front, behind, rfl, rfl⟩ := hstarts
  obtain ⟨before, slot, others, rfl, hlength, hslot⟩ :=
    exists_slots_of_slotsFrom (slotsFrom_eq_ok_iff.mpr hslots)
  refine ⟨.unusable :: before, slot, others, rfl, ?_, hslot⟩
  rw [List.length_cons, hlength, Nat.add_comm]

theorem Holds.length_slots (h : pool.Holds constants) :
    pool.slots.length = 1 + slotCount constants := by
  obtain ⟨slots, hslots, rfl⟩ := h
  have hfrom : slotsFrom 1 constants = .ok slots := slotsFrom_eq_ok_iff.mpr hslots
  rw [List.length_cons, length_of_slotsFrom hfrom, Nat.add_comm]

theorem Holds.linesUp (h : pool.Holds constants) {declared : Nat}
    (hfills : Fills declared constants) : pool.LinesUp declared constants where
  zeroth := by
    obtain ⟨slots, -, rfl⟩ := h
    rfl
  first := by
    intro index constant hstarts
    obtain ⟨before, slot, others, hslots, rfl, hslot⟩ := h.exists_slots hstarts
    exact ⟨slot, hslot, by simp [hslots]⟩
  second := by
    rintro _ ⟨_, constant, hstarts, hlong, rfl⟩
    obtain ⟨before, slot, others, hslots, rfl, -⟩ := h.exists_slots hstarts
    simp [hslots, hiddenSlots, isWide_iff.mpr hlong]
  covered := by
    intro index hpos hlt
    exact startsIn_or_secondIn hpos (Nat.lt_of_lt_of_le hlt hfills.1)
  past := by
    rw [h.length_slots]
    exact hfills.slotCount_eq.1
  size := by
    rw [h.length_slots]
    exact hfills.slotCount_eq.2

end Holds

section LinesUp

variable {pool other : ConstantPool} {declared : Nat} {constants : List Constant}

-- The slots behind those that are declared: the second one of a wide constant, or none.
theorem LinesUp.getElem?_of_le (h : pool.LinesUp declared constants) {index : Nat}
    (hle : declared ≤ index) :
    pool.slots[index]? = some .unusable ∨ pool.slots[index]? = none := by
  by_cases hpast : EndsPast declared constants
  · obtain rfl | hlt := Nat.eq_or_lt_of_le hle
    · exact .inl (h.second _ hpast.secondIn)
    · exact .inr (List.getElem?_eq_none (by rw [h.past hpast]; exact hlt))
  · by_cases hzero : index = 0
    · exact .inl (hzero ▸ h.zeroth)
    · exact .inr (List.getElem?_eq_none (by rw [h.size hpast]; omega))

-- What stands in the slots is determined by the constants.
theorem LinesUp.unique (h : pool.LinesUp declared constants)
    (hother : other.LinesUp declared constants) : pool = other := by
  have hlength : pool.slots.length = other.slots.length := by
    by_cases hpast : EndsPast declared constants
    · rw [h.past hpast, hother.past hpast]
    · rw [h.size hpast, hother.size hpast]
  have hslots (index : Nat) : pool.slots[index]? = other.slots[index]? := by
    by_cases hzero : index = 0
    · rw [hzero, h.zeroth, hother.zeroth]
    by_cases hlt : index < declared
    · obtain ⟨constant, hstarts⟩ | hsecond := h.covered index (Nat.pos_of_ne_zero hzero) hlt
      · obtain ⟨slot, hslot, hfound⟩ := h.first index constant hstarts
        obtain ⟨slot', hslot', hfound'⟩ := hother.first index constant hstarts
        obtain rfl := Except.ok.inj (hslot.symm.trans hslot')
        rw [hfound, hfound']
      · rw [h.second index hsecond, hother.second index hsecond]
    · have hle := Nat.not_lt.mp hlt
      obtain hfound | hnone := h.getElem?_of_le hle
      · obtain hfound' | hnone' := hother.getElem?_of_le hle
        · rw [hfound, hfound']
        · rw [List.getElem?_eq_none_iff, ← hlength, ← List.getElem?_eq_none_iff] at hnone'
          exact absurd (hfound.symm.trans hnone') (Option.some_ne_none _)
      · rw [hnone, eq_comm, List.getElem?_eq_none_iff, ← hlength]
        exact List.getElem?_eq_none_iff.mp hnone
  cases pool
  cases other
  exact congrArg ConstantPool.mk (List.ext_getElem? hslots)

-- A slot in which no constant starts.
def Vacant (declared : Nat) (constants : List Constant) (index : UInt16) : Prop :=
  index = 0 ∨ SecondIn constants index.toNat ∨ declared ≤ index.toNat

theorem LinesUp.get?_of_vacant (h : pool.LinesUp declared constants) {index : UInt16}
    (hvacant : Vacant declared constants index) :
    pool.get? index = some .unusable ∨ pool.get? index = none := by
  obtain rfl | hsecond | hle := hvacant
  · exact .inl h.zeroth
  · exact .inl (h.second _ hsecond)
  · exact h.getElem?_of_le hle

-- Nothing is looked up in a vacant slot.
theorem LinesUp.lookups_of_vacant (h : pool.LinesUp declared constants) {index : UInt16}
    (hvacant : Vacant declared constants index) :
    pool.text index = .error (.invalidConstant index .utf8) ∧
      pool.className index = .error (.invalidConstant index .classRef) ∧
      pool.methodOwner index = .error (.invalidConstant index .methodRef) := by
  obtain hfound | hnone := h.get?_of_vacant hvacant
  · simp [text, className, methodOwner, hfound]
  · simp [text, className, methodOwner, hnone]

-- A pool that stands in line with constants holds them.
theorem LinesUp.holds (h : pool.LinesUp declared constants) (hfills : Fills declared constants) :
    pool.Holds constants := by
  have hkeeps : ∀ constant ∈ constants, ∃ slots, constant.Keeps slots := by
    intro constant hconstant
    obtain ⟨front, behind, hsplit⟩ := List.append_of_mem hconstant
    obtain ⟨slot, hslot, -⟩ := h.first _ constant ⟨front, behind, hsplit, rfl⟩
    exact ⟨_, (constant.keeps_iff _ _).mpr ⟨slot, hslot, rfl⟩⟩
  obtain ⟨slots, hslots⟩ := exists_gathers hkeeps
  have hheld : ConstantPool.Holds ⟨.unusable :: slots⟩ constants := ⟨slots, hslots, rfl⟩
  rwa [h.unique (hheld.linesUp hfills)]

end LinesUp

theorem read_eq_ok_iff {cursor after : Cursor} {pool : ConstantPool} :
    ConstantPool.read.startingAt cursor = (.ok pool, after) ↔ ∃ declared constants,
      cursor.rest = Bytes.ofUInt16 declared ++ constants.flatMap Constant.bytes ++ after.rest ∧
      after.position = cursor.position + (2 + (constants.flatMap Constant.bytes).length) ∧
      InOrder constants ∧ Fills declared.toNat constants ∧ pool.LinesUp declared.toNat constants := by
  rw [parses_read]
  constructor
  · rintro ⟨_, ⟨declared, constants, rfl, hfills, hwell, hholds⟩, hrest, hposition⟩
    rw [List.length_append, Bytes.length_ofUInt16] at hposition
    exact ⟨declared, constants, hrest, hposition, ⟨hwell, pool, hholds⟩, hfills,
      hholds.linesUp hfills⟩
  · rintro ⟨declared, constants, hrest, hposition, ⟨hwell, -⟩, hfills, hlines⟩
    refine ⟨_, ⟨declared, constants, rfl, hfills, hwell, hlines.holds hfills⟩, hrest, ?_⟩
    rw [List.length_append, Bytes.length_ofUInt16, hposition]

-- A pool that is read takes the bytes of its constants and no others, and its slots stand in line
-- with them. What is found wrong is told of with the number of the slot that would be the next.
theorem read_slots_line_up (cursor : Cursor) :
    (∀ pool after, ConstantPool.read.startingAt cursor = (.ok pool, after) ↔ ∃ declared constants,
      cursor.rest = Bytes.ofUInt16 declared ++ constants.flatMap Constant.bytes ++ after.rest ∧
      after.position = cursor.position + (2 + (constants.flatMap Constant.bytes).length) ∧
      InOrder constants ∧ Fills declared.toNat constants ∧ pool.LinesUp declared.toNat constants ∧
      ∀ index, Vacant declared.toNat constants index →
        pool.text index = .error (.invalidConstant index .utf8) ∧
          pool.className index = .error (.invalidConstant index .classRef) ∧
          pool.methodOwner index = .error (.invalidConstant index .methodRef)) ∧
    (∀ tag index, (ConstantPool.read.startingAt cursor).1 = .error (.unknownConstantTag tag index) ↔
      ∃ declared constants rest,
        cursor.rest = Bytes.ofUInt16 declared ++ constants.flatMap Constant.bytes ++ [tag] ++ rest ∧
        InOrder constants ∧ index.toNat = 1 + slotCount constants ∧ index < declared ∧
        ∀ constant : Constant, constant.WellFormed → constant.tag ≠ tag) ∧
    ∀ index, (ConstantPool.read.startingAt cursor).1 = .error (.invalidUtf8 index) ↔
      ∃ declared constants text rest,
        cursor.rest = Bytes.ofUInt16 declared ++ constants.flatMap Constant.bytes ++
          (Constant.utf8 text).bytes ++ rest ∧
        InOrder constants ∧ index.toNat = 1 + slotCount constants ∧ index < declared ∧
        (Constant.utf8 text).WellFormed ∧ ModifiedUtf8.decode? text = none := by
  refine ⟨fun pool after => ?_, fun tag index => ?_, fun index => ?_⟩
  · rw [read_eq_ok_iff]
    constructor
    · rintro ⟨declared, constants, hrest, hposition, horder, hfills, hlines⟩
      exact ⟨declared, constants, hrest, hposition, horder, hfills, hlines,
        fun index => hlines.lookups_of_vacant⟩
    · rintro ⟨declared, constants, hrest, hposition, horder, hfills, hlines, -⟩
      exact ⟨declared, constants, hrest, hposition, horder, hfills, hlines⟩
  · have hdefinite : (DecodeError.unknownConstantTag tag index).Definite := trivial
    simp only [read_eq_error_iff hdefinite, Constant.faulty_unknownTag_iff]
    constructor
    · rintro ⟨declared, constants, _, rest, index, hrest, horder, hindex, hlt, rfl, rfl, htag⟩
      exact ⟨declared, constants, rest, hrest, horder, hindex, hlt, htag⟩
    · rintro ⟨declared, constants, rest, hrest, horder, hindex, hlt, htag⟩
      exact ⟨declared, constants, _, rest, index, hrest, horder, hindex, hlt, rfl, rfl, htag⟩
  · have hdefinite : (DecodeError.invalidUtf8 index).Definite := trivial
    simp only [read_eq_error_iff hdefinite, Constant.faulty_invalidUtf8_iff]
    constructor
    · rintro ⟨declared, constants, _, rest, index, hrest, horder, hindex, hlt, rfl, text, rfl, htext⟩
      exact ⟨declared, constants, text, rest, hrest, horder, hindex, hlt, htext⟩
    · rintro ⟨declared, constants, text, rest, hrest, horder, hindex, hlt, htext⟩
      exact ⟨declared, constants, _, rest, index, hrest, horder, hindex, hlt, rfl, text, rfl, htext⟩

-- A long in the last of two slots fills a third one, and a pool of as many slots as can be declared
-- is found wrong in the last of them.
theorem read_slots_line_up_last :
    (∃ pool after, ConstantPool.read.startingAt
        ⟨0, Bytes.ofUInt16 2 ++ (Constant.plain 5 [0, 0, 0, 0, 0, 0, 0, 1]).bytes ++ [0x2A]⟩ =
          (.ok pool, after) ∧ after = ⟨11, [0x2A]⟩ ∧ pool.slots.length = 3 ∧
        pool.text 2 = .error (.invalidConstant 2 .utf8)) ∧
      (ConstantPool.read.startingAt ⟨0, Bytes.ofUInt16 65535 ++
        (List.replicate 65533 (Constant.classRef 1)).flatMap Constant.bytes ++ [99] ++ []⟩).1 =
          .error (.unknownConstantTag 99 65534) := by
  constructor
  · let long : Constant := .plain 5 [0, 0, 0, 0, 0, 0, 0, 1]
    have hholds : ConstantPool.Holds ⟨[.unusable, .other, .unusable]⟩ [long] :=
      ⟨_, gathers_cons.mpr ⟨_, [], rfl, gathers_nil.mpr rfl, rfl⟩, rfl⟩
    have hwell : ∀ constant ∈ [long], constant.WellFormed := by
      intro constant hconstant
      rw [List.mem_singleton.mp hconstant]
      rfl
    have hfills : Fills (2 : UInt16).toNat [long] := ⟨by decide, fun _ => by decide⟩
    have hlines := hholds.linesUp hfills
    have hread := (read_slots_line_up ⟨0, Bytes.ofUInt16 2 ++ long.bytes ++ [0x2A]⟩).1
    have hrun := (hread _ ⟨11, [0x2A]⟩).mpr ⟨2, [long], rfl, rfl, ⟨hwell, _, hholds⟩, hfills, hlines,
      fun index => hlines.lookups_of_vacant⟩
    exact ⟨_, _, hrun, rfl, rfl, rfl⟩
  · refine ((read_slots_line_up _).2.1 99 65534).mpr ⟨65535, _, [], rfl, ⟨?_, ?_⟩, ?_, by decide, ?_⟩
    · intro constant hconstant
      rw [List.eq_of_mem_replicate hconstant]
      trivial
    · have hkeeps : ∀ constant ∈ List.replicate 65533 (Constant.classRef 1),
          ∃ own, constant.Keeps own := by
        intro constant hconstant
        rw [List.eq_of_mem_replicate hconstant]
        exact ⟨_, rfl⟩
      obtain ⟨slots, hslots⟩ := exists_gathers hkeeps
      exact ⟨_, slots, hslots, rfl⟩
    · rw [slotCount_replicate]
      rfl
    · intro constant hwell htag
      have hkinds := tag_eq_of_wellFormed hwell
      rw [htag] at hkinds
      simp [plainSize?] at hkinds

end ConstantPool

end CallCensus
