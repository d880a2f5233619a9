import CallCensus.Bytes.Lemmas
import CallCensus.ClassFile.Model
import Mathlib.Data.List.Forall2

namespace CallCensus.Read

variable {α β : Type}

-- The byte strings that a reader takes, each with what it makes of it. A reader parses a language
-- if it succeeds exactly where a string of the language comes next, whatever stands behind it.
def Parses (read : Read α) (language : List UInt8 → α → Prop) : Prop :=
  ∀ cursor value after, read.startingAt cursor = (.ok value, after) ↔
    ∃ front, language front value ∧ cursor.rest = front ++ after.rest ∧
      after.position = cursor.position + front.length

theorem startingAt_bind (read : Read α) (next : α → Read β) (cursor : Cursor) :
    (read >>= next).startingAt cursor =
      match read.startingAt cursor with
      | (.error error, after) => (.error error, after)
      | (.ok value, after) => (next value).startingAt after := by
  simp only [startingAt, ExceptT.run, bind, ExceptT.bind, ExceptT.mk, StateT.bind]
  cases h : read cursor with
  | mk result after => cases result <;> rfl

theorem startingAt_pure (value : α) (cursor : Cursor) :
    (pure value : Read α).startingAt cursor = (.ok value, cursor) := rfl

theorem startingAt_throw (error : DecodeError) (cursor : Cursor) :
    (throw error : Read α).startingAt cursor = (.error error, cursor) := rfl

theorem startingAt_bytes (count : Nat) (cursor : Cursor) :
    (bytes count).startingAt cursor =
      match Bytes.cut count cursor.rest with
      | .error missing => (.error (.truncated cursor.position missing), cursor)
      | .ok (front, rest) => (.ok front, ⟨cursor.position + count, rest⟩) := rfl

theorem startingAt_map_bytes (count : Nat) (f : List UInt8 → α) (cursor : Cursor) :
    (do return f (← bytes count) : Read α).startingAt cursor =
      match Bytes.cut count cursor.rest with
      | .error missing => (.error (.truncated cursor.position missing), cursor)
      | .ok (front, rest) => (.ok (f front), ⟨cursor.position + count, rest⟩) := by
  rw [startingAt_bind, startingAt_bytes]
  cases Bytes.cut count cursor.rest <;> rfl

theorem startingAt_ofExcept (result : Except DecodeError α) (cursor : Cursor) :
    (ofExcept result).startingAt cursor = (result, cursor) := rfl

theorem Parses.congr {read : Read α} {language other : List UInt8 → α → Prop}
    (h : Parses read language) (heq : ∀ bytes value, language bytes value ↔ other bytes value) :
    Parses read other := by
  intro cursor value after
  simp only [h cursor value after, heq]

theorem parses_pure (value : α) : Parses (pure value) fun bytes result => bytes = [] ∧ result = value := by
  rintro ⟨position, rest⟩ result ⟨position', rest'⟩
  rw [startingAt_pure]
  constructor
  · intro h
    cases h
    exact ⟨[], ⟨rfl, rfl⟩, rfl, rfl⟩
  · rintro ⟨front, ⟨rfl, rfl⟩, hrest, hposition⟩
    simp only [List.nil_append, List.length_nil, Nat.add_zero] at hrest hposition
    rw [hrest, hposition]

theorem parses_throw (error : DecodeError) : Parses (throw error : Read α) fun _ _ => False := by
  intro cursor value after
  simp [startingAt_throw]

theorem parses_ofExcept (result : Except DecodeError α) :
    Parses (ofExcept result) fun bytes value => bytes = [] ∧ result = .ok value := by
  cases result with
  | error error =>
      intro cursor value after
      simp [startingAt_ofExcept]
  | ok value =>
      apply (parses_pure value).congr
      intro bytes result
      rw [Except.ok.injEq, eq_comm (a := value)]

-- One reader after the other takes one string after the other.
theorem Parses.bind {read : Read α} {next : α → Read β} {first : List UInt8 → α → Prop}
    {second : α → List UInt8 → β → Prop} (hread : Parses read first)
    (hnext : ∀ value, Parses (next value) (second value)) :
    Parses (read >>= next) fun bytes result =>
      ∃ front back value, bytes = front ++ back ∧ first front value ∧ second value back result := by
  intro cursor result after
  rw [startingAt_bind]
  constructor
  · intro h
    split at h
    · cases h
    · rename_i value middle hvalue
      obtain ⟨front, hfront, hrest, hposition⟩ := (hread cursor value middle).mp hvalue
      obtain ⟨back, hback, hrest', hposition'⟩ := (hnext value middle result after).mp h
      refine ⟨front ++ back, ⟨front, back, value, rfl, hfront, hback⟩, ?_, ?_⟩
      · rw [hrest, hrest', List.append_assoc]
      · rw [hposition', hposition, List.length_append, Nat.add_assoc]
  · rintro ⟨_, ⟨front, back, value, rfl, hfront, hback⟩, hrest, hposition⟩
    rw [List.append_assoc] at hrest
    rw [List.length_append, ← Nat.add_assoc] at hposition
    rw [(hread cursor value ⟨cursor.position + front.length, back ++ after.rest⟩).mpr
      ⟨front, hfront, hrest, rfl⟩]
    exact (hnext value _ result after).mpr ⟨back, hback, rfl, hposition⟩

theorem Parses.map {read : Read α} {language : List UInt8 → α → Prop} (h : Parses read language)
    (f : α → β) :
    Parses (do return f (← read)) fun bytes result =>
      ∃ value, language bytes value ∧ result = f value := by
  apply (h.bind fun value => parses_pure (f value)).congr
  intro bytes result
  constructor
  · rintro ⟨front, back, value, rfl, hfront, rfl, rfl⟩
    exact ⟨value, by rwa [List.append_nil], rfl⟩
  · rintro ⟨value, hvalue, rfl⟩
    exact ⟨bytes, [], value, by rw [List.append_nil], hvalue, rfl, rfl⟩

theorem parses_bytes (count : Nat) :
    Parses (bytes count) fun front value => front = value ∧ value.length = count := by
  intro cursor value after
  rw [startingAt_bytes]
  constructor
  · intro h
    split at h
    · cases h
    · rename_i front rest hcut
      cases h
      obtain ⟨hrest, hlength⟩ := Bytes.append_eq_of_cut hcut
      exact ⟨value, ⟨rfl, hlength⟩, hrest.symm, by rw [hlength]⟩
  · rintro ⟨_, ⟨rfl, rfl⟩, hrest, hposition⟩
    rw [hrest, Bytes.cut_append, ← hposition]

theorem parses_skip (count : Nat) : Parses (skip count) fun front _ => front.length = count := by
  apply ((parses_bytes count).map fun _ => ()).congr
  intro front value
  constructor
  · rintro ⟨_, ⟨rfl, hlength⟩, -⟩
    exact hlength
  · intro hlength
    exact ⟨front, ⟨rfl, hlength⟩, rfl⟩

theorem parses_u8 : Parses u8 fun front value => front = [value] := by
  apply ((parses_bytes 1).map _).congr
  intro front value
  constructor
  · rintro ⟨_, ⟨rfl, hlength⟩, rfl⟩
    obtain ⟨byte, rfl⟩ := List.length_eq_one_iff.mp hlength
    simp [Bytes.bigEndian]
  · rintro rfl
    exact ⟨[value], ⟨rfl, rfl⟩, by simp [Bytes.bigEndian]⟩

theorem parses_u16 : Parses u16 fun front value => front = Bytes.ofUInt16 value := by
  apply ((parses_bytes 2).map _).congr
  intro front value
  constructor
  · rintro ⟨_, ⟨rfl, hlength⟩, rfl⟩
    exact (Bytes.ofUInt16_bigEndian hlength).symm
  · rintro rfl
    exact ⟨_, ⟨rfl, Bytes.length_ofUInt16 value⟩, by
      rw [Bytes.bigEndian_ofUInt16, Nat.toUInt16_eq, UInt16.ofNat_toNat]⟩

theorem parses_u32 : Parses u32 fun front value => front = Bytes.ofUInt32 value := by
  apply ((parses_bytes 4).map _).congr
  intro front value
  constructor
  · rintro ⟨_, ⟨rfl, hlength⟩, rfl⟩
    exact (Bytes.ofUInt32_bigEndian hlength).symm
  · rintro rfl
    exact ⟨_, ⟨rfl, Bytes.length_ofUInt32 value⟩, by
      rw [Bytes.bigEndian_ofUInt32, Nat.toUInt32_eq, UInt32.ofNat_toNat]⟩

-- A length of four bytes leaves room for every string that is shorter than 2^32.
theorem parses_sized :
    Parses sized fun front value =>
      front = Bytes.toBigEndian 4 value.length ++ value ∧ value.length < 0x100000000 := by
  apply (parses_u32.bind fun length => parses_bytes length.toNat).congr
  intro front value
  constructor
  · rintro ⟨_, _, length, rfl, rfl, rfl, hlength⟩
    exact ⟨by rw [hlength, Bytes.ofUInt32], hlength ▸ length.toNat_lt⟩
  · rintro ⟨rfl, hlt⟩
    have hlength : (UInt32.ofNat value.length).toNat = value.length :=
      UInt32.toNat_ofNat_of_lt' hlt
    exact ⟨_, value, UInt32.ofNat value.length, rfl, by rw [Bytes.ofUInt32, hlength], rfl,
      hlength.symm⟩

-- What a reader that starts at the front of a byte string succeeds with.
theorem Parses.all_eq_ok_iff {read : Read α} {language : List UInt8 → α → Prop}
    (h : Parses read language) {data : List UInt8} {value : α} :
    read.all data = .ok value ↔ ∃ front back, language front value ∧ data = front ++ back := by
  constructor
  · intro hall
    cases hrun : read.startingAt (Cursor.ofBytes data) with
    | mk result after =>
        obtain rfl : result = .ok value := by rw [← hall, all, hrun]
        obtain ⟨front, hfront, hdata, -⟩ := (h _ value after).mp hrun
        exact ⟨front, after.rest, hfront, hdata⟩
  · rintro ⟨front, back, hfront, rfl⟩
    rw [all, (h (Cursor.ofBytes (front ++ back)) value ⟨0 + front.length, back⟩).mpr
      ⟨front, hfront, rfl, rfl⟩]

section Tables

variable {ι : Type}

-- The language of things that are written by `encode` and mean a value.
def Written (encode : ι → List UInt8) (Means : ι → α → Prop) (bytes : List UInt8) (value : α) :
    Prop :=
  ∃ item, bytes = encode item ∧ Means item value

theorem Parses.times {read : Read α} {encode : ι → List UInt8} {Means : ι → α → Prop}
    (h : Parses read (Written encode Means)) (count : Nat) :
    Parses (times count read)
      (Written (List.flatMap encode) fun items values =>
        items.length = count ∧ List.Forall₂ Means items values) := by
  induction count with
  | zero =>
      apply (parses_pure []).congr
      intro bytes values
      constructor
      · rintro ⟨rfl, rfl⟩
        exact ⟨[], rfl, rfl, .nil⟩
      · rintro ⟨items, rfl, hlength, hvalues⟩
        cases List.length_eq_zero_iff.mp hlength
        cases hvalues
        exact ⟨rfl, rfl⟩
  | succ count ih =>
      apply (h.bind fun first => ih.map (first :: ·)).congr
      intro bytes values
      constructor
      · rintro ⟨_, _, first, rfl, ⟨item, rfl, hfirst⟩, rest, ⟨items, rfl, hlength, hrest⟩, rfl⟩
        exact ⟨item :: items, rfl, by rw [List.length_cons, hlength], .cons hfirst hrest⟩
      · rintro ⟨items, rfl, hlength, hvalues⟩
        cases hvalues with
        | nil => cases hlength
        | @cons item first items rest hfirst hrest =>
            exact ⟨encode item, items.flatMap encode, first, rfl, ⟨item, rfl, hfirst⟩, rest,
              ⟨items, rfl, Nat.succ.inj hlength, hrest⟩, rfl⟩

theorem Parses.table {read : Read α} {encode : ι → List UInt8} {Means : ι → α → Prop}
    (h : Parses read (Written encode Means)) :
    Parses (Read.table read)
      (Written (tableBytes encode) fun items values =>
        items.length < 0x10000 ∧ List.Forall₂ Means items values) := by
  apply (parses_u16.bind fun count => h.times count.toNat).congr
  intro bytes values
  constructor
  · rintro ⟨_, _, count, rfl, rfl, items, rfl, hlength, hvalues⟩
    exact ⟨items, by rw [tableBytes, hlength, Bytes.ofUInt16], hlength ▸ count.toNat_lt, hvalues⟩
  · rintro ⟨items, rfl, hlt, hvalues⟩
    have hlength : (UInt16.ofNat items.length).toNat = items.length :=
      UInt16.toNat_ofNat_of_lt' hlt
    exact ⟨_, _, UInt16.ofNat items.length, rfl, by rw [Bytes.ofUInt16, hlength], items, rfl,
      hlength.symm, hvalues⟩

theorem forall₂_true_iff {items : List ι} {values : List α} :
    List.Forall₂ (fun _ _ => True) items values ↔ items.length = values.length := by
  constructor
  · exact List.Forall₂.length_eq
  · intro h
    exact List.forall₂_iff_zip.mpr ⟨h, fun _ => trivial⟩

-- A table of which only the form matters.
theorem Parses.passTable {read : Read Unit} {encode : ι → List UInt8} {WellFormed : ι → Prop}
    (h : Parses read (Written encode fun item _ => WellFormed item)) :
    Parses (Read.table read) (Written (tableBytes encode) fun items values =>
      values = List.replicate items.length () ∧ items.length < 0x10000 ∧
        ∀ item ∈ items, WellFormed item) := by
  apply h.table.congr
  intro bytes values
  have hvalues (items : List ι) : List.Forall₂ (fun item (_ : Unit) => WellFormed item) items values ↔
      values = List.replicate items.length () ∧ ∀ item ∈ items, WellFormed item := by
    have hand := List.forall₂_and_left (p := WellFormed) (R := fun _ _ => True) items values
    simp only [and_true] at hand
    rw [hand, forall₂_true_iff, List.eq_replicate_iff, and_comm, eq_comm]
    simp
  simp only [Written, hvalues, and_left_comm]

end Tables

end CallCensus.Read
