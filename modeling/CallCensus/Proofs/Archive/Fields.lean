import CallCensus.Archive.Stored
import CallCensus.Bytes.Lemmas

namespace CallCensus.Archive

variable {file piece front back : List UInt8} {start value : Nat}

theorem slice_toArray (file : List UInt8) (offset length : Nat) :
    slice file.toArray offset length = (file.drop offset).take length := by
  rw [slice, List.extract_toArray, List.extract_eq_take_drop, Nat.add_sub_cancel_left]

-- Two pieces stand at a place of a file if the second stands where the first ends.
theorem prefix_drop_append_iff :
    front ++ back <+: file.drop start ↔
      front <+: file.drop start ∧ back <+: file.drop (start + front.length) := by
  constructor
  · rintro ⟨rest, hrest⟩
    refine ⟨⟨back ++ rest, by rw [← hrest, List.append_assoc]⟩, rest, ?_⟩
    rw [← List.drop_drop, ← hrest, List.append_assoc, List.drop_left]
  · rintro ⟨⟨rest, hrest⟩, hback⟩
    rw [← List.drop_drop, ← hrest, List.drop_left] at hback
    rw [← hrest]
    exact (List.prefix_append_right_inj front).mpr hback

theorem length_le_of_prefix_drop (hpiece : piece <+: file.drop start) (hsome : piece ≠ []) :
    start + piece.length ≤ file.length := by
  have hle := hpiece.length_le
  have hpos := List.length_pos_iff.mpr hsome
  rw [List.length_drop] at hle
  omega

theorem slice_of_prefix_drop (hpiece : piece <+: file.drop start) :
    slice file.toArray start piece.length = piece := by
  rw [slice_toArray]
  exact (List.prefix_iff_eq_take.mp hpiece).symm

-- A number is read as it was written.
theorem field_of_prefix_drop {width : Nat}
    (hpiece : Bytes.toLittleEndian width value <+: file.drop start) (hfits : value < 256 ^ width) :
    field file.toArray start width = value := by
  have hslice := slice_of_prefix_drop hpiece
  rw [Bytes.length_toLittleEndian] at hslice
  rw [field, hslice, Bytes.littleEndian_toLittleEndian, Nat.mod_eq_of_lt hfits]

theorem half_of_prefix_drop (hpiece : Stored.half value <+: file.drop start) (hfits : value < 0x10000) :
    field file.toArray start 2 = value :=
  field_of_prefix_drop hpiece hfits

theorem word_of_prefix_drop (hpiece : Stored.word value <+: file.drop start)
    (hfits : value < 0x100000000) : field file.toArray start 4 = value :=
  field_of_prefix_drop hpiece hfits

@[simp] theorem Stored.length_half (value : Nat) : (half value).length = 2 :=
  Bytes.length_toLittleEndian 2 value

@[simp] theorem Stored.length_word (value : Nat) : (word value).length = 4 :=
  Bytes.length_toLittleEndian 4 value

@[simp] theorem length_endSignature : endSignature.length = 4 := rfl

@[simp] theorem length_entrySignature : entrySignature.length = 4 := rfl

@[simp] theorem length_memberSignature : memberSignature.length = 4 := rfl

end CallCensus.Archive
