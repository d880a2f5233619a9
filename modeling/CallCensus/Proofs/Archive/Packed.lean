import CallCensus.Archive.Stored
import CallCensus.Proofs.Archive.Fields
import CallCensus.Proofs.Archive.Listing
import CallCensus.Proofs.Text.Utf8Reading

namespace CallCensus

theorem CodePage437.decode_encode_of_ascii {text : String}
    (h : ∀ char ∈ text.toList, char.toNat < 0x80) : decode (Utf8.encode text) = text.toList := by
  rw [Utf8.encode_eq_flatMap, decode]
  generalize text.toList = chars at h ⊢
  induction chars with
  | nil => rfl
  | cons char chars ih =>
      obtain ⟨hchar, hchars⟩ := List.forall_mem_cons.mp h
      have hbyte : ofByte (UInt8.ofNat char.toNat) = char := by
        have htoNat : (UInt8.ofNat char.toNat).toNat = char.toNat := by
          rw [UInt8.toNat_ofNat']
          omega
        have hlow : UInt8.ofNat char.toNat < 0x80 := by
          rw [UInt8.lt_iff_toNat_lt, htoNat]
          exact hchar
        rw [ofByte, if_pos hlow, htoNat, Char.ofNat_toNat]
      rw [List.flatMap_cons, Utf8.utf8EncodeChar_of_lt hchar, List.singleton_append, List.map_cons,
        hbyte, ih hchars]

namespace Archive

-- Whether the name of a file ends like that of a class.
def Stored.File.isClass (file : File) : Bool := ".class".toList.isSuffixOf file.name.toList

def Stored.File.classEntry (file : File) : ClassEntry (List UInt8) := ⟨file.name, file.bytes⟩

namespace Layout

-- The member as the directory has it.
def listed (layout : Layout) : Member where
  name := layout.name
  encrypted := false
  method := 0
  checksum := (Checksum.ofBytes layout.bytes).toNat
  size := layout.bytes.length
  header := layout.offset

variable (layout : Layout)

theorem testBit_flags : layout.flags.testBit 0 = false := by
  rw [flags]
  split <;> decide

theorem flags_lt : layout.flags < 0x10000 := by
  rw [flags]
  split <;> decide

theorem length_entry : layout.entry.length = entrySize + (Utf8.encode layout.name).length := by
  simp only [entry, description, List.length_append, Stored.length_half, Stored.length_word,
    length_entrySignature, entrySize]

theorem length_member :
    layout.member.length = memberSize + (Utf8.encode layout.name).length + layout.padding.length +
      layout.bytes.length := by
  simp only [member, description, List.length_append, Stored.length_half, Stored.length_word,
    length_memberSignature, memberSize]

theorem entry_ne_nil : layout.entry ≠ [] := by
  apply List.ne_nil_of_length_pos
  rw [length_entry, entrySize]
  omega

theorem member_ne_nil : layout.member ≠ [] := by
  apply List.ne_nil_of_length_pos
  rw [length_member, memberSize]
  omega

variable {layout} {file : List UInt8}

theorem slice_of_entry {start : Nat} (hentry : layout.entry <+: file.drop start) :
    slice file.toArray start 4 = entrySignature := by
  simp only [entry, prefix_drop_append_iff, and_assoc] at hentry
  exact slice_of_prefix_drop hentry.1

theorem contents_of_prefix_drop {place : Nat} (hbytes : layout.bytes <+: file.drop place) :
    layout.listed.contents file.toArray place = .ok layout.bytes := by
  have hstored : slice file.toArray place layout.listed.size = layout.bytes :=
    slice_of_prefix_drop hbytes
  rw [Member.contents, hstored]
  exact if_pos rfl

end Layout

-- A name that ends like that of a class is not that of a directory.
theorem isClass_of_file (file : Stored.File) :
    isClass file.name (isDirectory file.name) = file.isClass := by
  rw [Archive.isClass, Stored.File.isClass]
  by_cases hclass : ".class".toList.isSuffixOf file.name.toList
  · obtain ⟨front, hfront⟩ := List.isSuffixOf_iff_suffix.mp hclass
    have hlast : file.name.toList.getLast? = some 's' := by
      rw [← hfront, List.getLast?_append]
      rfl
    have hfile : isDirectory file.name = false := by
      rw [isDirectory, hlast]
      decide
    rw [hfile, Bool.not_false, Bool.true_and]
  · rw [Bool.eq_false_iff.mpr hclass, Bool.and_false]

namespace Packed

variable {packed : Packed} {file : List UInt8} {start : Nat}

-- A file as it is written at an offset.
def plain (offset : Nat) (file : Stored.File) (hname : (Utf8.encode file.name).length < 0x10000) :
    Packed :=
  { Stored.layout offset file with
    legible := .inl rfl, name_fits := hname, padding_fits := Nat.zero_lt_succ _ }

theorem decodeName_flags (packed : Packed) :
    decodeName packed.flags (Utf8.encode packed.name) = packed.name := by
  rw [decodeName, Layout.flags]
  cases hflagged : packed.flagged with
  | true =>
      have hbit : Stored.flags.testBit 11 = true := by decide
      rw [if_pos rfl, if_pos hbit, Utf8.decodeLossy_encode, String.ofList_toList]
  | false =>
      have hascii : ∀ char ∈ packed.name.toList, char.toNat < 0x80 := by
        simpa [hflagged] using packed.legible
      have hbit : ¬ Nat.testBit 0 11 = true := by decide
      rw [if_neg Bool.false_ne_true, if_neg hbit, CodePage437.decode_encode_of_ascii hascii,
        String.ofList_toList]

-- An entry of the directory tells what is packed, and where the next entry is.
theorem at?_of_entry {directory : Nat} (hentry : packed.entry <+: file.drop start)
    (hbefore : packed.offset < directory) (hoffset : packed.offset < 0x100000000)
    (hsize : packed.bytes.length < 0x100000000) :
    Member.at? file.toArray 0 directory start =
      some (packed.listed, start + packed.entry.length) := by
  have hsigned := Layout.slice_of_entry hentry
  have hwithin := length_le_of_prefix_drop hentry packed.entry_ne_nil
  rw [Layout.length_entry, entrySize] at hwithin
  simp only [Layout.entry, Layout.description, prefix_drop_append_iff, List.length_append,
    Stored.length_half, Stored.length_word, length_entrySignature, and_assoc, Nat.add_assoc,
    Nat.reduceAdd] at hentry
  obtain ⟨-, -, -, hflags, hmethod, -, -, hchecksum, hbytes, -, hlength, hextra, hcomment, -, -, -,
    hheader, hname⟩ := hentry
  unfold Member.at?
  simp only [entrySize, half_of_prefix_drop hlength packed.name_fits,
    half_of_prefix_drop hextra (by decide), half_of_prefix_drop hcomment (by decide),
    word_of_prefix_drop hheader hoffset, Nat.add_zero, Nat.zero_add,
    half_of_prefix_drop hflags packed.flags_lt, half_of_prefix_drop hmethod (by decide),
    word_of_prefix_drop hchecksum (UInt32.toNat_lt _), word_of_prefix_drop hbytes hsize,
    slice_of_prefix_drop hname, decodeName_flags, Layout.testBit_flags, Layout.length_entry]
  rw [if_pos ⟨hsigned, by rw [List.size_toArray]; omega, hbefore⟩, Layout.listed, Nat.add_assoc]

-- The bytes of a member start where its own record says.
theorem start?_of_member (hmember : packed.member <+: file.drop packed.offset) :
    ∃ place, packed.listed.start? file.toArray = some place ∧ packed.bytes <+: file.drop place := by
  have hwithin := length_le_of_prefix_drop hmember packed.member_ne_nil
  rw [Layout.length_member, memberSize] at hwithin
  simp only [Layout.member, Layout.description, prefix_drop_append_iff, List.length_append,
    Stored.length_half, Stored.length_word, length_memberSignature, and_assoc, Nat.add_assoc,
    Nat.reduceAdd] at hmember
  obtain ⟨hsignature, -, -, -, -, -, -, -, -, hlength, hpadding, -, -, hbytes⟩ := hmember
  have hsigned : slice file.toArray packed.offset 4 = memberSignature := slice_of_prefix_drop hsignature
  refine ⟨_, ?_, hbytes⟩
  unfold Member.start?
  simp only [Layout.listed, memberSize, half_of_prefix_drop hlength packed.name_fits,
    half_of_prefix_drop hpadding packed.padding_fits]
  rw [if_pos ⟨hsigned, by rw [List.size_toArray]; omega⟩, Nat.add_assoc, Nat.add_assoc]

-- What is packed is opened under its own name, and its own bytes are read.
theorem opened_of_member (hmember : packed.member <+: file.drop packed.offset) :
    ∃ opened, packed.listed.opened file.toArray = .ok opened ∧ opened.name = packed.name ∧
      opened.isClass = packed.isClass ∧ opened.read () = .ok packed.bytes := by
  obtain ⟨place, hplace, hbytes⟩ := start?_of_member hmember
  have hlocated : packed.listed.locate file.toArray = .ok place := by
    rw [Member.locate, hplace]
    rfl
  refine ⟨⟨packed.name, isDirectory packed.name, fun _ => packed.listed.contents file.toArray place⟩,
    ?_, rfl, isClass_of_file packed.toFile, Layout.contents_of_prefix_drop hbytes⟩
  rw [Member.opened, hlocated]
  rfl

end Packed

end Archive

end CallCensus
