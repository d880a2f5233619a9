import CallCensus.Proofs.Archive.Packed

namespace CallCensus.Archive

theorem lastSome_eq_some {α : Type} {f : Nat → Option α} {bound offset : Nat} {value : α}
    (hvalue : f offset = some value) (hbound : offset < bound)
    (hlater : ∀ later, offset < later → f later = none) : lastSome f bound = some value := by
  induction bound with
  | zero => omega
  | succ bound ih =>
      rw [lastSome]
      rcases Nat.lt_or_eq_of_le (Nat.le_of_lt_succ hbound) with hlt | rfl
      · rw [hlater bound hlt]
        exact ih hlt
      · rw [hvalue]

theorem insertMember_of_new {member : Member} {known : List Member}
    (hnew : member.name ∉ known.map (·.name)) : insertMember member known = known ++ [member] := by
  induction known with
  | nil => rfl
  | cons other known ih =>
      rw [List.map_cons, List.mem_cons, not_or] at hnew
      rw [insertMember, if_neg (Ne.symm hnew.1), ih hnew.2, List.cons_append]

-- Where all members have names of their own, all of them count.
theorem foldl_insertMember {known members : List Member}
    (hdistinct : ((known ++ members).map (·.name)).Nodup) :
    members.foldl (fun known member => insertMember member known) known = known ++ members := by
  induction members generalizing known with
  | nil => rw [List.foldl_nil, List.append_nil]
  | cons member members ih =>
      have hnew : member.name ∉ known.map (·.name) := by
        rw [List.map_append, List.map_cons] at hdistinct
        intro hmem
        exact (List.nodup_append.mp hdistinct).2.2 _ hmem _ List.mem_cons_self rfl
      rw [← List.singleton_append, ← List.append_assoc] at hdistinct
      rw [List.foldl_cons, insertMember_of_new hnew, ih hdistinct, List.append_assoc,
        List.singleton_append]

section EndRecord

variable {file comment : List UInt8} {start count size directory : Nat}

theorem length_endRecord (count size offset : Nat) (comment : List UInt8) :
    (Stored.endRecord count size offset comment).length = endSize + comment.length := by
  simp only [Stored.endRecord, List.length_append, Stored.length_half, Stored.length_word,
    length_endSignature, endSize]

theorem endRecord_ne_nil (count size offset : Nat) (comment : List UInt8) :
    Stored.endRecord count size offset comment ≠ [] := by
  apply List.ne_nil_of_length_pos
  rw [length_endRecord, endSize]
  omega

theorem EndRecord.at?_of_endRecord
    (hrecord : Stored.endRecord count size directory comment <+: file.drop start)
    (hcount : count < 0x10000) (hdirectory : directory < 0x100000000)
    (hcomment : comment.length < 0x10000) :
    EndRecord.at? file.toArray start = some ⟨0, 0, count, count, directory⟩ := by
  have hwithin := length_le_of_prefix_drop hrecord (endRecord_ne_nil _ _ _ _)
  rw [length_endRecord, endSize] at hwithin
  simp only [Stored.endRecord, prefix_drop_append_iff, List.length_append, Stored.length_half,
    Stored.length_word, length_endSignature, and_assoc, Nat.reduceAdd] at hrecord
  obtain ⟨hsignature, hpart, hother, hentries, hall, -, hplace, hlength, -⟩ := hrecord
  have hsigned : slice file.toArray start 4 = endSignature := slice_of_prefix_drop hsignature
  unfold EndRecord.at?
  rw [half_of_prefix_drop hpart (by decide), half_of_prefix_drop hother (by decide),
    half_of_prefix_drop hentries hcount, half_of_prefix_drop hall hcount,
    word_of_prefix_drop hplace hdirectory, half_of_prefix_drop hlength hcomment]
  exact if_pos ⟨hsigned, by rw [List.size_toArray, endSize]; omega⟩

-- There is no end record where its signature is not.
theorem EndRecord.at?_eq_none {later : Nat} (hend : ¬ endSignature <:+: (file.drop start).tail)
    (hlater : start < later) : EndRecord.at? file.toArray later = none := by
  apply if_neg
  rintro ⟨hsigned, -⟩
  apply hend
  rw [slice_toArray] at hsigned
  have hplace : (file.drop start).tail.drop (later - start - 1) = file.drop later := by
    rw [List.tail_drop, List.drop_drop]
    congr 1
    omega
  rw [← hsigned, ← hplace]
  exact (List.take_prefix _ _).isInfix.trans (List.drop_suffix _ _).isInfix

end EndRecord

-- The entries of a directory are read one after the other.
theorem membersFrom?_of_entries {members : List Packed} {file : List UInt8} {directory start : Nat}
    (hentries : members.flatMap (·.entry) <+: file.drop start)
    (hdirectory : directory < 0x100000000)
    (hbefore : ∀ packed ∈ members, packed.offset + packed.member.length ≤ directory) :
    membersFrom? file.toArray 0 directory members.length start = some (members.map (·.listed)) := by
  induction members generalizing start with
  | nil => rfl
  | cons packed members ih =>
      rw [List.flatMap_cons, prefix_drop_append_iff] at hentries
      obtain ⟨hfirst, hrest⟩ := hentries
      obtain ⟨hpacked, hmembers⟩ := List.forall_mem_cons.mp hbefore
      rw [Layout.length_member, memberSize] at hpacked
      have hat : Member.at? file.toArray 0 directory start =
          some (packed.listed, start + packed.entry.length) :=
        Packed.at?_of_entry hfirst (by omega) (by omega) (by omega)
      simp only [List.length_cons, membersFrom?, hat, ih hrest hmembers, Option.bind_eq_bind,
        Option.bind_some, List.map_cons, Option.pure_def]

-- What these files are listed as: those that are no classes are passed over, and those that are follow
-- each other with their own names and bytes.
def listing (files : List Stored.File) : Listing Fault (List UInt8) where
  passedOver := (files.filter fun file => !file.isClass).map (·.name)
  entries := .ok ((files.filter (·.isClass)).map (·.classEntry))

theorem listOpened_packed {members : List Packed} {file : List UInt8}
    (hheld : ∀ packed ∈ members, packed.member <+: file.drop packed.offset) :
    listOpened ((members.map (·.listed)).map (Member.opened file.toArray)) =
      listing (members.map (·.toFile)) := by
  induction members with
  | nil => rfl
  | cons packed members ih =>
      obtain ⟨hpacked, hmembers⟩ := List.forall_mem_cons.mp hheld
      obtain ⟨opened, hopened, hname, hkind, hread⟩ := Packed.opened_of_member hpacked
      rw [List.map_cons, List.map_cons, List.map_cons, hopened]
      cases hclass : packed.isClass with
      | true =>
          rw [listOpened_of_class (hkind.trans hclass) hread, ih hmembers, hname]
          simp only [listing, List.filter_cons, hclass, if_true, Bool.not_true, Bool.false_eq_true,
            if_false]
          rfl
      | false =>
          rw [listOpened_of_other (hkind.trans hclass), ih hmembers, hname]
          simp only [listing, List.filter_cons, hclass, if_true, Bool.not_false, Bool.false_eq_true,
            if_false, List.map_cons]

namespace Packing

variable (packing : Packing)

theorem drop_data : packing.bytes.drop packing.data.length = packing.directory ++ packing.closing := by
  rw [bytes, List.append_assoc, List.drop_left]

theorem drop_directory :
    packing.bytes.drop (packing.data.length + packing.directory.length) = packing.closing := by
  rw [← List.drop_drop, drop_data, List.drop_left]

theorem directory_within : packing.directory <+: packing.bytes.drop packing.data.length := by
  rw [drop_data]
  exact List.prefix_append _ _

theorem closing_ne_nil : packing.closing ≠ [] := endRecord_ne_nil _ _ _ _

-- A member is in the data, and so in the file.
theorem member_within {packed : Packed} (hmem : packed ∈ packing.members) :
    packed.member <+: packing.bytes.drop packed.offset ∧
      packed.offset + packed.member.length ≤ packing.data.length := by
  have hheld := packing.held packed hmem
  have hwithin := length_le_of_prefix_drop hheld packed.member_ne_nil
  refine ⟨hheld.trans ?_, hwithin⟩
  rw [bytes, List.append_assoc, List.drop_append_of_le_length (by omega)]
  exact List.prefix_append _ _

theorem at?_closing :
    EndRecord.at? packing.bytes.toArray (packing.data.length + packing.directory.length) =
      some ⟨0, 0, packing.members.length, packing.members.length, packing.data.length⟩ := by
  have hclosing : packing.closing <+:
      packing.bytes.drop (packing.data.length + packing.directory.length) :=
    ⟨[], by rw [List.append_nil, drop_directory]⟩
  have hmembers := packing.members_fit
  have hdata := packing.data_fits
  rw [closing] at hclosing
  exact EndRecord.at?_of_endRecord hclosing (by omega) (by omega) packing.comment_fits

theorem at?_later {later : Nat} (h : packing.data.length + packing.directory.length < later) :
    EndRecord.at? packing.bytes.toArray later = none := by
  refine EndRecord.at?_eq_none ?_ h
  rw [drop_directory]
  exact packing.signature_once

-- The directory is where the record at the end says.
theorem directoryStart?_closing (entries : Nat) :
    directoryStart? packing.bytes.toArray (packing.data.length + packing.directory.length)
      ⟨0, 0, entries, packing.members.length, packing.data.length⟩ = some packing.data.length := by
  have hentries := packing.directory_within
  rw [directoryStart?]
  cases hmembers : packing.members with
  | nil =>
      have hempty : packing.directory.length = 0 := by
        rw [directory, hmembers, List.flatMap_nil, List.length_nil]
      rw [if_pos List.length_nil, hempty, Nat.add_zero, Nat.max_self]
  | cons packed members =>
      have hfirst : packed.entry <+: packing.bytes.drop packing.data.length := by
        rw [directory, hmembers, List.flatMap_cons] at hentries
        exact (List.prefix_append _ _).trans hentries
      obtain ⟨count, hcount⟩ : ∃ count, packing.directory.length = count + 1 := by
        apply Nat.exists_eq_add_one.mpr
        rw [directory, hmembers, List.flatMap_cons, List.length_append, Layout.length_entry, entrySize]
        omega
      rw [List.length_cons, if_neg (Nat.succ_ne_zero _), Nat.add_sub_cancel_left, hcount, firstEntry?,
        if_pos (Layout.slice_of_entry hfirst)]

theorem membersBefore?_closing :
    membersBefore? packing.bytes.toArray (packing.data.length + packing.directory.length) =
      some (packing.members.map (·.listed)) := by
  have hdata := packing.data_fits
  have hmembers := membersFrom?_of_entries packing.directory_within (by omega) fun packed hmem =>
    (packing.member_within hmem).2
  rw [membersBefore?, at?_closing, Option.bind_eq_bind, Option.bind_some, directoryStart?_closing,
    Option.bind_eq_bind, Option.bind_some, if_pos rfl, Nat.sub_self, hmembers]

theorem members?_bytes :
    members? packing.bytes.toArray = some (packing.members.map (·.listed)) := by
  have hwithin : packing.data.length + packing.directory.length < packing.bytes.toArray.size := by
    have hpos := List.length_pos_iff.mpr packing.closing_ne_nil
    rw [List.size_toArray, bytes, List.length_append, List.length_append]
    omega
  have hlater (later : Nat) (h : packing.data.length + packing.directory.length < later) :
      membersBefore? packing.bytes.toArray later = none := by
    rw [membersBefore?, at?_later packing h]
    rfl
  have hdistinct :
      (([] ++ packing.members.map fun packed : Packed => packed.listed).map Member.name).Nodup := by
    rw [List.nil_append, List.map_map]
    exact packing.distinct
  rw [members?, lastSome_eq_some packing.membersBefore?_closing hwithin hlater, Option.map_some,
    foldl_insertMember hdistinct, List.nil_append]

def files : List Stored.File := packing.members.map (·.toFile)

-- Reading back an archive gives what was packed into it.
theorem list_bytes : zip.list packing.bytes.toArray = listing packing.files := by
  have hlisted := listOpened_packed fun packed hmem => (packing.member_within hmem).1
  have hopened : zip.members packing.bytes.toArray =
      .ok ((packing.members.map (·.listed)).map (Member.opened packing.bytes.toArray)) := by
    simp only [zip, members?_bytes]
  rw [Unpacker.list, hopened]
  exact hlisted

end Packing

section Write

variable {files : List Stored.File} {comment : List UInt8}

-- The members that are put one after the other, from a place on, and the directory of them.
theorem exists_packed (hnames : ∀ file ∈ files, (Utf8.encode file.name).length < 0x10000)
    (start : Nat) :
    ∃ members : List Packed, members.map (·.toFile) = files ∧
      members.flatMap (·.entry) = Stored.directory start files ∧
      ∀ packed ∈ members, ∃ front, packed.offset = start + front.length ∧
        front ++ packed.member <+: files.flatMap Stored.member := by
  induction files generalizing start with
  | nil => exact ⟨[], rfl, rfl, fun _ hmem => absurd hmem List.not_mem_nil⟩
  | cons file files ih =>
      obtain ⟨hname, hnames⟩ := List.forall_mem_cons.mp hnames
      obtain ⟨members, hfiles, hentries, hplaces⟩ := ih hnames (start + (Stored.member file).length)
      refine ⟨.plain start file hname :: members, ?_, ?_,
        List.forall_mem_cons.mpr ⟨?_, fun other hother => ?_⟩⟩
      · rw [List.map_cons, hfiles]
        rfl
      · rw [List.flatMap_cons, hentries, Stored.directory]
        rfl
      · refine ⟨[], rfl, ?_⟩
        rw [List.nil_append, List.flatMap_cons]
        exact List.prefix_append _ _
      · obtain ⟨front, hoffset, hprefix⟩ := hplaces other hother
        refine ⟨Stored.member file ++ front, ?_, ?_⟩
        · rw [hoffset, List.length_append, Nat.add_assoc]
        · rw [List.flatMap_cons, List.append_assoc]
          exact (List.prefix_append_right_inj _).mpr hprefix

-- Any files with names of their own can be packed one after the other, within the limits.
theorem exists_packing (hdistinct : (files.map (·.name)).Nodup)
    (hnames : ∀ file ∈ files, (Utf8.encode file.name).length < 0x10000)
    (hfiles : files.length < 0xFFFF) (hdata : (files.flatMap Stored.member).length < 0xFFFFFFFF)
    (hdirectory : (Stored.directory 0 files).length < 0xFFFFFFFF) (hcomment : comment.length < 0x10000)
    (honce : ¬ endSignature <:+: (Stored.endRecord files.length (Stored.directory 0 files).length
      (files.flatMap Stored.member).length comment).tail) :
    ∃ packing : Packing, packing.files = files ∧ packing.bytes = Stored.write files comment := by
  obtain ⟨members, rfl, hentries, hplaces⟩ := exists_packed hnames 0
  rw [← hentries] at hdirectory honce
  rw [List.length_map] at hfiles honce
  rw [List.map_map] at hdistinct
  have hheld : ∀ packed ∈ members,
      packed.member <+: ((members.map (·.toFile)).flatMap Stored.member).drop packed.offset := by
    intro packed hmem
    obtain ⟨front, hoffset, rest, hrest⟩ := hplaces packed hmem
    refine ⟨rest, ?_⟩
    rw [← hrest, List.append_assoc, hoffset, Nat.zero_add, List.drop_left]
  refine ⟨⟨members, _, comment, hdistinct, hheld, hfiles, hdata, hdirectory, hcomment, honce⟩, rfl, ?_⟩
  rw [Packing.bytes, Packing.closing, Packing.directory, Stored.write, hentries, List.length_map]

end Write

end CallCensus.Archive
