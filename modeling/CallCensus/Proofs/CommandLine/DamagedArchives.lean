import CallCensus.Archive.Stored
import CallCensus.Proofs.Archive.Listing
import CallCensus.Proofs.CommandLine.OutputFile

namespace CallCensus

-- A census does not succeed where an archive is there and cannot be listed.
theorem Census.run_ne_ok_of_unlisted {Content : Type} {census : Census Content} {paths : List String}
    {path : String} (hmem : path ∈ paths) (hpresent : census.source.present path = true)
    {failure : Failure} (hfails : (census.source.list path).entries = .error failure) (sink : Sink)
    (total : Summary) : (census.run paths sink).result ≠ .ok total := by
  intro hok
  obtain ⟨portions, hgives, -⟩ := gives_of_ok hok
  obtain ⟨portion, hportion⟩ := exists_portion_of_gives hgives hmem hpresent
  rw [portion_of_listing_error hfails] at hportion
  cases hportion

theorem CommandLine.status_analyze_of_unlisted {options : Options} {source : Source (List UInt8)}
    {path : String} (hmem : path ∈ options.archives) (hpresent : source.present path = true)
    {failure : Failure} (hfails : (source.list path).entries = .error failure)
    (verbosity : Option Verbosity) : (analyze options verbosity source).status = 1 := by
  cases hresult : ((options.census source).run options.archives .unlimited).result with
  | ok total => exact absurd hresult (Census.run_ne_ok_of_unlisted hmem hpresent hfails _ total)
  | error failure => exact status_endingOf hresult verbosity _

-- Without a listing there is nothing to decode.
theorem Survey.outcome_build_of_unlisted {Content : Type} {source : Source Content} {path : String}
    {failure : Failure} (hfails : (source.list path).entries = .error failure) (policy : Policy)
    (decoder : Decoder Content) : (build policy decoder source path).outcome = .error failure := by
  rw [outcome_build, hfails]
  rfl

namespace FileTree

open Archive

variable {Error : Type} {unpacker : Unpacker Error} {tree : FileTree} {path : String}
  {bytes : List UInt8} {members : List (Opening Error)}

theorem list_of_members (hfound : tree.find path = .ok (.file bytes))
    (hopened : unpacker.members bytes.toArray = .ok members) :
    (tree.sourceBy unpacker).list path =
      (listOpened members).mapError fun error =>
        .unreadableArchive path (unpacker.message error) := by
  simp only [list_of_find hfound, listNode, Unpacker.list, hopened]

theorem entries_list_of_members (hfound : tree.find path = .ok (.file bytes))
    (hopened : unpacker.members bytes.toArray = .ok members) :
    ((tree.sourceBy unpacker).list path).entries = (listOpened members).entries.mapError
      fun error => .unreadableArchive path (unpacker.message error) := by
  rw [list_of_members hfound hopened]
  rfl

theorem entries_list_eq_ok_iff (hfound : tree.find path = .ok (.file bytes))
    (hopened : unpacker.members bytes.toArray = .ok members)
    {entries : List (ClassEntry (List UInt8))} :
    ((tree.sourceBy unpacker).list path).entries = .ok entries ↔
      (listOpened members).entries = .ok entries := by
  rw [entries_list_of_members hfound hopened]
  cases (listOpened members).entries <;> simp [Except.mapError]

-- Whatever it is that opens archives, one that it opens is listed as a whole or not at all: if and only
-- if all of its members can be opened and those that are classes can be read to their end, its classes
-- are listed in the order of the members. Else nothing is listed, and the archive is told to be
-- unreadable for the first member that is. This comes before any class is decoded, so that it does not
-- matter whether there are malformed classes, or whether such are to be left out, and the program
-- fails. The bytes of members that are no classes make no difference.
theorem list_all_or_nothing (hfound : tree.find path = .ok (.file bytes))
    (hopened : unpacker.members bytes.toArray = .ok members) :
    let source := tree.sourceBy unpacker
    ((∃ entries, (source.list path).entries = .ok entries) ↔ ∀ member ∈ members, member.Readable) ∧
    (∀ entries, (source.list path).entries = .ok entries →
      List.Forall₂ Opening.ListedAs (members.filter Opening.isClass) entries) ∧
    ((∃ member ∈ members, ¬ member.Readable) →
      ∃ before member after error, members = before ++ member :: after ∧
        (∀ earlier ∈ before, earlier.Readable) ∧ member.found = .error error ∧
        (source.list path).entries = .error (.unreadableArchive path (unpacker.message error)) ∧
        (∀ policy decoder, (Survey.build policy decoder source path).outcome =
          .error (.unreadableArchive path (unpacker.message error))) ∧
        ∀ options verbosity, path ∈ options.archives →
          (CommandLine.analyze options verbosity source).status = 1) ∧
    ∀ (other : FileTree) (twin : List UInt8) (twins : List (Opening Error)),
      other.find path = .ok (.file twin) → unpacker.members twin.toArray = .ok twins →
      List.Forall₂ Opening.Alike members twins →
      (other.sourceBy unpacker).list path = source.list path := by
  intro source
  refine ⟨?_, ?_, fun hunreadable => ?_, fun other twin twins hother htwins halike => ?_⟩
  · simp only [source, entries_list_eq_ok_iff hfound hopened]
    exact isOk_listOpened_iff
  · intro entries h
    exact listedAs_of_listOpened ((entries_list_eq_ok_iff hfound hopened).mp h)
  · cases hlisted : (listOpened members).entries with
    | ok entries =>
        obtain ⟨member, hmember, hdamaged⟩ := hunreadable
        exact absurd (isOk_listOpened_iff.mp ⟨entries, hlisted⟩ member hmember) hdamaged
    | error error =>
        obtain ⟨before, member, after, hsplit, hbefore, herror⟩ := listOpened_eq_error_iff.mp hlisted
        have hfails : (source.list path).entries =
            .error (.unreadableArchive path (unpacker.message error)) := by
          rw [entries_list_of_members hfound hopened, hlisted]
          rfl
        exact ⟨before, member, after, error, hsplit, hbefore, herror, hfails,
          Survey.outcome_build_of_unlisted hfails, fun options verbosity hmem =>
            CommandLine.status_analyze_of_unlisted hmem (present_iff.mpr ⟨_, hfound⟩) hfails verbosity⟩
  · rw [list_of_members hother htwins, list_of_members hfound hopened,
      listOpened_eq_of_alike halike]

-- A text, a class that is none and a sound class, in front of which the text has another byte than its
-- checksum says, and then also the sound class.
theorem list_all_or_nothing_garbled :
    let packed := Stored.write [⟨"a.txt", [1]⟩, ⟨"B.class", [0xCA]⟩, ⟨"C.class", [7]⟩] []
    let garbled := packed.set 35 9
    let damaged := garbled.set 111 8
    let holding (bytes : List UInt8) : FileTree := ⟨[(["a.jar"], .file bytes)]⟩
    (∃ entries, ((holding garbled).source.list "a.jar").entries = .ok entries) ∧
      ∃ reason,
        ((holding damaged).source.list "a.jar").entries = .error (.unreadableArchive "a.jar" reason) ∧
        (∀ policy, (Survey.build policy DecodedClass.ofBytes (holding damaged).source "a.jar").outcome =
          .error (.unreadableArchive "a.jar" reason)) ∧
        (CommandLine.analyze ⟨["a.jar"], .csv, none, true, false⟩ none (holding damaged).source).status =
          1 := by
  intro packed garbled damaged holding
  let text : Member := ⟨"a.txt", false, 0, 2768625435, 1, 0⟩
  let malformed : Member := ⟨"B.class", false, 0, 2847130659, 1, 36⟩
  let sound : Member := ⟨"C.class", false, 0, 1281784366, 1, 74⟩
  have hgarbled : members? garbled.toArray = some [text, malformed, sound] := by decide +kernel
  have hdamaged : members? damaged.toArray = some [text, malformed, sound] := by decide +kernel
  have htext : (text.opened garbled.toArray).found = .ok none := by decide +kernel
  have hmalformed : (malformed.opened garbled.toArray).found = .ok (some ⟨"B.class", [0xCA]⟩) := by
    decide +kernel
  have hsound : (sound.opened garbled.toArray).found = .ok (some ⟨"C.class", [7]⟩) := by
    decide +kernel
  have hwrong : (sound.opened damaged.toArray).found = .error .wrongChecksum := by decide +kernel
  have hreadable : ∀ member ∈ [text, malformed, sound].map (Member.opened garbled.toArray),
      member.Readable := by
    simp only [List.forall_mem_map, List.forall_mem_cons, Opening.readable_iff]
    exact ⟨⟨_, htext⟩, ⟨_, hmalformed⟩, ⟨_, hsound⟩, List.forall_mem_nil _⟩
  have hunreadable : ¬ (sound.opened damaged.toArray).Readable := by
    intro h
    obtain ⟨found, hfound⟩ := Opening.readable_iff.mp h
    cases hwrong.symm.trans hfound
  have hopened {file : Array UInt8} (h : members? file = some [text, malformed, sound]) :
      zip.members file = .ok ([text, malformed, sound].map (Member.opened file)) := by
    simp only [zip, h]
  have hlisted := (@list_all_or_nothing _ zip (holding garbled) "a.jar" _ _ rfl
    (hopened hgarbled)).1.mpr hreadable
  obtain ⟨-, -, hfails, -⟩ := @list_all_or_nothing _ zip (holding damaged) "a.jar" _ _ rfl
    (hopened hdamaged)
  obtain ⟨_, _, _, error, -, -, -, hnothing, hbuild, hstatus⟩ := hfails ⟨sound.opened damaged.toArray,
    List.mem_cons_of_mem _ (List.mem_cons_of_mem _ List.mem_cons_self), hunreadable⟩
  exact ⟨hlisted, error.message, hnothing, fun policy => hbuild policy _,
    hstatus _ _ List.mem_cons_self⟩

end FileTree

end CallCensus
