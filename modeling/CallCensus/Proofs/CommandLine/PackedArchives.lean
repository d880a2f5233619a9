import CallCensus.Proofs.Archive.Packing
import CallCensus.Proofs.CommandLine.FileTree

namespace CallCensus.FileTree

open Archive

-- Reading back an archive gives what was packed into it: the files whose names end like that of a class
-- are listed in the order of the directory, each with its own bytes, and all others are passed over.
theorem list_packing {tree : FileTree} {path : String} {packing : Packing}
    (hfound : tree.find path = .ok (.file packing.bytes)) :
    tree.source.list path =
      ⟨(packing.files.filter fun file => !file.isClass).map (·.name),
        .ok ((packing.files.filter (·.isClass)).map (·.classEntry))⟩ := by
  rw [source, list_of_find hfound, listNode, packing.list_bytes]
  rfl

-- Two classes and a text between them, which stand in the archive the other way round than in its
-- directory. The text has a date, no flag for its name, and other data on both sides of its bytes.
def reversed : Packing :=
  let first : Packed := .plain 81 ⟨"B.class", [0xCA, 0xFE]⟩ (by decide)
  let text : Packed :=
    { Packed.plain 39 ⟨"a.txt", [1]⟩ (by decide) with
      flagged := false, padding := [9, 9, 9, 9], time := 0x6000, date := 0x5A21,
      legible := .inr (by decide), padding_fits := by decide }
  let last : Packed := .plain 0 ⟨"\u00C9.class", [7]⟩ (by decide)
  { members := [first, text, last]
    data := last.member ++ text.member ++ [0x50, 0x4B] ++ first.member
    comment := [0x50, 0x4B, 0x05]
    distinct := by decide
    held := by decide +kernel
    members_fit := by decide
    data_fits := by decide +kernel
    directory_fits := by decide +kernel
    comment_fits := by decide
    signature_once := by decide +kernel }

theorem list_packing_reversed :
    let tree : FileTree := ⟨[(["a.jar"], .file reversed.bytes)]⟩
    tree.source.list "a.jar" =
      ⟨["a.txt"], .ok [⟨"B.class", [0xCA, 0xFE]⟩, ⟨"\u00C9.class", [7]⟩]⟩ := by
  intro tree
  have hfound : tree.find "a.jar" = .ok (.file reversed.bytes) := rfl
  exact list_packing hfound

end CallCensus.FileTree
