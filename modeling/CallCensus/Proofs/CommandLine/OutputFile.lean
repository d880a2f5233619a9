import CallCensus.Archive.Stored
import CallCensus.CommandLine.Program
import CallCensus.Proofs.Census.MissingArchives
import CallCensus.Proofs.CommandLine.FileTree
import CallCensus.Proofs.CommandLine.OutputOption

namespace CallCensus

-- Two sources that cannot be told apart by what is at a path.
def Source.Agree {Content : Type} (source other : Source Content) (path : String) : Prop :=
  source.present path = other.present path ∧
    (source.present path = true → source.list path = other.list path)

namespace Buffered

theorem contents_write (file : Buffered) (bytes : List UInt8) :
    (file.write bytes).contents = file.contents ++ bytes := by
  obtain ⟨passed, held⟩ := file
  simp only [write, contents]
  by_cases hfull : capacity < held.length + bytes.length
  · rw [if_pos hfull]
    split <;> simp
  · rw [if_neg hfull]
    split
    · -- Only an empty buffer has room for bytes that would fill all of it.
      have hempty : held = [] := List.length_eq_zero_iff.mp (by omega)
      simp [hempty]
    · simp

-- As long as it all fits into the buffer, nothing goes through.
theorem writeAll_of_short {held : List UInt8} {texts : List (List UInt8)}
    (h : (held ++ texts.flatten).length < capacity) :
    writer.writeAll ⟨[], held⟩ texts = (.ok (), ⟨[], held ++ texts.flatten⟩) := by
  induction texts generalizing held with
  | nil => rw [List.flatten_nil, List.append_nil, Writer.writeAll]
  | cons bytes rest ih =>
      rw [List.flatten_cons, ← List.append_assoc] at h
      have hbytes : held.length + bytes.length < capacity := by
        rw [List.length_append, List.length_append] at h
        omega
      have hwrites : writer.write ⟨[], held⟩ bytes = (.ok (), ⟨[], held ++ bytes⟩) := by
        simp only [writer, write, if_neg (Nat.not_lt.mpr (Nat.le_of_lt hbytes)),
          if_neg (Nat.not_le.mpr (Nat.lt_of_le_of_lt (Nat.le_add_left _ _) hbytes))]
      rw [Writer.writeAll_cons_of_ok hwrites, ih h, List.flatten_cons, List.append_assoc]

end Buffered

namespace Census

variable {Content State : Type} {census : Census Content} {path : String}

-- A census looks at an archive, and at nothing else.
theorem visit_congr {other : Source Content} (h : census.source.Agree other path)
    (writer : Writer State) (summary : Summary) (state : State) :
    { census with source := other }.visit writer summary state path =
      census.visit writer summary state path := by
  obtain ⟨hpresent, hlist⟩ := h
  rw [visit, visit, ← hpresent]
  by_cases hthere : census.source.present path
  · have hsurvey : census.survey path = { census with source := other }.survey path := by
      simp only [survey, Survey.build, Survey.listEntries, hlist hthere]
    simp only [if_pos hthere, ← hsurvey]
  · simp only [if_neg hthere]

-- A file gets what a sink would, as long as it makes no difference to the archives what is in it.
theorem runOver_buffered {source : Buffered → Source Content} {paths : List String}
    (h : ∀ path ∈ paths, ∀ file, census.source.Agree (source file) path) (summary : Summary)
    (file : Buffered) :
    let outcome := runOver Buffered.writer (fun file => { census with source := source file }) summary
      file paths
    let free := census.runTo Sink.writer summary (openSink file.contents) paths
    outcome.events = free.events ∧ outcome.result = free.result ∧
      outcome.sink.contents = free.sink.written := by
  induction paths generalizing summary file with
  | nil => exact ⟨rfl, rfl, List.append_nil _⟩
  | cons path paths ih =>
      obtain ⟨hfirst, hrest⟩ := List.forall_mem_cons.mp h
      simp only [runOver, runTo_cons, visit_congr (hfirst file)]
      cases hpresent : census.source.present path with
      | false =>
          obtain ⟨hevents, hresult, hwritten⟩ :=
            ih hrest { summary with missing := summary.missing ++ [path] } file
          simp only [visit_missing _ summary _ hpresent, Outcome.bind, Outcome.after, hevents, hresult,
            hwritten, and_self]
      | true =>
          cases hportion : census.portion path with
          | error failure =>
              simp only [visit_failing _ summary _ hpresent hportion, Outcome.bind]
              exact ⟨trivial, trivial, rfl⟩
          | ok portion =>
              have hfile : Buffered.writer.write file portion.bytes =
                  (.ok (), file.write portion.bytes) := rfl
              have hsink : Sink.writer.write (openSink file.contents) portion.bytes =
                  (.ok (), openSink (file.write portion.bytes).contents) := by
                rw [Buffered.contents_write]
                rfl
              obtain ⟨hevents, hresult, hwritten⟩ := ih hrest _ (file.write portion.bytes)
              simp only [visit_present summary hpresent hportion hfile,
                visit_present summary hpresent hportion hsink, Outcome.bind, Outcome.after]
              exact ⟨congrArg _ hevents, hresult, hwritten⟩

end Census

namespace FileTree

variable {Error : Type} {unpacker : Archive.Unpacker Error} {tree : FileTree} {path : String}

-- What keeps either tree from finding anything may differ, but nobody asks for it.
theorem agree_of_find {other : FileTree}
    (h : ∀ node, tree.find path = .ok node ↔ other.find path = .ok node) :
    (tree.sourceBy unpacker).Agree (other.sourceBy unpacker) path := by
  refine ⟨Bool.eq_iff_iff.mpr ?_, fun hpresent => ?_⟩
  · rw [present_iff, present_iff]
    exact exists_congr h
  · obtain ⟨node, hnode⟩ := present_iff.mp hpresent
    rw [list_of_find hnode, list_of_find ((h node).mp hnode)]

-- An empty file is there, but it is no archive.
theorem entries_of_find_empty (h : tree.find path = .ok (.file [])) :
    tree.source.present path = true ∧ ∃ failure,
      (tree.source.list path).entries = .error failure := by
  refine ⟨present_iff.mpr ⟨_, h⟩, ?_⟩
  rw [source, list_of_find h]
  exact ⟨_, rfl⟩

end FileTree

namespace CommandLine

section Runs

variable {options : Options} {path : String} {tree : FileTree} {place : List String}

theorem endingOf_congr {State Other : Type} {outcome : Census.Outcome State}
    {other : Census.Outcome Other} (hevents : outcome.events = other.events)
    (hresult : outcome.result = other.result) (verbosity : Option Verbosity) (printed : List UInt8) :
    endingOf options verbosity outcome printed = endingOf options verbosity other printed := by
  rw [endingOf, endingOf, hevents, hresult]

theorem status_endingOf {State : Type} {outcome : Census.Outcome State} {failure : Failure}
    (h : outcome.result = .error failure) (verbosity : Option Verbosity) (printed : List UInt8) :
    (endingOf options verbosity outcome printed).status = 1 := by
  simp only [endingOf, h]

theorem output_endingOf {State : Type} (outcome : Census.Outcome State)
    (verbosity : Option Verbosity) (printed : List UInt8) :
    (endingOf options verbosity outcome printed).output = printed := by
  rw [endingOf]
  cases outcome.result <;> rfl

theorem endingOf_printed {State : Type} (outcome : Census.Outcome State)
    (verbosity : Option Verbosity) (printed other : List UInt8) :
    endingOf options verbosity outcome other =
      { endingOf options verbosity outcome printed with output := other } := by
  rw [endingOf, endingOf]
  cases outcome.result <;> rfl

-- Where no archive is the output file, a program ends as if it printed, and the file gets the output.
theorem analyzeInto_of_apart
    (h : ∀ archive ∈ options.archives, ∀ bytes,
      tree.source.Agree (tree.put place (.file bytes)).source archive)
    (verbosity : Option Verbosity) :
    let ending := analyze options verbosity tree.source
    analyzeInto options verbosity tree place =
      ({ ending with output := [] }, tree.put place (.file ending.output)) := by
  have hagree : ∀ archive ∈ options.archives, ∀ file : Buffered,
      (options.census tree.source).source.Agree (tree.put place (.file file.passed)).source archive :=
    fun archive harchive file => h archive harchive file.passed
  obtain ⟨hevents, hresult, hcontents⟩ := Census.runOver_buffered hagree .empty .empty
  intro ending
  have houtput : ending.output = _ := output_endingOf _ verbosity _
  rw [houtput]
  refine Prod.ext ?_ (congrArg (fun bytes => tree.put place (.file bytes)) hcontents)
  exact (endingOf_congr hevents hresult verbosity []).trans (endingOf_printed _ verbosity _ [])

-- The file is empty as long as what is printed fits into the buffer. Where an archive cannot be read
-- then, the file gets what was printed of those before.
theorem analyzeInto_of_unreadable {before after : List String} {archive : String}
    (harchives : options.archives = before ++ archive :: after) {portions : List Portion}
    (hgives : (options.census (tree.put place (.file [])).source).Gives before portions)
    (hshort : (Portion.output portions).length < Buffered.capacity) {failure : Failure}
    (hpresent : (tree.put place (.file [])).source.present archive = true)
    (hfails : ((tree.put place (.file [])).source.list archive).entries = .error failure)
    (verbosity : Option Verbosity) :
    (analyzeInto options verbosity tree place).1.status = 1 ∧
      (analyzeInto options verbosity tree place).2 =
        tree.put place (.file (Portion.output portions)) := by
  have hportion : (options.census (tree.put place (.file [])).source).portion archive =
      .error failure := Census.portion_of_listing_error hfails
  have hheld {front : List (List UInt8)} (hstart : front <+: portions.map (·.bytes)) :
      Buffered.writer.writeAll .empty front = (.ok (), ⟨[], front.flatten⟩) := by
    obtain ⟨back, hback⟩ := hstart
    have hlength := congrArg (fun texts : List (List UInt8) => texts.flatten.length) hback
    simp only [Census.flatten_bytes, List.flatten_append, List.length_append] at hlength
    exact Buffered.writeAll_of_short (by rw [List.nil_append]; omega)
  have hfound (front : List (List UInt8)) (middle : Buffered)
      (hstart : front <+: portions.map (·.bytes))
      (hwrites : Buffered.writer.writeAll .empty front = (.ok (), middle)) :
      options.census (tree.put place (.file middle.passed)).source =
        options.census (tree.put place (.file [])).source := by
    rw [hheld hstart] at hwrites
    cases hwrites
    rfl
  have hwrites := hheld (List.prefix_refl _)
  rw [Census.flatten_bytes] at hwrites
  have hrun := Census.runOver_append hgives hwrites hfound (archive :: after) .empty
  rw [Census.runOver, Census.visit_failing _ _ _ hpresent hportion] at hrun
  rw [analyzeInto, harchives, hrun]
  exact ⟨rfl, rfl⟩

theorem run_printing {arguments : List String} (h : parse arguments = .ok (.analyze options))
    (hprints : options.output = none) (verbosity : Option Verbosity) :
    run arguments verbosity tree = (analyze options verbosity tree.source, tree) := by
  simp only [run, h, hprints]

theorem run_sending {arguments : List String} (h : parse arguments = .ok (.analyze options))
    (hsends : options.output = some path) (hplace : tree.placeFor path = .ok place)
    (verbosity : Option Verbosity) :
    run arguments verbosity tree = analyzeInto options verbosity tree place := by
  simp only [run, h, hsends, hplace]

end Runs

-- A file that is chosen for the output gets what would be printed, and nothing else changes, as long
-- as none of the archives is that file. Where the first archive is, it is emptied before it is read,
-- so that it cannot be read any more.
theorem run_choosing_output {path : String} {plain chosen : List String} {request : Request}
    (hchooses : ChoosesOutput path plain chosen) (h : parse chosen = .ok request) {tree : FileTree}
    {place : List String} (hplace : tree.placeFor path = .ok place) (verbosity : Option Verbosity) :
    let sent := run chosen verbosity tree
    let printed := run plain verbosity tree
    match request with
    | .analyze options =>
      printed.2 = tree ∧ sent.1.output = [] ∧
        (∀ other, other ≠ place → sent.2.node? other = tree.node? other) ∧
        ((∀ archive ∈ options.archives, ¬ tree.LeadsTo archive place) →
          sent.1.status = printed.1.status ∧ sent.1.diagnostics = printed.1.diagnostics ∧
            sent.2.find path = .ok (.file printed.1.output) ∧
            ∀ archive ∈ options.archives, ∀ node,
              sent.2.find archive = .ok node ↔ tree.find archive = .ok node) ∧
        ∀ archive rest, options.archives = archive :: rest → tree.LeadsTo archive place →
          sent.1.status = 1 ∧ sent.2.find archive = .ok (.file [])
    | _ => sent = printed := by
  intro sent printed
  obtain ⟨hplain, hsends⟩ := parse_of_choosesOutput hchooses h
  cases request with
  | version =>
      show run chosen verbosity tree = run plain verbosity tree
      rw [run, run, h, hplain]
      rfl
  | help =>
      show run chosen verbosity tree = run plain verbosity tree
      rw [run, run, h, hplain]
      rfl
  | analyze options =>
      obtain ⟨hleads, hfree⟩ := FileTree.leadsTo_of_placeFor hplace
      have hprinted : printed = (analyze options verbosity tree.source, tree) :=
        run_printing hplain rfl verbosity
      have hsent : sent = analyzeInto options verbosity tree place :=
        run_sending h hsends hplace verbosity
      simp only [hprinted, hsent]
      refine ⟨trivial, output_endingOf _ verbosity [], ?_, ?_, ?_⟩
      · exact fun other hother => FileTree.node?_put_of_ne hother _
      · intro hapart
        have hfind (archive : String) (harchive : archive ∈ options.archives) (bytes : List UInt8)
            (node : FileNode) :
            (tree.put place (.file bytes)).find archive = .ok node ↔ tree.find archive = .ok node :=
          FileTree.find_put_of_apart hfree (hapart archive harchive)
        have hagree : ∀ archive ∈ options.archives, ∀ bytes,
            tree.source.Agree (tree.put place (.file bytes)).source archive :=
          fun archive harchive bytes =>
            FileTree.agree_of_find fun node => (hfind archive harchive bytes node).symm
        rw [analyzeInto_of_apart hagree verbosity]
        exact ⟨rfl, rfl, FileTree.find_put_of_leadsTo hfree hleads,
          fun archive harchive => hfind archive harchive _⟩
      · intro archive rest harchives harchive
        have hempty : (tree.put place (.file [])).find archive = .ok (.file []) :=
          FileTree.find_put_of_leadsTo hfree harchive
        obtain ⟨hpresent, failure, hfails⟩ := FileTree.entries_of_find_empty hempty
        have hnone : (options.census (tree.put place (.file [])).source).Gives [] [] := .nil
        obtain ⟨hstatus, hleft⟩ := analyzeInto_of_unreadable harchives hnone
          (by decide) hpresent hfails verbosity
        rw [hleft]
        exact ⟨hstatus, hempty⟩

section Lone

-- One archive, in which there are no classes.
def loneArchive : FileTree := ⟨[(["a.jar"], .file (Archive.Stored.write [] []))]⟩

-- The document about the archive goes to another file, or takes the archive away.
theorem run_choosing_output_json :
    let arguments := ["-f", "json", "a.jar"]
    let apart := ["-f", "json", "-o", "b.json", "a.jar"]
    let within := ["-f", "json", "-o", "a.jar", "a.jar"]
    (run arguments none loneArchive).1 =
        ⟨0, Utf8.encode "\x7b\x22archive\x22:\x22a.jar\x22,\x22classes\x22:[]\x7d\n", []⟩ ∧
      (run apart none loneArchive).1.status = 0 ∧
      (run apart none loneArchive).2.find "b.json" =
        .ok (.file (run arguments none loneArchive).1.output) ∧
      (run within none loneArchive).1.status = 1 ∧
      (run within none loneArchive).2.find "a.jar" = .ok (.file []) := by
  intro arguments apart within
  have hprinted : (run arguments none loneArchive).1 =
      ⟨0, Utf8.encode "\x7b\x22archive\x22:\x22a.jar\x22,\x22classes\x22:[]\x7d\n", []⟩ := by
    decide +kernel
  have hchooses (path : String) (hend : "--" ∉ ["-o", path])
      (hpieces : pieces ["-o", path] = [.option .output none, .path path]) :
      ChoosesOutput path arguments ["-f", "json", "-o", path, "a.jar"] := by
    have hfront : "--" ∉ ["-f", "json"] := by decide
    have hnamed : NamesOutput path (pieces ["-o", path]) := by
      rw [hpieces]
      exact .apart
    exact choosesOutput_of_arguments hfront hend hnamed ["a.jar"]
  have hother := run_choosing_output (hchooses "b.json" (by decide) (by decide +kernel))
    (show parse apart = .ok (.analyze ⟨["a.jar"], .json, some "b.json", false, false⟩) by
      decide +kernel)
    (show loneArchive.placeFor "b.json" = .ok ["b.json"] by decide +kernel) none
  have hself := run_choosing_output (hchooses "a.jar" (by decide) (by decide +kernel))
    (show parse within = .ok (.analyze ⟨["a.jar"], .json, some "a.jar", false, false⟩) by
      decide +kernel)
    (show loneArchive.placeFor "a.jar" = .ok ["a.jar"] by decide +kernel) none
  have hleads : loneArchive.LeadsTo "a.jar" ["a.jar"] := ⟨by decide +kernel, by decide +kernel⟩
  have hapart : ∀ archive ∈ ["a.jar"], ¬ loneArchive.LeadsTo archive ["b.json"] := by
    intro archive harchive hother
    rw [List.mem_singleton.mp harchive] at hother
    have hsame : ["a.jar"] = ["b.json"] := Except.ok.inj (hleads.2.symm.trans hother.2)
    exact absurd hsame (by decide)
  obtain ⟨hstatus, -, hfound, -⟩ := hother.2.2.2.1 hapart
  obtain ⟨hfails, hemptied⟩ := hself.2.2.2.2 "a.jar" [] rfl hleads
  exact ⟨hprinted, hstatus.trans (by rw [hprinted]), hfound, hfails, hemptied⟩

-- An archive that is missing is passed over with a warning, but not when it is the output file. One
-- that is there is lost when it is the output file.
theorem run_choosing_output_archive :
    let missing := "gone.jar"
    let archive := "a.jar"
    FileTree.empty.placeFor missing = .ok [missing] ∧
      (run [missing] none .empty).1 = ⟨0, [], ["WARN Jar file gone.jar does not exist"]⟩ ∧
      (run ["-o", missing, missing] none .empty).1.status = 1 ∧
      loneArchive.placeFor archive = .ok [archive] ∧
      (run [archive] none loneArchive).1 = ⟨0, [], []⟩ ∧
      (run ["-o", archive, archive] none loneArchive).1.status = 1 ∧
      (run ["-o", archive, archive] none loneArchive).2.find archive ≠ loneArchive.find archive := by
  decide +kernel

end Lone

end CommandLine

end CallCensus
