import CallCensus.CommandLine.Options
import CallCensus.Proofs.Results

namespace CallCensus.CommandLine

-- The pieces of an option that names the output file: its value is attached, or comes next.
inductive NamesOutput (path : String) : List Piece → Prop where
  | attached : NamesOutput path [.option .output (some path)]
  | apart : NamesOutput path [.option .output none, .path path]

-- Two command lines that are the same, but that the second names a file for the output.
def ChoosesOutput (path : String) (plain chosen : List String) : Prop :=
  ∃ front named back, NamesOutput path named ∧ pieces plain = front ++ back ∧
    pieces chosen = front ++ named ++ back

-- What is asked for, with the output on the standard output.
def Request.withoutFile : Request → Request
  | .analyze options => .analyze { options with output := none }
  | .version => .version
  | .help => .help

-- A request for an analysis sends its output to this file.
def Request.SendsTo (path : String) : Request → Prop
  | .analyze options => options.output = some path
  | _ => True

namespace Given

def withoutFile (given : Given) : Given := { given with output := none }

theorem withoutFile_of_none (given : Given) (h : given.output = none) : given.withoutFile = given := by
  rw [withoutFile, ← h]

-- A step of the parser that has nothing to do with the output file.
def Apart (step : Given → Except UsageError Given) : Prop :=
  ∀ given next, step given = .ok next →
    step given.withoutFile = .ok next.withoutFile ∧ next.output = given.output

-- What is refused, and what is set otherwise, are other parts of what was given.
theorem apart_ite {refused : Given → Prop} [DecidablePred refused] {error : UsageError}
    {update : Given → Given} (hrefused : ∀ given, refused given.withoutFile ↔ refused given)
    (hupdate : ∀ given, update given.withoutFile = (update given).withoutFile)
    (houtput : ∀ given, (update given).output = given.output) :
    Apart fun given => if refused given then .error error else .ok (update given) := by
  intro given next h
  dsimp only at h ⊢
  by_cases hgiven : refused given
  · rw [if_pos hgiven] at h
    cases h
  · rw [if_neg hgiven] at h
    obtain rfl := Except.ok.inj h
    refine ⟨?_, houtput given⟩
    rw [if_neg (mt (hrefused given).mp hgiven), hupdate]

theorem apart_addArchive (text : String) : Apart (·.addArchive text) :=
  apart_ite (fun _ => Iff.rfl) (fun _ => rfl) fun _ => rfl

theorem apart_setFormat (value : String) : Apart (·.setFormat value) := by
  unfold setFormat
  cases OutputFormat.parse value with
  | error unknown =>
      intro given next h
      cases h
  | ok format => exact apart_ite (fun _ => Iff.rfl) (fun _ => rfl) fun _ => rfl

theorem apart_setSkipMalformed : Apart setSkipMalformed :=
  apart_ite (fun _ => Iff.rfl) (fun _ => rfl) fun _ => rfl

theorem apart_setVerbose : Apart setVerbose :=
  apart_ite (fun _ => Iff.rfl) (fun _ => rfl) fun _ => rfl

-- A file for the output is named at most once.
theorem setOutput_eq_ok_iff {given next : Given} {path : String} :
    given.setOutput path = .ok next ↔
      path ≠ "" ∧ given.output = none ∧ next = { given with output := some path } := by
  unfold setOutput
  by_cases hempty : path = ""
  · simp [hempty]
  · rw [if_neg hempty]
    cases houtput : given.output with
    | none => simp [hempty, eq_comm]
    | some _ => simp

end Given

section Parsing

variable {path : String} {given : Given}

-- What is read with a file for the output, and what is read of the same pieces without it.
def Same (path : String) (result other : Except UsageError Request) : Prop :=
  ∀ request, result = .ok request → other = .ok request.withoutFile ∧ request.SendsTo path

theorem same_error (error : UsageError) (other : Except UsageError Request) :
    Same path (.error error) other := by
  intro request h
  cases h

theorem Given.Apart.same {step : Given → Except UsageError Given} (hstep : Apart step)
    {rest : List Piece} (hnamed : given.output = some path)
    (hrest : ∀ next : Given, next.output = some path →
      Same path (parsePieces next rest) (parsePieces next.withoutFile rest)) :
    Same path (step given >>= fun next => parsePieces next rest)
      (step given.withoutFile >>= fun next => parsePieces next rest) := by
  intro request h
  obtain ⟨next, hnext, h⟩ := Results.bind_eq_ok_iff.mp h
  obtain ⟨hwithout, houtput⟩ := hstep given next hnext
  obtain ⟨hparsed, hsends⟩ := hrest next (houtput.trans hnamed) request h
  exact ⟨Results.bind_eq_ok_iff.mpr ⟨_, hwithout, hparsed⟩, hsends⟩

theorem same_finish (hnamed : given.output = some path) :
    Same path given.finish given.withoutFile.finish := by
  intro request h
  unfold Given.finish at h ⊢
  split at h
  · cases h
  · rename_i hsome
    obtain rfl := Except.ok.inj h
    exact ⟨if_neg hsome, hnamed⟩

theorem same_setOutput (hnamed : given.output = some path) (value : String) (rest : List Piece)
    (other : Except UsageError Request) :
    Same path (given.setOutput value >>= fun next => parsePieces next rest) other := by
  intro request h
  obtain ⟨next, hnext, -⟩ := Results.bind_eq_ok_iff.mp h
  rw [Given.setOutput_eq_ok_iff, hnamed] at hnext
  cases hnext.2.1

-- An option that takes a value is refused where none comes next.
theorem parsePieces_missing (given : Given) {name : OptionName} {tail : List Piece}
    (hname : name.takesValue) (htail : ∀ value rest, tail ≠ .path value :: rest) :
    parsePieces given (.option name none :: tail) = .error (.missingValue name) := by
  rw [parsePieces]
  · rintro value rest rfl
    exact absurd rfl (htail value rest)
  · rintro value rest rfl
    exact absurd rfl (htail value rest)
  all_goals
    rintro rfl
    cases hname

theorem parsePieces_unexpected (given : Given) {name : OptionName} (hformat : name ≠ .format)
    (houtput : name ≠ .output) (value : String) (tail : List Piece) :
    parsePieces given (.option name (some value) :: tail) = .error (.unexpectedValue name) := by
  rw [parsePieces]
  · exact hformat
  · exact houtput

-- What the parser has not taken for anything else is an option that lacks its value.
theorem lacks_value {name : OptionName} {tail : List Piece}
    (hformat : ∀ value rest, tail = .path value :: rest → name ≠ .format)
    (houtput : ∀ value rest, tail = .path value :: rest → name ≠ .output)
    (hskip : name ≠ .skipMalformed) (hverbose : name ≠ .verbose) (hversion : name ≠ .version)
    (hhelp : name ≠ .help) : name.takesValue ∧ ∀ value rest, tail ≠ .path value :: rest := by
  cases name with
  | format => exact ⟨rfl, fun value rest heq => hformat value rest heq rfl⟩
  | output => exact ⟨rfl, fun value rest heq => houtput value rest heq rfl⟩
  | skipMalformed => exact absurd rfl hskip
  | verbose => exact absurd rfl hverbose
  | version => exact absurd rfl hversion
  | help => exact absurd rfl hhelp

-- Once the file is named, the rest of the command line is read as it would be without it.
theorem same_parsePieces (rest : List Piece) (hnamed : given.output = some path) :
    Same path (parsePieces given rest) (parsePieces given.withoutFile rest) := by
  induction given, rest using parsePieces.induct with
  | case1 given => exact same_finish hnamed
  | case2 given text rest ih => exact (Given.apart_addArchive text).same hnamed ih
  | case3 given rest ih => exact ih hnamed
  | case4 given text tail => exact same_error _ _
  | case5 given value rest ih => exact (Given.apart_setFormat value).same hnamed ih
  | case6 given value rest ih => exact (Given.apart_setFormat value).same hnamed ih
  | case7 given value rest ih => exact same_setOutput hnamed value rest _
  | case8 given value rest ih => exact same_setOutput hnamed value rest _
  | case9 given rest ih => exact Given.apart_setSkipMalformed.same hnamed ih
  | case10 given rest ih => exact Given.apart_setVerbose.same hnamed ih
  | case11 given tail =>
      rintro request ⟨⟩
      exact ⟨rfl, trivial⟩
  | case12 given tail =>
      rintro request ⟨⟩
      exact ⟨rfl, trivial⟩
  | case13 given name tail hformat houtput hskip hverbose hversion hhelp =>
      obtain ⟨hname, htail⟩ := lacks_value hformat houtput hskip hverbose hversion hhelp
      rw [parsePieces_missing given hname htail]
      exact same_error _ _
  | case14 given name value tail hformat houtput =>
      rw [parsePieces_unexpected given hformat houtput]
      exact same_error _ _

theorem parsePieces_named {named : List Piece} (hnamed : NamesOutput path named) (given : Given)
    (back : List Piece) :
    parsePieces given (named ++ back) =
      given.setOutput path >>= fun next => parsePieces next back := by
  cases hnamed <;> rfl

-- The option may stand wherever it is read as one.
theorem same_parsePieces_append {named : List Piece} (hnamed : NamesOutput path named)
    (front back : List Piece) :
    Same path (parsePieces given (front ++ named ++ back)) (parsePieces given (front ++ back)) := by
  have hbind (step : Except UsageError Given) (rest : List Piece)
      (ih : ∀ next : Given, Same path (parsePieces next (rest ++ named ++ back))
        (parsePieces next (rest ++ back))) :
      Same path (step >>= fun next => parsePieces next (rest ++ named ++ back))
        (step >>= fun next => parsePieces next (rest ++ back)) := by
    cases step with
    | error error => exact same_error _ _
    | ok next => exact ih next
  induction given, front using parsePieces.induct with
  | case1 given =>
      intro request h
      rw [List.nil_append, parsePieces_named hnamed] at h
      obtain ⟨next, hnext, h⟩ := Results.bind_eq_ok_iff.mp h
      obtain ⟨-, hnone, rfl⟩ := Given.setOutput_eq_ok_iff.mp hnext
      have hsame := same_parsePieces back rfl request h
      have hgiven : Given.withoutFile { given with output := some path } = given :=
        given.withoutFile_of_none hnone
      rwa [hgiven] at hsame
  | case2 given text rest ih => exact hbind _ rest ih
  | case3 given rest ih => exact ih
  | case4 given text tail => exact same_error _ _
  | case5 given value rest ih => exact hbind _ rest ih
  | case6 given value rest ih => exact hbind _ rest ih
  | case7 given value rest ih => exact hbind _ rest ih
  | case8 given value rest ih => exact hbind _ rest ih
  | case9 given rest ih => exact hbind _ rest ih
  | case10 given rest ih => exact hbind _ rest ih
  | case11 given tail =>
      rintro request ⟨⟩
      exact ⟨rfl, trivial⟩
  | case12 given tail =>
      rintro request ⟨⟩
      exact ⟨rfl, trivial⟩
  | case13 given name tail hformat houtput hskip hverbose hversion hhelp =>
      obtain ⟨hname, htail⟩ := lacks_value hformat houtput hskip hverbose hversion hhelp
      have hnext : ∀ value rest, tail ++ named ++ back ≠ .path value :: rest := by
        intro value rest heq
        cases tail with
        | nil => cases hnamed <;> cases heq
        | cons piece tail => exact htail value tail (by rw [(List.cons.inj heq).1])
      rw [List.cons_append, List.cons_append, parsePieces_missing given hname hnext]
      exact same_error _ _
  | case14 given name value tail hformat houtput =>
      rw [List.cons_append, List.cons_append, parsePieces_unexpected given hformat houtput]
      exact same_error _ _

end Parsing

-- Where a command line that names a file is right, it is right without the file as well, and asks
-- for the same.
theorem parse_of_choosesOutput {path : String} {plain chosen : List String} {request : Request}
    (hchooses : ChoosesOutput path plain chosen) (h : parse chosen = .ok request) :
    parse plain = .ok request.withoutFile ∧ request.SendsTo path := by
  obtain ⟨front, named, back, hnamed, hplain, hchosen⟩ := hchooses
  rw [parse, hchosen] at h
  rw [parse, hplain]
  exact same_parsePieces_append hnamed front back request h

theorem pieces_append {front : List String} (hfront : "--" ∉ front) (back : List String) :
    pieces (front ++ back) = pieces front ++ pieces back := by
  induction front with
  | nil => rfl
  | cons argument front ih =>
      rw [List.mem_cons, not_or] at hfront
      obtain ⟨hfirst, hrest⟩ := hfront
      rw [List.cons_append, pieces, pieces, if_neg (Ne.symm hfirst), if_neg (Ne.symm hfirst), ih hrest,
        List.append_assoc]

-- So a file is named by arguments of their own in front of the end of the options.
theorem choosesOutput_of_arguments {path : String} {front named : List String} (hfront : "--" ∉ front)
    (hnamed : "--" ∉ named) (hpath : NamesOutput path (pieces named)) (back : List String) :
    ChoosesOutput path (front ++ back) (front ++ (named ++ back)) := by
  refine ⟨pieces front, pieces named, pieces back, hpath, pieces_append hfront back, ?_⟩
  rw [pieces_append hfront, pieces_append hnamed, List.append_assoc]

end CallCensus.CommandLine
