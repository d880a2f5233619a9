import CallCensus.Census.Run
import CallCensus.Proofs.Census.Decoding
import CallCensus.Proofs.Census.Writers
import CallCensus.Proofs.Report.Lines
import Mathlib.Algebra.Ring.Nat
import Mathlib.Data.List.Forall2

namespace CallCensus

-- What an archive adds to a census: the bytes of its text, and the entries that are left out of it.
structure Portion where
  bytes : List UInt8
  skipped : Nat

namespace Portion

def ofGraph (format : OutputFormat) (graph : CallGraph) (skipped : Nat) : Portion :=
  ⟨Utf8.encode (format.render graph), skipped⟩

-- The portion of an archive of which nothing is known but what its entries are decoded to.
def ofReadings (policy : Policy) (format : OutputFormat) (archive : String)
    (readings : List (ClassEntry (Except DecodeError DecodedClass))) : Except Failure Portion := do
  let (classes, skipped) ← (Survey.decodeEntries policy id archive readings).outcome
  return ofGraph format (Survey.graphOf archive classes) skipped

def output (portions : List Portion) : List UInt8 := portions.flatMap (·.bytes)

end Portion

namespace Census

variable {Content : Type} (census : Census Content)

def portion (path : String) : Except Failure Portion :=
  (census.survey path).outcome.map fun (graph, skipped) => .ofGraph census.format graph skipped

-- The archives that are there have these portions, in the order of their paths.
def Gives (paths : List String) (portions : List Portion) : Prop :=
  List.Forall₂ (fun path portion => census.portion path = .ok portion)
    (paths.filter (census.source.present ·)) portions

-- What a census amounts to once it has gone through some more paths.
def advance (summary : Summary) (paths : List String) (portions : List Portion) : Summary :=
  ⟨summary.processed + portions.length,
    summary.missing ++ paths.filter (!census.source.present ·),
    summary.skipped + (portions.map (·.skipped)).sum,
    summary.lines + (Portion.output portions).count 0x0A⟩

-- What is told while a census goes through some paths, as long as no archive fails.
def told (paths : List String) : List Event :=
  paths.flatMap fun path =>
    if census.source.present path then (census.survey path).events
    else [.archiveMissing (.missingArchive path)]

theorem told_cons (path : String) (paths : List String) :
    census.told (path :: paths) = census.told [path] ++ census.told paths := by
  simp [told]

-- A sink that takes everything, with what was written to it before.
def openSink (written : List UInt8) : Sink := ⟨written, none, false⟩

theorem fits_openSink (written bytes : List UInt8) : (openSink written).Fits bytes := by
  intro room hroom
  cases hroom

theorem filled_openSink (written bytes : List UInt8) :
    (openSink written).filled bytes = openSink (written ++ bytes) :=
  rfl

section Steps

variable {census} {State : Type} (writer : Writer State) {path : String} (summary : Summary)
  (state : State)

theorem visit_missing (habsent : census.source.present path = false) :
    census.visit writer summary state path =
      ⟨census.told [path], state, .ok { summary with missing := summary.missing ++ [path] }⟩ := by
  rw [visit, habsent, told, List.flatMap_singleton, habsent]
  rfl

theorem visit_failing {failure : Failure} (hpresent : census.source.present path = true)
    (hfails : census.portion path = .error failure) :
    census.visit writer summary state path = ⟨census.told [path], state, .error failure⟩ := by
  rw [visit, if_pos hpresent, told, List.flatMap_singleton, if_pos hpresent]
  unfold portion at hfails
  cases houtcome : (census.survey path).outcome with
  | ok built => simp [houtcome, Except.map] at hfails
  | error other =>
      rw [houtcome, Except.map, Except.error.injEq] at hfails
      simp only [houtcome, hfails]

variable {writer} {state} {next : State} {portion : Portion}

theorem visit_present (hpresent : census.source.present path = true)
    (hgives : census.portion path = .ok portion)
    (hwrites : writer.write state portion.bytes = (.ok (), next)) :
    census.visit writer summary state path =
      ⟨census.told [path], next, .ok ⟨summary.processed + 1, summary.missing,
        summary.skipped + portion.skipped, summary.lines + portion.bytes.count 0x0A⟩⟩ := by
  obtain ⟨⟨graph, skipped⟩, hbuilt, rfl⟩ := Results.map_eq_ok_iff.mp hgives
  simp only [Portion.ofGraph] at hwrites
  rw [visit, if_pos hpresent, told, List.flatMap_singleton, if_pos hpresent]
  simp only [hbuilt, hwrites, Portion.ofGraph, OutputFormat.count_render]

theorem visit_refused {reason : String} (hpresent : census.source.present path = true)
    (hgives : census.portion path = .ok portion)
    (hrefuses : writer.write state portion.bytes = (.error reason, next)) :
    census.visit writer summary state path =
      ⟨census.told [path], next, .error (.output reason)⟩ := by
  obtain ⟨⟨graph, skipped⟩, hbuilt, rfl⟩ := Results.map_eq_ok_iff.mp hgives
  simp only [Portion.ofGraph] at hrefuses
  rw [visit, if_pos hpresent, told, List.flatMap_singleton, if_pos hpresent]
  simp only [hbuilt, hrefuses]

end Steps

section Runs

variable {census} {State : Type} {writer : Writer State} {state next : State}

theorem runTo_nil (summary : Summary) :
    census.runTo writer summary state [] = close writer summary state :=
  rfl

theorem runTo_cons (summary : Summary) (path : String) (rest : List String) :
    census.runTo writer summary state (path :: rest) =
      (census.visit writer summary state path).bind fun summary state =>
        census.runTo writer summary state rest :=
  rfl

theorem after_after (first second : List Event) (outcome : Outcome State) :
    (outcome.after second).after first = outcome.after (first ++ second) := by
  simp only [Outcome.after, List.append_assoc]

theorem advance_cons_missing {path : String} {paths : List String} {portions : List Portion}
    {summary : Summary} (habsent : census.source.present path = false) :
    census.advance summary (path :: paths) portions =
      census.advance { summary with missing := summary.missing ++ [path] } paths portions := by
  simp [advance, habsent]

theorem advance_cons_present {path : String} {paths : List String} {portion : Portion}
    {portions : List Portion} {summary : Summary} (hpresent : census.source.present path = true) :
    census.advance summary (path :: paths) (portion :: portions) =
      census.advance ⟨summary.processed + 1, summary.missing, summary.skipped + portion.skipped,
        summary.lines + portion.bytes.count 0x0A⟩ paths portions := by
  have hfilter : (path :: paths).filter (!census.source.present ·) =
      paths.filter (!census.source.present ·) := by simp [hpresent]
  simp only [advance, hfilter, Portion.output, List.flatMap_cons, List.count_append,
    List.length_cons, List.map_cons, List.sum_cons, Summary.mk.injEq, true_and]
  omega

-- A census that has gone through some paths is one that starts later, with more written already, as
-- long as what is written makes no difference to these paths.
theorem runOver_append {found : State → Census Content} {before : List String}
    {portions : List Portion} (h : census.Gives before portions)
    (hwrites : writer.writeAll state (portions.map (·.bytes)) = (.ok (), next))
    (hfound : ∀ front middle, front <+: portions.map (·.bytes) →
      writer.writeAll state front = (.ok (), middle) → found middle = census)
    (after : List String) (summary : Summary) :
    runOver writer found summary state (before ++ after) =
      (runOver writer found (census.advance summary before portions) next after).after
        (census.told before) := by
  unfold Gives at h
  induction before generalizing portions summary state with
  | nil =>
      cases h
      cases hwrites
      simp [advance, Portion.output, Outcome.after, told]
  | cons path before ih =>
      rw [List.cons_append, runOver, hfound [] state List.nil_prefix rfl]
      by_cases hpresent : census.source.present path
      · rw [List.filter_cons_of_pos hpresent] at h
        obtain ⟨portion, others, hportion, hothers, rfl⟩ := List.forall₂_cons_left_iff.mp h
        obtain ⟨middle, hfirst, hrest⟩ := Writer.writeAll_cons_eq_ok_iff.mp hwrites
        have hlater : ∀ front last, front <+: others.map (·.bytes) →
            writer.writeAll middle front = (.ok (), last) → found last = census := by
          intro front last hstart hfront
          refine hfound (portion.bytes :: front) last ?_ ?_
          · exact List.cons_prefix_cons.mpr ⟨rfl, hstart⟩
          · rw [Writer.writeAll_cons_of_ok hfirst, hfront]
        rw [visit_present summary hpresent hportion hfirst]
        simp only [Outcome.bind]
        rw [ih hothers hrest hlater _, after_after, ← told_cons, advance_cons_present hpresent]
      · rw [List.filter_cons_of_neg hpresent] at h
        have habsent := Bool.eq_false_iff.mpr hpresent
        rw [visit_missing writer summary state habsent]
        simp only [Outcome.bind]
        rw [ih h hwrites hfound _, after_after, ← told_cons, advance_cons_missing habsent]

theorem runTo_append {before : List String} {portions : List Portion}
    (h : census.Gives before portions)
    (hwrites : writer.writeAll state (portions.map (·.bytes)) = (.ok (), next)) (after : List String)
    (summary : Summary) :
    census.runTo writer summary state (before ++ after) =
      (census.runTo writer (census.advance summary before portions) next after).after
        (census.told before) :=
  runOver_append h hwrites (fun _ _ _ _ => rfl) after summary

-- Where all archives give something, the census is closed once all of it is written.
theorem runTo_of_gives {paths : List String} {portions : List Portion}
    (h : census.Gives paths portions)
    (hwrites : writer.writeAll state (portions.map (·.bytes)) = (.ok (), next)) (summary : Summary) :
    census.runTo writer summary state paths =
      (close writer (census.advance summary paths portions) next).after (census.told paths) := by
  have hrun := runTo_append h hwrites [] summary
  rwa [List.append_nil, runTo_nil] at hrun

theorem told_append (census : Census Content) (front back : List String) :
    census.told (front ++ back) = census.told front ++ census.told back := by
  rw [told, List.flatMap_append, told, told]

section Stops

variable {before : List String} {portions : List Portion} (h : census.Gives before portions)
  (hwrites : writer.writeAll state (portions.map (·.bytes)) = (.ok (), next)) {path : String}
  (hpresent : census.source.present path = true) (after : List String) (summary : Summary)

include h hwrites hpresent

-- The first archive that fails is the end, with what was written of those before it.
theorem runTo_of_failing {failure : Failure} (hfails : census.portion path = .error failure) :
    census.runTo writer summary state (before ++ path :: after) =
      ⟨census.told (before ++ [path]), next, .error failure⟩ := by
  rw [runTo_append h hwrites, runTo_cons, visit_failing writer _ _ hpresent hfails, told_append]
  rfl

-- So is the first one whose text is refused.
theorem runTo_of_refused {portion : Portion} (hportion : census.portion path = .ok portion)
    {reason : String} {last : State}
    (hrefuses : writer.write next portion.bytes = (.error reason, last)) :
    census.runTo writer summary state (before ++ path :: after) =
      ⟨census.told (before ++ [path]), last, .error (.output reason)⟩ := by
  rw [runTo_append h hwrites, runTo_cons, visit_refused _ hpresent hportion hrefuses, told_append]
  rfl

end Stops

theorem flatten_bytes (portions : List Portion) :
    (portions.map (·.bytes)).flatten = Portion.output portions :=
  List.flatMap_def.symm

theorem writeAll_openSink (written : List UInt8) (portions : List Portion) :
    Sink.writer.writeAll (openSink written) (portions.map (·.bytes)) =
      (.ok (), openSink (written ++ Portion.output portions)) := by
  refine Sink.writeAll_eq_ok_iff.mpr ⟨fits_openSink _ _, ?_⟩
  rw [filled_openSink, flatten_bytes]

theorem close_openSink (total : Summary) (written : List UInt8) :
    close Sink.writer total (openSink written) = ⟨[], openSink written, .ok total⟩ :=
  rfl

theorem advance_empty (paths : List String) (portions : List Portion) :
    census.advance .empty paths portions = ⟨portions.length, paths.filter (!census.source.present ·),
      (portions.map (·.skipped)).sum, (Portion.output portions).count 0x0A⟩ := by
  simp [advance, Summary.empty]

theorem run_of_gives {paths : List String} {portions : List Portion}
    (h : census.Gives paths portions) (written : List UInt8) :
    census.run paths (openSink written) =
      ⟨census.told paths, openSink (written ++ Portion.output portions),
        .ok ⟨portions.length, paths.filter (!census.source.present ·),
          (portions.map (·.skipped)).sum, (Portion.output portions).count 0x0A⟩⟩ := by
  rw [run, runTo_of_gives h (writeAll_openSink written portions), advance_empty, close_openSink,
    Outcome.after, List.append_nil]

theorem run_of_failing {before : List String} {portions : List Portion}
    (h : census.Gives before portions) {path : String} {failure : Failure}
    (hpresent : census.source.present path = true) (hfails : census.portion path = .error failure)
    (after : List String) (written : List UInt8) :
    census.run (before ++ path :: after) (openSink written) =
      ⟨census.told (before ++ [path]), openSink (written ++ Portion.output portions),
        .error failure⟩ :=
  runTo_of_failing h (writeAll_openSink written portions) hpresent after .empty hfails

theorem gives_cons_absent {path : String} {paths : List String} {portions : List Portion}
    (habsent : census.source.present path = false) :
    census.Gives (path :: paths) portions ↔ census.Gives paths portions := by
  rw [Gives, List.filter_cons_of_neg (by simp [habsent]), Gives]

theorem Gives.cons {path : String} {paths : List String} {portion : Portion} {portions : List Portion}
    (hpresent : census.source.present path = true) (hportion : census.portion path = .ok portion)
    (h : census.Gives paths portions) : census.Gives (path :: paths) (portion :: portions) := by
  rw [Gives, List.filter_cons_of_pos hpresent]
  exact .cons hportion h

-- Either all archives give something or there is a first one that fails.
theorem gives_or_fails (census : Census Content) (paths : List String) :
    (∃ portions, census.Gives paths portions) ∨
      ∃ before path after portions failure, paths = before ++ path :: after ∧
        census.Gives before portions ∧ census.source.present path = true ∧
        census.portion path = .error failure := by
  induction paths with
  | nil => exact .inl ⟨[], .nil⟩
  | cons path paths ih =>
      by_cases hpresent : census.source.present path
      · cases hportion : census.portion path with
        | error failure =>
            have hnone : census.Gives [] [] := .nil
            exact .inr ⟨[], path, paths, [], failure, rfl, hnone, hpresent, hportion⟩
        | ok portion =>
            rcases ih with ⟨portions, h⟩ | ⟨before, later, after, portions, failure, rfl, h, hlater⟩
            · exact .inl ⟨portion :: portions, h.cons hpresent hportion⟩
            · exact .inr ⟨path :: before, later, after, portion :: portions, failure, rfl,
                h.cons hpresent hportion, hlater⟩
      · have habsent := Bool.eq_false_iff.mpr hpresent
        rcases ih with ⟨portions, h⟩ | ⟨before, later, after, portions, failure, rfl, h, hlater⟩
        · exact .inl ⟨portions, (gives_cons_absent habsent).mpr h⟩
        · exact .inr ⟨path :: before, later, after, portions, failure, rfl,
            (gives_cons_absent habsent).mpr h, hlater⟩

end Runs

section Isolation

theorem decodeEntries_readings (policy : Policy) (decoder : Decoder Content) (archive : String)
    (entries : List (ClassEntry Content)) :
    (Survey.decodeEntries policy decoder archive entries).outcome =
      (Survey.decodeEntries policy id archive
        (entries.map fun entry => ⟨entry.name, decoder entry.content⟩)).outcome := by
  induction entries with
  | nil => rfl
  | cons entry entries ih =>
      rw [List.map_cons]
      unfold Survey.decodeEntries
      simp only [id_eq]
      cases decoder entry.content with
      | ok decoded => simp only [Told.outcome_after, Told.outcome_bind, ih]
      | error cause =>
          cases policy with
          | abort => rfl
          | skip => simp only [Told.outcome_after, Told.outcome_bind, ih]

theorem portion_eq (path : String) : census.portion path =
    (census.source.list path).entries.bind fun entries =>
      Portion.ofReadings census.policy census.format path
        (entries.map fun entry => ⟨entry.name, census.decoder entry.content⟩) := by
  rw [portion, survey, Survey.outcome_build]
  cases (census.source.list path).entries with
  | error failure => rfl
  | ok entries =>
      simp only [bind, Except.bind, Portion.ofReadings]
      rw [decodeEntries_readings census.policy census.decoder path entries]
      cases (Survey.decodeEntries census.policy id path
        (entries.map fun entry => ⟨entry.name, census.decoder entry.content⟩)).outcome <;> rfl

end Isolation

-- The output of a census is the portions of its archives one after the other, up to the first
-- archive that fails. What an archive adds depends on its path and its own entries only.
theorem run_concatenates (paths : List String) (written : List UInt8) :
    let outcome := census.run paths (openSink written)
    ((∃ portions, census.Gives paths portions ∧
        outcome.sink = openSink (written ++ Portion.output portions) ∧
        outcome.result = .ok ⟨portions.length, paths.filter (!census.source.present ·),
          (portions.map (·.skipped)).sum, (Portion.output portions).count 0x0A⟩) ∨
      ∃ before path after portions failure, paths = before ++ path :: after ∧
        census.Gives before portions ∧ census.source.present path = true ∧
        census.portion path = .error failure ∧
        outcome.sink = openSink (written ++ Portion.output portions) ∧
        outcome.result = .error failure) ∧
    ∀ path, census.portion path = (census.source.list path).entries.bind fun entries =>
      Portion.ofReadings census.policy census.format path
        (entries.map fun entry => ⟨entry.name, census.decoder entry.content⟩) := by
  intro outcome
  refine ⟨?_, census.portion_eq⟩
  rcases census.gives_or_fails paths with ⟨portions, h⟩ |
    ⟨before, path, after, portions, failure, rfl, h, hpresent, hfails⟩
  · have houtcome : outcome = _ := run_of_gives h written
    exact .inl ⟨portions, h, by rw [houtcome], by rw [houtcome]⟩
  · have houtcome : outcome = _ := run_of_failing h hpresent hfails after written
    exact .inr ⟨before, path, after, portions, failure, rfl, h, hpresent, hfails, by rw [houtcome],
      by rw [houtcome]⟩

end Census

end CallCensus
