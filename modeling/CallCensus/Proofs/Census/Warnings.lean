import CallCensus.Proofs.Census.Endings
import CallCensus.Proofs.Census.MissingArchives
import CallCensus.Proofs.Census.Policies

namespace CallCensus

namespace Event

def isWarning (event : Event) : Bool := event.severity = .warning

-- Whether it is told that a malformed entry is left out.
def tellsOfSkipped : Event → Bool
  | .entrySkipped _ => true
  | _ => false

end Event

namespace Told

variable {α β : Type}

def warnings (told : Told α) : List Event := told.events.filter Event.isWarning

theorem warnings_after (events : List Event) (told : Told α) :
    (told.after events).warnings = events.filter Event.isWarning ++ told.warnings :=
  List.filter_append ..

theorem warnings_bind (told : Told α) (next : α → Told β) :
    (told.bind next).warnings = told.warnings ++
      match told.outcome with
      | .error _ => []
      | .ok value => (next value).warnings := by
  unfold bind
  cases told.outcome with
  | error failure => exact (List.append_nil _).symm
  | ok value => exact warnings_after told.events (next value)

-- Nothing is warned of by going on in silence.
theorem warnings_bind_silent (told : Told α) {next : α → Told β}
    (h : ∀ value, (next value).warnings = []) : (told.bind next).warnings = told.warnings := by
  rw [warnings_bind]
  cases told.outcome with
  | error failure => exact List.append_nil _
  | ok value =>
      simp only [h]
      exact List.append_nil _

end Told

namespace Survey

variable {Content : Type}

-- What is warned of where malformed entries are left out: each of them, and what is wrong with it.
def leftOut (decoder : Decoder Content) (archive : String) (entries : List (ClassEntry Content)) :
    List Event :=
  entries.filterMap fun entry =>
    match decoder entry.content with
    | .ok _ => none
    | .error cause => some (.entrySkipped (.malformedClass archive entry.name cause))

section Steps

variable {decoder : Decoder Content} {entry : ClassEntry Content} (archive : String)
  (rest : List (ClassEntry Content))

theorem leftOut_cons_ok {decoded : DecodedClass} (h : decoder entry.content = .ok decoded) :
    leftOut decoder archive (entry :: rest) = leftOut decoder archive rest := by
  simp [leftOut, h]

theorem leftOut_cons_error {cause : DecodeError} (h : decoder entry.content = .error cause) :
    leftOut decoder archive (entry :: rest) =
      .entrySkipped (.malformedClass archive entry.name cause) :: leftOut decoder archive rest := by
  simp [leftOut, h]

theorem warnings_decodeEntries_cons_ok (policy : Policy) {decoded : DecodedClass}
    (h : decoder entry.content = .ok decoded) :
    (decodeEntries policy decoder archive (entry :: rest)).warnings =
      (decodeEntries policy decoder archive rest).warnings := by
  rw [decodeEntries]
  simp only [h, Told.warnings_after]
  rw [Told.warnings_bind_silent _ fun _ => rfl]
  rfl

theorem warnings_decodeEntries_cons_skip {cause : DecodeError}
    (h : decoder entry.content = .error cause) :
    (decodeEntries .skip decoder archive (entry :: rest)).warnings =
      .entrySkipped (.malformedClass archive entry.name cause) ::
        (decodeEntries .skip decoder archive rest).warnings := by
  rw [decodeEntries]
  simp only [h, Told.warnings_after]
  rw [Told.warnings_bind_silent _ fun _ => rfl]
  rfl

end Steps

theorem warnings_decodeEntries_skip (decoder : Decoder Content) (archive : String)
    (entries : List (ClassEntry Content)) :
    (decodeEntries .skip decoder archive entries).warnings = leftOut decoder archive entries := by
  induction entries with
  | nil => rfl
  | cons entry rest ih =>
      cases h : decoder entry.content with
      | ok decoded =>
          rw [warnings_decodeEntries_cons_ok archive rest .skip h, ih, leftOut_cons_ok archive rest h]
      | error cause =>
          rw [warnings_decodeEntries_cons_skip archive rest h, ih, leftOut_cons_error archive rest h]

theorem warnings_decodeEntries_abort (decoder : Decoder Content) (archive : String)
    (entries : List (ClassEntry Content)) :
    (decodeEntries .abort decoder archive entries).warnings = [] := by
  induction entries with
  | nil => rfl
  | cons entry rest ih =>
      cases h : decoder entry.content with
      | ok decoded => rw [warnings_decodeEntries_cons_ok archive rest .abort h, ih]
      | error cause =>
          rw [decodeEntries]
          simp only [h]
          rfl

-- Of an archive that is there, nothing else is warned of than of its entries.
theorem warnings_build (policy : Policy) (decoder : Decoder Content) (source : Source Content)
    (path : String) : (build policy decoder source path).warnings =
      match (source.list path).entries with
      | .error _ => []
      | .ok entries => (decodeEntries policy decoder path entries).warnings := by
  have hlisted : (listEntries source path).warnings = [] := by
    simp [Told.warnings, listEntries, Event.isWarning, Event.severity]
  have houtcome : (listEntries source path).outcome = (source.list path).entries := rfl
  rw [build, Told.warnings_bind, hlisted, List.nil_append, houtcome]
  cases (source.list path).entries with
  | error failure => rfl
  | ok entries => exact Told.warnings_bind_silent _ fun _ => rfl

theorem countP_leftOut (decoder : Decoder Content) (archive : String)
    (entries : List (ClassEntry Content)) :
    (leftOut decoder archive entries).countP Event.tellsOfSkipped =
      entries.countP (!accepts decoder ·) := by
  induction entries with
  | nil => rfl
  | cons entry rest ih =>
      cases h : decoder entry.content with
      | ok decoded =>
          have haccepts : accepts decoder entry = true := accepts_eq_true_iff.mpr ⟨decoded, h⟩
          rw [leftOut_cons_ok archive rest h, ih, List.countP_cons_of_neg (by simp [haccepts])]
      | error cause =>
          have hrejects : accepts decoder entry = false := accepts_eq_false_iff.mpr ⟨cause, h⟩
          rw [leftOut_cons_error archive rest h, List.countP_cons_of_pos rfl, ih,
            List.countP_cons_of_pos (by simp [hrejects])]

-- Nothing is left out of an archive that is not given up for a malformed entry.
theorem skipped_of_build_abort {decoder : Decoder Content} {source : Source Content} {path : String}
    {graph : CallGraph} {skipped : Nat}
    (h : (build .abort decoder source path).outcome = .ok (graph, skipped)) : skipped = 0 := by
  cases hlisted : (source.list path).entries with
  | error failure =>
      rw [outcome_build, hlisted] at h
      cases h
  | ok entries =>
      rcases accepts_or_first_rejected decoder entries with
        haccepts | ⟨before, entry, after, cause, rfl, hbefore, hentry⟩
      · rw [outcome_build_of_accepts hlisted haccepts] at h
        exact (Prod.mk.inj (Except.ok.inj h)).2.symm
      · rw [outcome_build_abort hlisted hbefore hentry] at h
        cases h

end Survey

namespace Census

variable {Content : Type} {census : Census Content}

-- What is to be warned of at a path: that nothing is there, or what is left out of what is there.
def warningsAt (census : Census Content) (path : String) : List Event :=
  if census.source.present path then
    match census.policy, (census.source.list path).entries with
    | .skip, .ok entries => Survey.leftOut census.decoder path entries
    | _, _ => []
  else [.archiveMissing (.missingArchive path)]

theorem warnings_survey (census : Census Content) (path : String) :
    (census.survey path).warnings =
      match census.policy, (census.source.list path).entries with
      | .skip, .ok entries => Survey.leftOut census.decoder path entries
      | _, _ => [] := by
  rw [survey, Survey.warnings_build]
  cases (census.source.list path).entries with
  | error failure => cases census.policy <;> rfl
  | ok entries =>
      cases census.policy with
      | abort => exact Survey.warnings_decodeEntries_abort census.decoder path entries
      | skip => exact Survey.warnings_decodeEntries_skip census.decoder path entries

-- A census warns of nothing but what is to be warned of at each of its paths.
theorem filter_isWarning_told (census : Census Content) (paths : List String) :
    (census.told paths).filter Event.isWarning = paths.flatMap census.warningsAt := by
  rw [told, List.filter_flatMap]
  congr 1
  funext path
  rw [warningsAt]
  split
  · exact census.warnings_survey path
  · rfl

section Paths

variable {path : String}

theorem warningsAt_absent (habsent : census.source.present path = false) :
    census.warningsAt path = [.archiveMissing (.missingArchive path)] := by
  rw [warningsAt, habsent]
  rfl

-- What ends a census is returned by it, and not warned of.
theorem warningsAt_of_failure {failure : Failure} (hpresent : census.source.present path = true)
    (hfails : census.portion path = .error failure) : census.warningsAt path = [] := by
  rw [warningsAt, if_pos hpresent]
  split
  · rename_i entries hpolicy hentries
    rw [portion, survey, hpolicy, Survey.outcome_build_skip hentries] at hfails
    cases hfails
  · rfl

theorem mem_warningsAt {event : Event} (hmem : event ∈ census.warningsAt path) :
    (census.source.present path = false ∧ event = .archiveMissing (.missingArchive path)) ∨
      census.policy = .skip ∧
        ∃ entry cause, event = .entrySkipped (.malformedClass path entry cause) := by
  by_cases hpresent : census.source.present path
  · rw [warningsAt, if_pos hpresent] at hmem
    split at hmem
    · rename_i entries hpolicy hentries
      obtain ⟨entry, -, hentry⟩ := List.mem_filterMap.mp hmem
      split at hentry
      · cases hentry
      · rename_i cause hcause
        exact .inr ⟨hpolicy, entry.name, cause, (Option.some.inj hentry).symm⟩
    · cases hmem
  · have habsent := Bool.eq_false_iff.mpr hpresent
    rw [warningsAt_absent habsent] at hmem
    exact .inl ⟨habsent, List.mem_singleton.mp hmem⟩

theorem countP_warningsAt {portion : Portion} (hpresent : census.source.present path = true)
    (hportion : census.portion path = .ok portion) :
    (census.warningsAt path).countP Event.tellsOfSkipped = portion.skipped := by
  obtain ⟨⟨graph, skipped⟩, hbuilt, rfl⟩ := Results.map_eq_ok_iff.mp hportion
  rw [survey] at hbuilt
  rw [warningsAt, if_pos hpresent]
  cases hpolicy : census.policy with
  | abort =>
      rw [hpolicy] at hbuilt
      exact (Survey.skipped_of_build_abort hbuilt).symm
  | skip =>
      rw [hpolicy] at hbuilt
      cases hlisted : (census.source.list path).entries with
      | error failure =>
          rw [Survey.outcome_build, hlisted] at hbuilt
          cases hbuilt
      | ok entries =>
          rw [Survey.outcome_build_skip hlisted] at hbuilt
          exact (Survey.countP_leftOut census.decoder path entries).trans
            (Prod.mk.inj (Except.ok.inj hbuilt)).2

end Paths

theorem countP_flatMap_warningsAt {paths : List String} {portions : List Portion}
    (h : census.Gives paths portions) :
    (paths.flatMap census.warningsAt).countP Event.tellsOfSkipped =
      (portions.map (·.skipped)).sum := by
  induction paths generalizing portions with
  | nil =>
      cases h
      rfl
  | cons path paths ih =>
      rw [List.flatMap_cons, List.countP_append]
      by_cases hpresent : census.source.present path
      · rw [Gives, List.filter_cons_of_pos hpresent] at h
        obtain ⟨portion, others, hportion, hothers, rfl⟩ := List.forall₂_cons_left_iff.mp h
        rw [countP_warningsAt hpresent hportion, ih hothers, List.map_cons, List.sum_cons]
      · have habsent := Bool.eq_false_iff.mpr hpresent
        rw [warningsAt_absent habsent, ih ((gives_cons_absent habsent).mp h)]
        exact Nat.zero_add _

theorem filter_tellsOfMissing_warnings (events : List Event) :
    (events.filter Event.isWarning).filter (·.tellsOfMissing) = events.filter (·.tellsOfMissing) := by
  rw [List.filter_filter]
  congr 1
  funext event
  cases event <;> rfl

-- What a source that does not list an archive says of it: that it is missing, or why it cannot be
-- read.
def Reports (source : Source Content) : Prop :=
  ∀ path failure, (source.list path).entries = .error failure →
    failure = .missingArchive path ∨ ∃ reason, failure = .unreadableArchive path reason

theorem failure_of_portion {path : String} {failure : Failure} (h : Reports census.source)
    (hfails : census.portion path = .error failure) :
    failure = .missingArchive path ∨ (∃ reason, failure = .unreadableArchive path reason) ∨
      census.policy = .abort ∧ ∃ entry cause, failure = .malformedClass path entry cause := by
  cases hlisted : (census.source.list path).entries with
  | error other =>
      rw [portion_of_listing_error hlisted] at hfails
      obtain rfl := Except.error.inj hfails
      exact (h path other hlisted).imp_right .inl
  | ok entries =>
      rw [portion, survey] at hfails
      cases hpolicy : census.policy with
      | skip =>
          rw [hpolicy, Survey.outcome_build_skip hlisted] at hfails
          cases hfails
      | abort =>
          rw [hpolicy] at hfails
          cases hbuilt : (Survey.build .abort census.decoder census.source path).outcome with
          | ok built =>
              rw [hbuilt] at hfails
              cases hfails
          | error other =>
              rw [hbuilt] at hfails
              obtain rfl := Except.error.inj hfails
              obtain ⟨_, entry, _, cause, -, -, -, rfl⟩ :=
                (Survey.build_abort_eq_error_iff hlisted other).mp hbuilt
              exact .inr (.inr ⟨rfl, entry.name, cause, rfl⟩)

theorem Ends.mem_warnings {State : Type} {writer : Writer State} {state : State} {paths : List String}
    {outcome : Outcome State} (h : census.Ends writer state paths outcome) {event : Event}
    (hmem : event ∈ outcome.events.filter Event.isWarning) :
    (∃ path, census.source.present path = false ∧ event = .archiveMissing (.missingArchive path)) ∨
      census.policy = .skip ∧
        ∃ path entry cause, event = .entrySkipped (.malformedClass path entry cause) := by
  obtain ⟨front, hevents⟩ := h.exists_told
  rw [hevents, filter_isWarning_told] at hmem
  obtain ⟨path, -, hpath⟩ := List.mem_flatMap.mp hmem
  rcases mem_warningsAt hpath with hmissing | ⟨hpolicy, hskipped⟩
  · exact .inl ⟨path, hmissing⟩
  · exact .inr ⟨hpolicy, path, hskipped⟩

-- The failure that a census ends with is of no kind that it warns of under its policy, or it is about
-- another path.
theorem Ends.not_warned {State : Type} {writer : Writer State} {state : State} {paths : List String}
    {outcome : Outcome State} (h : census.Ends writer state paths outcome)
    (hreports : Reports census.source) {failure : Failure} (hresult : outcome.result = .error failure) :
    .archiveMissing failure ∉ outcome.events.filter Event.isWarning ∧
      .entrySkipped failure ∉ outcome.events.filter Event.isWarning := by
  have hcause : (∃ reason, failure = .output reason) ∨ ∃ path, census.source.present path = true ∧
      (failure = .missingArchive path ∨ (∃ reason, failure = .unreadableArchive path reason) ∨
        census.policy = .abort ∧ ∃ entry cause, failure = .malformedClass path entry cause) :=
    (h.of_error hresult).imp_right fun ⟨path, hpresent, hfails⟩ =>
      ⟨path, hpresent, failure_of_portion hreports hfails⟩
  constructor
  · intro hmem
    rcases h.mem_warnings hmem with ⟨path, habsent, hevent⟩ | ⟨-, _, _, _, hevent⟩
    · obtain rfl := Event.archiveMissing.inj hevent
      rcases hcause with ⟨_, houtput⟩ |
        ⟨other, hpresent, hgone | ⟨_, hunreadable⟩ | ⟨-, _, _, hmalformed⟩⟩
      · cases houtput
      · obtain rfl := Failure.missingArchive.inj hgone
        rw [habsent] at hpresent
        cases hpresent
      · cases hunreadable
      · cases hmalformed
    · cases hevent
  · intro hmem
    rcases h.mem_warnings hmem with ⟨_, -, hevent⟩ | ⟨hskip, _, _, _, hevent⟩
    · cases hevent
    · obtain rfl := Event.entrySkipped.inj hevent
      rcases hcause with ⟨_, houtput⟩ | ⟨other, -, hgone | ⟨_, hunreadable⟩ | ⟨habort, -⟩⟩
      · cases houtput
      · cases hgone
      · cases hunreadable
      · rw [hskip] at habort
        cases habort

-- Where a sink refuses the text of an archive, there was room for those before it and is none for it.
theorem fits_of_refused {sink next last : Sink} {portions : List Portion} {portion : Portion}
    {reason : String}
    (hwrites : Sink.writer.writeAll sink (portions.map (·.bytes)) = (.ok (), next))
    (hrefuses : Sink.writer.write next portion.bytes = (.error reason, last)) :
    sink.Fits (Portion.output portions) ∧ ¬ sink.Fits (Portion.output (portions ++ [portion])) ∧
      reason = "disk full" := by
  obtain ⟨hfits, rfl⟩ := Sink.writeAll_eq_ok_iff.mp hwrites
  rw [flatten_bytes] at hfits hrefuses
  obtain ⟨hlast, rfl, -⟩ := Sink.write_eq_error_iff.mp hrefuses
  refine ⟨hfits, ?_, rfl⟩
  rw [Portion.output, List.flatMap_append, List.flatMap_singleton, Sink.fits_append]
  exact fun h => hlast h.2

-- Users are warned of each path with nothing there and of each entry that is left out, in the order
-- in which a census comes to them and up to where it ends, and of nothing else. The summary of a
-- census that succeeds counts the warnings. What ends a census is not among them.
theorem warnings_run (census : Census Content) (paths : List String) (sink : Sink) :
    let outcome := census.run paths sink
    let warnings := outcome.events.filter Event.isWarning
    ((∃ portions, census.Gives paths portions ∧ warnings = paths.flatMap census.warningsAt ∧
        ((∃ total, outcome.result = .ok total) ∨ ∃ reason, outcome.result = .error (.output reason))) ∨
      ∃ before path after portions, paths = before ++ path :: after ∧ census.Gives before portions ∧
        census.source.present path = true ∧
        ((∃ failure, census.portion path = .error failure ∧ outcome.result = .error failure ∧
            warnings = before.flatMap census.warningsAt) ∨
          ∃ portion, census.portion path = .ok portion ∧ sink.Fits (Portion.output portions) ∧
            ¬ sink.Fits (Portion.output (portions ++ [portion])) ∧
            outcome.result = .error (.output "disk full") ∧
            warnings = (before ++ [path]).flatMap census.warningsAt)) ∧
    (∀ total, outcome.result = .ok total →
      warnings.filter (·.tellsOfMissing) =
          total.missing.map (fun path => .archiveMissing (.missingArchive path)) ∧
        warnings.countP Event.tellsOfMissing = total.missing.length ∧
        warnings.countP Event.tellsOfSkipped = total.skipped) ∧
    (Reports census.source → ∀ failure, outcome.result = .error failure →
      .archiveMissing failure ∉ warnings ∧ .entrySkipped failure ∉ warnings) := by
  intro outcome warnings
  have hends : census.Ends Sink.writer sink paths outcome := census.ends_runTo Sink.writer sink paths
  clear_value outcome
  have hwarnings {front : List String} (htold : outcome.events = census.told front) :
      warnings = front.flatMap census.warningsAt := by
    rw [← filter_isWarning_told, ← htold]
  refine ⟨?_, fun total htotal => ?_, fun hreports failure hresult => ?_⟩
  · cases hends with
    | flush portions next hgives hwrites houtcome =>
        have htold : outcome.events = census.told paths := by
          rw [houtcome, Outcome.after, events_close, List.append_nil]
        refine .inl ⟨portions, hgives, hwarnings htold, ?_⟩
        rw [houtcome]
        exact (result_close Sink.writer _ next).imp_left fun hok => ⟨_, hok⟩
    | failure before path after portions next failure hpaths hgives hwrites hpresent hfails houtcome =>
        refine .inr ⟨before, path, after, portions, hpaths, hgives, hpresent,
          .inl ⟨failure, hfails, by rw [houtcome], ?_⟩⟩
        rw [hwarnings (by rw [houtcome]), List.flatMap_append, List.flatMap_singleton,
          warningsAt_of_failure hpresent hfails, List.append_nil]
    | refusal before path after portions next portion reason last hpaths hgives hwrites hpresent
        hportion hrefuses houtcome =>
        obtain ⟨hfits, hfull, rfl⟩ := fits_of_refused hwrites hrefuses
        exact .inr ⟨before, path, after, portions, hpaths, hgives, hpresent,
          .inr ⟨portion, hportion, hfits, hfull, by rw [houtcome], hwarnings (by rw [houtcome])⟩⟩
  · obtain ⟨portions, hgives, hevents, rfl⟩ := hends.of_ok htotal
    have hmissing : warnings.filter (·.tellsOfMissing) =
        (paths.filter (!census.source.present ·)).map fun path =>
          .archiveMissing (.missingArchive path) := by
      rw [filter_tellsOfMissing_warnings, hevents, filter_told]
    refine ⟨hmissing, ?_, ?_⟩
    · rw [List.countP_eq_length_filter, hmissing, List.length_map]
    · rw [hwarnings hevents, countP_flatMap_warningsAt hgives]
  · exact hends.not_warned hreports hresult

-- One of the three archives is missing, one has a malformed entry, and the last cannot be read.
theorem warnings_run_mixed :
    let census : Census (Except DecodeError DecodedClass) := ⟨.skip, .csv, id, (· ≠ "none.jar"),
      fun path => if path = "cut.jar" then ⟨[], .error (.unreadableArchive path "no directory")⟩
        else ⟨[], .ok [⟨"A.class", .ok ⟨"A", ["B"]⟩⟩, ⟨"bad.class", .error (.badMagic 0)⟩]⟩⟩
    let outcome (paths : List String) := census.run paths .unlimited
    let warnings : List Event := [.archiveMissing (.missingArchive "none.jar"),
      .entrySkipped (.malformedClass "a.jar" "bad.class" (.badMagic 0))]
    let failure : Failure := .unreadableArchive "cut.jar" "no directory"
    Reports census.source ∧
      (outcome ["none.jar", "a.jar"]).result = .ok ⟨1, ["none.jar"], 1, 1⟩ ∧
      (outcome ["none.jar", "a.jar"]).events.filter Event.isWarning = warnings ∧
      warnings.countP Event.tellsOfMissing = 1 ∧ warnings.countP Event.tellsOfSkipped = 1 ∧
      (outcome ["none.jar", "a.jar", "cut.jar"]).result = .error failure ∧
      (outcome ["none.jar", "a.jar", "cut.jar"]).events.filter Event.isWarning = warnings ∧
      .archiveMissing failure ∉ warnings ∧ .entrySkipped failure ∉ warnings := by
  intro census outcome warnings failure
  have hreports : Reports census.source := by
    intro path other hlisted
    by_cases hcut : path = "cut.jar"
    · simp only [census, if_pos hcut] at hlisted
      exact .inr ⟨_, (Except.error.inj hlisted).symm⟩
    · simp only [census, if_neg hcut] at hlisted
      cases hlisted
  have hresult : (outcome ["none.jar", "a.jar"]).result = .ok ⟨1, ["none.jar"], 1, 1⟩ := by
    decide +kernel
  have hfails : (outcome ["none.jar", "a.jar", "cut.jar"]).result = .error failure := by decide +kernel
  have hwarnings : (outcome ["none.jar", "a.jar"]).events.filter Event.isWarning = warnings := by
    decide +kernel
  have hsame : (outcome ["none.jar", "a.jar", "cut.jar"]).events.filter Event.isWarning =
      warnings := by decide +kernel
  obtain ⟨-, hcounts, -⟩ := census.warnings_run ["none.jar", "a.jar"] .unlimited
  obtain ⟨-, -, hapart⟩ := census.warnings_run ["none.jar", "a.jar", "cut.jar"] .unlimited
  obtain ⟨-, hmissing, hskipped⟩ := hcounts _ hresult
  obtain ⟨hnotMissing, hnotSkipped⟩ := hapart hreports failure hfails
  rw [hwarnings] at hmissing hskipped
  rw [hsame] at hnotMissing hnotSkipped
  exact ⟨hreports, hresult, hwarnings, hmissing, hskipped, hfails, hsame, hnotMissing, hnotSkipped⟩

end Census

end CallCensus
