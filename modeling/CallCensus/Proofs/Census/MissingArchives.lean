import CallCensus.Proofs.Census.Success

namespace CallCensus

-- Whether it is told that there is no archive at a path.
def Event.tellsOfMissing : Event → Bool
  | .archiveMissing _ => true
  | _ => false

namespace Told

variable {α β : Type}

-- Nothing is told of archives that are missing.
def Quiet (told : Told α) : Prop := ∀ event ∈ told.events, event.tellsOfMissing = false

theorem Quiet.after {events : List Event} {told : Told α}
    (hevents : ∀ event ∈ events, event.tellsOfMissing = false) (h : told.Quiet) :
    (told.after events).Quiet := by
  intro event hmem
  cases List.mem_append.mp hmem with
  | inl hmem => exact hevents event hmem
  | inr hmem => exact h event hmem

theorem Quiet.bind {told : Told α} {next : α → Told β} (h : told.Quiet)
    (hnext : ∀ value, (next value).Quiet) : (told.bind next).Quiet := by
  unfold Told.bind
  cases told.outcome with
  | error failure => exact h
  | ok value => exact (hnext value).after h

theorem quiet_pure (value : α) : (Told.pure value).Quiet := fun _ hmem => absurd hmem List.not_mem_nil

end Told

namespace Survey

variable {Content : Type}

theorem quiet_decodeEntries (policy : Policy) (decoder : Decoder Content) (archive : String)
    (entries : List (ClassEntry Content)) : (decodeEntries policy decoder archive entries).Quiet := by
  induction entries with
  | nil => exact Told.quiet_pure _
  | cons entry rest ih =>
      rw [decodeEntries]
      cases decoder entry.content with
      | ok decoded => exact (ih.bind fun _ => Told.quiet_pure _).after (by simp [Event.tellsOfMissing])
      | error cause =>
          cases policy with
          | abort => exact fun _ hmem => absurd hmem List.not_mem_nil
          | skip => exact (ih.bind fun _ => Told.quiet_pure _).after (by simp [Event.tellsOfMissing])

-- Whatever is told of an archive that is there, it is never that it is missing.
theorem quiet_build (policy : Policy) (decoder : Decoder Content) (source : Source Content)
    (path : String) : (build policy decoder source path).Quiet := by
  have hlisted : (listEntries source path).Quiet := by
    simp [Told.Quiet, listEntries, Event.tellsOfMissing]
  apply hlisted.bind
  intro entries
  refine Told.Quiet.after (by simp [Event.tellsOfMissing]) ?_
  apply (quiet_decodeEntries policy decoder path entries).bind
  rintro ⟨classes, skipped⟩
  simp [Told.Quiet, Event.tellsOfMissing]

end Survey

namespace Census

variable {Content : Type} {census : Census Content}

-- The archive was there when it was looked for, and is missing when it is listed.
def Vanishes (census : Census Content) (path : String) : Prop :=
  census.source.present path = true ∧
    ∃ gone, (census.source.list path).entries = .error (.missingArchive gone)

theorem filter_told_present {path : String} (hpresent : census.source.present path = true) :
    (census.told [path]).filter (·.tellsOfMissing) = [] := by
  have hquiet := Survey.quiet_build census.policy census.decoder census.source path
  rw [told, List.flatMap_singleton, if_pos hpresent]
  apply List.filter_eq_nil_iff.mpr
  intro event hevent
  rw [hquiet event hevent]
  exact Bool.false_ne_true

theorem filter_told_absent {path : String} (habsent : census.source.present path = false) :
    (census.told [path]).filter (·.tellsOfMissing) = [.archiveMissing (.missingArchive path)] := by
  rw [told, List.flatMap_singleton, habsent]
  rfl

-- Of the archives that are not there each is told once, in the order of their paths.
theorem filter_told (census : Census Content) (paths : List String) :
    (census.told paths).filter (·.tellsOfMissing) =
      (paths.filter (!census.source.present ·)).map fun path =>
        .archiveMissing (.missingArchive path) := by
  induction paths with
  | nil => rfl
  | cons path paths ih =>
      rw [told_cons, List.filter_append, ih]
      by_cases hpresent : census.source.present path
      · rw [filter_told_present hpresent, List.filter_cons, hpresent]
        rfl
      · have habsent := Bool.eq_false_iff.mpr hpresent
        rw [filter_told_absent habsent, List.filter_cons, habsent]
        rfl

theorem portion_of_listing_error {path : String} {failure : Failure}
    (h : (census.source.list path).entries = .error failure) :
    census.portion path = .error failure := by
  rw [portion_eq, h]
  rfl

theorem exists_portion_of_gives {paths : List String} {portions : List Portion}
    (h : census.Gives paths portions) {path : String} (hmem : path ∈ paths)
    (hpresent : census.source.present path = true) :
    ∃ portion, census.portion path = .ok portion :=
  Results.exists_of_forall₂ h path (List.mem_filter.mpr ⟨hmem, hpresent⟩)

theorem not_vanishes_of_gives {paths : List String} {portions : List Portion}
    (h : census.Gives paths portions) {path : String} (hmem : path ∈ paths) :
    ¬ census.Vanishes path := by
  rintro ⟨hpresent, gone, hgone⟩
  obtain ⟨portion, hportion⟩ := exists_portion_of_gives h hmem hpresent
  rw [portion_of_listing_error hgone] at hportion
  cases hportion

-- No archive fails but by being missing.
def OnlyMissing (census : Census Content) (paths : List String) : Prop :=
  ∀ path ∈ paths, census.source.present path = true →
    (∃ portion, census.portion path = .ok portion) ∨ census.Vanishes path

theorem OnlyMissing.gives {paths : List String} (h : census.OnlyMissing paths)
    (hnone : ∀ path ∈ paths, ¬ census.Vanishes path) :
    ∃ portions, census.Gives paths portions := by
  rcases census.gives_or_fails paths with hgives |
    ⟨before, path, after, portions, failure, rfl, -, hpresent, hfails⟩
  · exact hgives
  · have hmem : path ∈ before ++ path :: after := List.mem_append_right before List.mem_cons_self
    rcases h path hmem hpresent with ⟨portion, hportion⟩ | hvanishes
    · rw [hportion] at hfails
      cases hfails
    · exact absurd hvanishes (hnone path hmem)

-- Where archives fail only by being missing, a census comes to its end exactly if none of them
-- vanishes between the moment it is looked for and the moment it is listed. Archives that are not
-- there at the first moment are told of, listed and passed over. The first that is gone at the
-- second moment ends the census, which fails as if nothing had been said about missing archives.
theorem run_ok_iff_none_vanishes {paths : List String} {sink : Sink} (h : census.OnlyMissing paths)
    (hsink : census.Delivers paths sink) :
    let outcome := census.run paths sink
    ((∃ total, outcome.result = .ok total) ↔ ∀ path ∈ paths, ¬ census.Vanishes path) ∧
    ((∀ path ∈ paths, ¬ census.Vanishes path) → ∃ portions, census.Gives paths portions ∧
      outcome.sink.written = sink.written ++ Portion.output portions ∧
      outcome.result = .ok ⟨portions.length, paths.filter (!census.source.present ·),
        (portions.map (·.skipped)).sum, (Portion.output portions).count 0x0A⟩ ∧
      outcome.events.filter (·.tellsOfMissing) =
        (paths.filter (!census.source.present ·)).map fun path =>
          .archiveMissing (.missingArchive path)) ∧
    ∀ before path after gone, paths = before ++ path :: after →
      (∀ other ∈ before, ¬ census.Vanishes other) → census.source.present path = true →
      (census.source.list path).entries = .error (.missingArchive gone) →
      ∃ portions, census.Gives before portions ∧
        outcome.sink.written = sink.written ++ Portion.output portions ∧
        outcome.result = .error (.missingArchive gone) := by
  intro outcome
  have hopened : outcome.opened = census.run paths (openSink sink.written) := run_opened hsink
  have hends (hnone : ∀ path ∈ paths, ¬ census.Vanishes path) :
      ∃ portions, census.Gives paths portions ∧ outcome.opened = ⟨census.told paths,
        openSink (sink.written ++ Portion.output portions), .ok ⟨portions.length,
          paths.filter (!census.source.present ·), (portions.map (·.skipped)).sum,
          (Portion.output portions).count 0x0A⟩⟩ := by
    obtain ⟨portions, hgives⟩ := h.gives hnone
    exact ⟨portions, hgives, hopened.trans (run_of_gives hgives sink.written)⟩
  refine ⟨⟨fun ⟨total, htotal⟩ path hmem hvanishes => ?_, fun hnone => ?_⟩, fun hnone => ?_, ?_⟩
  · obtain ⟨portions, hgives, -⟩ := gives_of_ok htotal
    exact not_vanishes_of_gives hgives hmem hvanishes
  · obtain ⟨portions, -, houtcome⟩ := hends hnone
    exact ⟨_, congrArg Outcome.result houtcome⟩
  · obtain ⟨portions, hgives, houtcome⟩ := hends hnone
    have hwritten := congrArg (·.sink.written) houtcome
    have hevents : outcome.events = census.told paths := congrArg Outcome.events houtcome
    refine ⟨portions, hgives, hwritten, congrArg Outcome.result houtcome, ?_⟩
    rw [hevents]
    exact filter_told census paths
  · rintro before path after gone rfl hbefore hpresent hgone
    have honly : census.OnlyMissing before :=
      fun other hmem => h other (List.mem_append_left _ hmem)
    obtain ⟨portions, hgives⟩ := honly.gives hbefore
    have hlast := run_of_failing hgives hpresent (portion_of_listing_error hgone) after sink.written
    rw [← hopened] at hlast
    exact ⟨portions, hgives, congrArg (·.sink.written) hlast, congrArg Outcome.result hlast⟩

-- The sink has room for what is written, and for no more.
theorem run_ok_iff_none_vanishes_absent :
    let census : Census DecodedClass := ⟨.abort, .csv, .ok, (· ≠ "none.jar"),
      fun path => ⟨[], .ok [⟨"A.class", ⟨path, ["B"]⟩⟩]⟩⟩
    let paths := ["none.jar", "a.jar", "none.jar", "b.jar"]
    let sink : Sink := ⟨[], some 24, false⟩
    let outcome := census.run paths sink
    census.OnlyMissing paths ∧ census.Delivers paths sink ∧
      (∀ path ∈ paths, ¬ census.Vanishes path) ∧
      outcome.result = .ok ⟨2, ["none.jar", "none.jar"], 0, 2⟩ ∧
      outcome.events.filter (·.tellsOfMissing) =
        [.archiveMissing (.missingArchive "none.jar"),
          .archiveMissing (.missingArchive "none.jar")] ∧
      ((∃ total, outcome.result = .ok total) ↔ ∀ path ∈ paths, ¬ census.Vanishes path) := by
  intro census paths sink outcome
  have honly : census.OnlyMissing paths := fun path _ _ => .inl ⟨_, rfl⟩
  have hnone : ∀ path ∈ paths, ¬ census.Vanishes path := by
    rintro path - ⟨-, gone, hgone⟩
    cases hgone
  have hresult : outcome.result = .ok ⟨2, ["none.jar", "none.jar"], 0, 2⟩ := by decide +kernel
  have hdelivers : census.Delivers paths sink := delivers_of_ok hresult
  obtain ⟨hiff, hends, -⟩ := run_ok_iff_none_vanishes honly hdelivers
  obtain ⟨portions, -, -, -, hevents⟩ := hends hnone
  exact ⟨honly, hdelivers, hnone, hresult, hevents, hiff⟩

-- The archive in the middle is gone when it is listed. It is not passed over, and the archive after
-- it is not written.
theorem run_ok_iff_none_vanishes_window :
    let census : Census DecodedClass := ⟨.abort, .csv, .ok, fun _ => true, fun path =>
      if path = "gone.jar" then ⟨[], .error (.missingArchive path)⟩
      else ⟨[], .ok [⟨"A.class", ⟨path, ["B"]⟩⟩]⟩⟩
    let paths := ["a.jar", "gone.jar", "b.jar"]
    let outcome := census.run paths .unlimited
    census.OnlyMissing paths ∧ census.Delivers paths .unlimited ∧ census.Vanishes "gone.jar" ∧
      outcome.result = .error (.missingArchive "gone.jar") ∧
      outcome.events.filter (·.tellsOfMissing) = [] ∧
      outcome.sink.written = Utf8.encode "a.jar,0,B,1\n" := by
  intro census paths outcome
  have honly : census.OnlyMissing paths := by
    intro path _ hpresent
    by_cases hgone : path = "gone.jar"
    · subst hgone
      exact .inr ⟨hpresent, "gone.jar", rfl⟩
    · have hlisted : (census.source.list path).entries =
          .ok [⟨"A.class", ⟨path, ["B"]⟩⟩] := by simp only [census, if_neg hgone]
      rw [portion_eq, hlisted]
      exact .inl ⟨_, rfl⟩
  have hresult : outcome.result = .error (.missingArchive "gone.jar") := by decide +kernel
  have hdelivers : census.Delivers paths .unlimited := by
    intro reason hfails
    rw [hresult] at hfails
    cases hfails
  exact ⟨honly, hdelivers, ⟨rfl, "gone.jar", rfl⟩, hresult, by decide +kernel, by decide +kernel⟩

end Census

end CallCensus
