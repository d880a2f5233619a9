import CallCensus.Proofs.Census.Decoding

namespace CallCensus.Survey

variable {Content : Type} {decoder : Decoder Content} {archive path : String}

-- Whether an entry is a class that can be read.
def accepts (decoder : Decoder Content) (entry : ClassEntry Content) : Bool :=
  (decoder entry.content).isOk

-- The classes in the entries that can be read.
def readable (decoder : Decoder Content) (entries : List (ClassEntry Content)) : List DecodedClass :=
  entries.filterMap fun entry => (decoder entry.content).toOption

theorem accepts_eq_true_iff {entry : ClassEntry Content} :
    accepts decoder entry = true ↔ ∃ decoded, decoder entry.content = .ok decoded := by
  unfold accepts
  cases decoder entry.content <;> simp [Except.isOk, Except.toBool]

theorem accepts_eq_false_iff {entry : ClassEntry Content} :
    accepts decoder entry = false ↔ ∃ cause, decoder entry.content = .error cause := by
  unfold accepts
  cases decoder entry.content <;> simp [Except.isOk, Except.toBool]

section Steps

variable {entry : ClassEntry Content} (rest : List (ClassEntry Content))

theorem readable_cons_ok {decoded : DecodedClass} (h : decoder entry.content = .ok decoded) :
    readable decoder (entry :: rest) = decoded :: readable decoder rest := by
  simp [readable, h, Except.toOption]

theorem readable_cons_error {cause : DecodeError} (h : decoder entry.content = .error cause) :
    readable decoder (entry :: rest) = readable decoder rest := by
  simp [readable, h, Except.toOption]

-- An entry that is accepted adds its class, under either policy.
theorem outcome_decodeEntries_cons_ok (policy : Policy) {decoded : DecodedClass}
    (h : decoder entry.content = .ok decoded) :
    (decodeEntries policy decoder archive (entry :: rest)).outcome =
      (decodeEntries policy decoder archive rest).outcome.map fun (classes, skipped) =>
        (decoded :: classes, skipped) := by
  rw [decodeEntries]
  simp only [h, Told.outcome_after, Told.outcome_bind]
  rfl

theorem outcome_decodeEntries_cons_skip {cause : DecodeError}
    (h : decoder entry.content = .error cause) :
    (decodeEntries .skip decoder archive (entry :: rest)).outcome =
      (decodeEntries .skip decoder archive rest).outcome.map fun (classes, skipped) =>
        (classes, skipped + 1) := by
  rw [decodeEntries]
  simp only [h, Told.outcome_after, Told.outcome_bind]
  rfl

theorem outcome_decodeEntries_cons_abort {cause : DecodeError}
    (h : decoder entry.content = .error cause) :
    (decodeEntries .abort decoder archive (entry :: rest)).outcome =
      .error (.malformedClass archive entry.name cause) := by
  rw [decodeEntries]
  simp only [h]
  rfl

end Steps

section Runs

variable {entries : List (ClassEntry Content)}

-- Where malformed entries are left out, what becomes of an entry depends on that entry alone.
theorem outcome_decodeEntries_skip (decoder : Decoder Content) (archive : String)
    (entries : List (ClassEntry Content)) :
    (decodeEntries .skip decoder archive entries).outcome =
      .ok (readable decoder entries, entries.countP (!accepts decoder ·)) := by
  induction entries with
  | nil => rfl
  | cons entry rest ih =>
      cases h : decoder entry.content with
      | ok decoded =>
          have haccepts : accepts decoder entry = true := accepts_eq_true_iff.mpr ⟨decoded, h⟩
          rw [outcome_decodeEntries_cons_ok rest .skip h, ih, readable_cons_ok rest h,
            List.countP_cons_of_neg (by simp [haccepts])]
          rfl
      | error cause =>
          have hrejects : accepts decoder entry = false := accepts_eq_false_iff.mpr ⟨cause, h⟩
          rw [outcome_decodeEntries_cons_skip rest h, ih, readable_cons_error rest h,
            List.countP_cons_of_pos (by simp [hrejects])]
          rfl

theorem forall₂_readable (h : ∀ entry ∈ entries, accepts decoder entry) :
    List.Forall₂ (fun entry decoded => decoder entry.content = .ok decoded) entries
      (readable decoder entries) := by
  induction entries with
  | nil => exact .nil
  | cons entry rest ih =>
      obtain ⟨hentry, hrest⟩ := List.forall_mem_cons.mp h
      obtain ⟨decoded, hdecoded⟩ := accepts_eq_true_iff.mp hentry
      rw [readable_cons_ok rest hdecoded]
      exact .cons hdecoded (ih hrest)

theorem readable_filter (decoder : Decoder Content) (entries : List (ClassEntry Content)) :
    readable decoder (entries.filter (accepts decoder)) = readable decoder entries := by
  rw [readable, List.filterMap_filter, readable]
  congr 1
  funext entry
  unfold accepts
  cases decoder entry.content <;> rfl

-- Where malformed entries are not left out, the first of them is the end.
theorem outcome_decodeEntries_abort {before : List (ClassEntry Content)}
    (hbefore : ∀ other ∈ before, accepts decoder other) {entry : ClassEntry Content}
    {cause : DecodeError} (hentry : decoder entry.content = .error cause)
    (after : List (ClassEntry Content)) :
    (decodeEntries .abort decoder archive (before ++ entry :: after)).outcome =
      .error (.malformedClass archive entry.name cause) := by
  induction before with
  | nil => exact outcome_decodeEntries_cons_abort after hentry
  | cons other before ih =>
      obtain ⟨hother, hrest⟩ := List.forall_mem_cons.mp hbefore
      obtain ⟨decoded, hdecoded⟩ := accepts_eq_true_iff.mp hother
      rw [List.cons_append, outcome_decodeEntries_cons_ok _ .abort hdecoded, ih hrest]
      rfl

theorem accepts_or_first_rejected (decoder : Decoder Content) (entries : List (ClassEntry Content)) :
    (∀ entry ∈ entries, accepts decoder entry) ∨
      ∃ before entry after cause, entries = before ++ entry :: after ∧
        (∀ other ∈ before, accepts decoder other) ∧ decoder entry.content = .error cause := by
  cases h : entries.find? (!accepts decoder ·) with
  | none =>
      have hnone := List.find?_eq_none.mp h
      exact .inl fun entry hentry => by simpa using hnone entry hentry
  | some entry =>
      obtain ⟨hrejects, before, after, hsplit, hbefore⟩ := List.find?_eq_some_iff_append.mp h
      obtain ⟨cause, hcause⟩ := accepts_eq_false_iff.mp (Bool.not_eq_true' _ ▸ hrejects)
      refine .inr ⟨before, entry, after, cause, hsplit, fun other hother => ?_, hcause⟩
      simpa using hbefore other hother

end Runs

section Builds

variable {source : Source Content} {entries : List (ClassEntry Content)}

theorem outcome_build_skip (hlisted : (source.list path).entries = .ok entries) :
    (build .skip decoder source path).outcome =
      .ok (graphOf path (readable decoder entries), entries.countP (!accepts decoder ·)) := by
  rw [outcome_build, hlisted]
  simp only [bind, Except.bind, outcome_decodeEntries_skip]
  rfl

theorem outcome_build_of_accepts (hlisted : (source.list path).entries = .ok entries)
    (h : ∀ entry ∈ entries, accepts decoder entry) (policy : Policy) :
    (build policy decoder source path).outcome =
      .ok (graphOf path (readable decoder entries), 0) :=
  outcome_build_of_forall₂ hlisted (forall₂_readable h)

theorem outcome_build_abort {before after : List (ClassEntry Content)} {entry : ClassEntry Content}
    {cause : DecodeError} (hlisted : (source.list path).entries = .ok (before ++ entry :: after))
    (hbefore : ∀ other ∈ before, accepts decoder other)
    (hentry : decoder entry.content = .error cause) :
    (build .abort decoder source path).outcome = .error (.malformedClass path entry.name cause) := by
  rw [outcome_build, hlisted]
  simp only [bind, Except.bind, outcome_decodeEntries_abort hbefore hentry]

-- To give up the archive is to tell of the first entry that is malformed.
theorem build_abort_eq_error_iff (hlisted : (source.list path).entries = .ok entries)
    (failure : Failure) : (build .abort decoder source path).outcome = .error failure ↔
      ∃ before entry after cause, entries = before ++ entry :: after ∧
        (∀ other ∈ before, accepts decoder other) ∧ decoder entry.content = .error cause ∧
        failure = .malformedClass path entry.name cause := by
  constructor
  · intro hfails
    rcases accepts_or_first_rejected decoder entries with
      haccepts | ⟨before, entry, after, cause, rfl, hbefore, hentry⟩
    · rw [outcome_build_of_accepts hlisted haccepts] at hfails
      cases hfails
    · rw [outcome_build_abort hlisted hbefore hentry, Except.error.injEq] at hfails
      exact ⟨before, entry, after, cause, rfl, hbefore, hentry, hfails.symm⟩
  · rintro ⟨before, entry, after, cause, rfl, hbefore, hentry, rfl⟩
    exact outcome_build_abort hlisted hbefore hentry

-- Malformed entries that are left out change nothing but their own number: the graph is the one of
-- an archive without them. Where they are not left out, the archive is given up exactly if there is
-- one, and what is told is where the first of them stands and what is wrong with it.
theorem build_policies (hlisted : (source.list path).entries = .ok entries) :
    (∃ graph, (build .skip decoder source path).outcome =
        .ok (graph, entries.countP (!accepts decoder ·)) ∧
      ∀ chosen : Source Content,
        (chosen.list path).entries = .ok (entries.filter (accepts decoder)) →
        (build .abort decoder chosen path).outcome = .ok (graph, 0)) ∧
    (∀ failure, (build .abort decoder source path).outcome = .error failure ↔
      ∃ before entry after cause, entries = before ++ entry :: after ∧
        (∀ other ∈ before, accepts decoder other) ∧ decoder entry.content = .error cause ∧
        failure = .malformedClass path entry.name cause) ∧
    ((∃ failure, (build .abort decoder source path).outcome = .error failure) ↔
      ∃ entry ∈ entries, ∃ cause, decoder entry.content = .error cause) ∧
    ((∀ entry ∈ entries, accepts decoder entry) →
      ∃ graph, ∀ policy, (build policy decoder source path).outcome = .ok (graph, 0)) := by
  refine ⟨⟨_, outcome_build_skip hlisted, fun chosen hchosen => ?_⟩,
    build_abort_eq_error_iff hlisted, ?_, fun h => ⟨_, outcome_build_of_accepts hlisted h⟩⟩
  · have haccepts : ∀ entry ∈ entries.filter (accepts decoder), accepts decoder entry :=
      fun entry hentry => (List.mem_filter.mp hentry).2
    rw [outcome_build_of_accepts hchosen haccepts, readable_filter]
  · constructor
    · rintro ⟨failure, hfails⟩
      obtain ⟨before, entry, after, cause, rfl, -, hentry, -⟩ :=
        (build_abort_eq_error_iff hlisted failure).mp hfails
      exact ⟨entry, List.mem_append_right before List.mem_cons_self, cause, hentry⟩
    · rintro ⟨entry, hmem, cause, hentry⟩
      rcases accepts_or_first_rejected decoder entries with
        haccepts | ⟨before, first, after, reason, rfl, hbefore, hfirst⟩
      · have hrejects := accepts_eq_false_iff.mpr ⟨cause, hentry⟩
        rw [haccepts entry hmem] at hrejects
        cases hrejects
      · exact ⟨_, outcome_build_abort hlisted hbefore hfirst⟩

-- Two malformed entries among three classes, two of which belong to one top-level class.
theorem build_policies_mixed :
    let entries : List (ClassEntry (Except DecodeError DecodedClass)) :=
      [⟨"B.class", .ok ⟨"B", ["A"]⟩⟩, ⟨"bad.class", .error (.badMagic 0)⟩,
        ⟨"A$1.class", .ok ⟨"A$1", ["B", "B"]⟩⟩, ⟨"cut.class", .error (.truncated 8 2)⟩,
        ⟨"A.class", .ok ⟨"A", []⟩⟩]
    let sound : List (ClassEntry (Except DecodeError DecodedClass)) :=
      [⟨"B.class", .ok ⟨"B", ["A"]⟩⟩, ⟨"A$1.class", .ok ⟨"A$1", ["B", "B"]⟩⟩,
        ⟨"A.class", .ok ⟨"A", []⟩⟩]
    let listing (entries : List (ClassEntry (Except DecodeError DecodedClass))) :
        Source (Except DecodeError DecodedClass) := ⟨fun _ => true, fun _ => ⟨[], .ok entries⟩⟩
    (∃ graph, (build .skip id (listing entries) "a.jar").outcome = .ok (graph, 2) ∧
        (build .abort id (listing sound) "a.jar").outcome = .ok (graph, 0) ∧
        ∀ policy, (build policy id (listing sound) "a.jar").outcome = .ok (graph, 0)) ∧
      (build .abort id (listing entries) "a.jar").outcome =
        .error (.malformedClass "a.jar" "bad.class" (.badMagic 0)) := by
  intro entries sound listing
  have hsound : ∀ entry ∈ sound, accepts id entry := by decide
  obtain ⟨⟨graph, hskip, habort⟩, hfails, -, -⟩ :=
    @build_policies _ id "a.jar" (listing entries) entries rfl
  obtain ⟨-, -, -, hagree⟩ :=
    @build_policies _ id "a.jar" (listing sound) sound rfl
  have hgraph := habort (listing sound) rfl
  obtain ⟨other, hother⟩ := hagree hsound
  have hsame : other = graph := by
    have h := (hother .abort).symm.trans hgraph
    exact (Prod.mk.inj (Except.ok.inj h)).1
  refine ⟨⟨graph, hskip, hgraph, hsame ▸ hother⟩, ?_⟩
  exact (hfails _).mpr ⟨[⟨"B.class", .ok ⟨"B", ["A"]⟩⟩], ⟨"bad.class", .error (.badMagic 0)⟩, _,
    .badMagic 0, rfl, by decide, rfl, rfl⟩

end Builds

end CallCensus.Survey
