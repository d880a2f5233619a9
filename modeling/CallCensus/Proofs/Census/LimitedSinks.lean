import CallCensus.Proofs.Census.Endings

namespace CallCensus

namespace Writer

variable {State : Type}

-- A writer that takes no more bytes than there is room for, if there is a limit. Of bytes that go
-- beyond the limit it takes those that do not, and then refuses the write. A flush adds nothing.
structure Limited (writer : Writer State) (taken : State → List UInt8) (room : State → Option Nat) :
    Prop where
  accepts (state : State) (bytes : List UInt8) (hroom : ∀ limit ∈ room state, bytes.length ≤ limit) :
    ∃ next, writer.write state bytes = (.ok (), next) ∧ taken next = taken state ++ bytes ∧
      room next = (room state).map (· - bytes.length)
  refuses (state : State) (bytes : List UInt8) (limit : Nat) (hroom : limit ∈ room state)
    (hfull : limit < bytes.length) :
    ∃ reason next, writer.write state bytes = (.error reason, next) ∧
      taken next = taken state ++ bytes.take limit
  keeps (state : State) : taken (writer.flush state).2 = taken state

section Limits

variable {writer : Writer State} {taken : State → List UInt8} {room : State → Option Nat}

theorem Limited.writeAll_of_room (h : writer.Limited taken room) {state : State}
    {texts : List (List UInt8)} (hroom : ∀ limit ∈ room state, texts.flatten.length ≤ limit) :
    ∃ next, writer.writeAll state texts = (.ok (), next) ∧
      taken next = taken state ++ texts.flatten := by
  induction texts generalizing state with
  | nil => exact ⟨state, rfl, by rw [List.flatten_nil, List.append_nil]⟩
  | cons bytes rest ih =>
      simp only [List.flatten_cons, List.length_append] at hroom
      have hfirst : ∀ limit ∈ room state, bytes.length ≤ limit := by
        intro limit hlimit
        have hle := hroom limit hlimit
        omega
      obtain ⟨middle, hwrites, htaken, hleft⟩ := h.accepts state bytes hfirst
      have hrest : ∀ limit ∈ room middle, rest.flatten.length ≤ limit := by
        intro limit hlimit
        rw [hleft] at hlimit
        obtain ⟨whole, hwhole, rfl⟩ := Option.map_eq_some_iff.mp hlimit
        have hle := hroom whole hwhole
        omega
      obtain ⟨next, hall, hlast⟩ := ih hrest
      refine ⟨next, (writeAll_cons_of_ok hwrites).trans hall, ?_⟩
      rw [hlast, htaken, List.flatten_cons, List.append_assoc]

theorem Limited.writeAll_of_no_room (h : writer.Limited taken room) {state : State}
    {texts : List (List UInt8)} {limit : Nat} (hlimit : limit ∈ room state)
    (hfull : limit < texts.flatten.length) :
    ∃ reason next, writer.writeAll state texts = (.error reason, next) ∧
      taken next = taken state ++ texts.flatten.take limit := by
  induction texts generalizing state limit with
  | nil => exact absurd hfull (Nat.not_lt_zero limit)
  | cons bytes rest ih =>
      rw [List.flatten_cons, List.length_append] at hfull
      by_cases hfirst : bytes.length ≤ limit
      · obtain ⟨middle, hwrites, htaken, hleft⟩ := h.accepts state bytes fun other hother =>
          Option.mem_unique hother hlimit ▸ hfirst
        have hmiddle : limit - bytes.length ∈ room middle := by
          rw [hleft]
          exact Option.mem_map_of_mem _ hlimit
        obtain ⟨reason, next, hrefused, hlast⟩ := ih hmiddle (by omega)
        refine ⟨reason, next, (writeAll_cons_of_ok hwrites).trans hrefused, ?_⟩
        rw [hlast, htaken, List.flatten_cons, List.append_assoc, List.take_append,
          List.take_of_length_le hfirst]
      · have hlt : limit < bytes.length := Nat.not_le.mp hfirst
        obtain ⟨reason, next, hrefuses, hlast⟩ := h.refuses state bytes limit hlimit hlt
        refine ⟨reason, next, writeAll_cons_of_error hrefuses, ?_⟩
        rw [hlast, List.flatten_cons, List.take_append_of_le_length (Nat.le_of_lt hlt)]

end Limits

-- The same writer, with the number of times that it is asked to flush.
def counting (writer : Writer State) : Writer (State × Nat) where
  write := fun (state, flushes) bytes =>
    let (answer, next) := writer.write state bytes
    (answer, next, flushes)
  flush := fun (state, flushes) =>
    let (answer, next) := writer.flush state
    (answer, next, flushes + 1)

theorem writeAll_counting (writer : Writer State) (state : State) (flushes : Nat)
    (texts : List (List UInt8)) :
    writer.counting.writeAll (state, flushes) texts =
      ((writer.writeAll state texts).1, (writer.writeAll state texts).2, flushes) := by
  induction texts generalizing state with
  | nil => rfl
  | cons bytes rest ih =>
      rcases hanswer : writer.write state bytes with ⟨reason | _, next⟩
      · have hcounting : writer.counting.write (state, flushes) bytes =
            (.error reason, next, flushes) := by simp only [counting, hanswer]
        rw [writeAll_cons_of_error hanswer, writeAll_cons_of_error hcounting]
      · have hcounting : writer.counting.write (state, flushes) bytes =
            (.ok (), next, flushes) := by simp only [counting, hanswer]
        rw [writeAll_cons_of_ok hanswer, writeAll_cons_of_ok hcounting, ih]

end Writer

theorem Sink.limited_writerOf (refusal fault : String) :
    (writerOf refusal fault).Limited Sink.written Sink.room where
  accepts sink bytes hroom := by
    refine ⟨sink.filled bytes, write_of_fits hroom, written_filled hroom, ?_⟩
    rw [filled]
    split <;> simp_all
  refuses sink bytes limit hroom hfull := by
    have hfits : ¬ sink.Fits bytes := fun h => absurd (h limit hroom) (Nat.not_le.mpr hfull)
    refine ⟨refusal, sink.filled bytes, write_of_not_fits hfits, ?_⟩
    simp only [filled, Option.mem_def.mp hroom]
  keeps _ := rfl

namespace Census

variable {Content : Type} {census : Census Content}

theorem told_prefix (census : Census Content) (front : List String) (path : String)
    (back : List String) : census.told (front ++ [path]) <+: census.told (front ++ path :: back) := by
  rw [List.append_cons front path back, told_append census (front ++ [path])]
  exact List.prefix_append _ _

-- A census that has these texts to write, and that tells these events and comes to this result where
-- all of them are written. What is refused ends it sooner.
structure Outcome.Follows {State : Type} (outcome : Outcome State) (writer : Writer State)
    (state : State) (texts : List (List UInt8)) (events : List Event)
    (result : Except Failure Summary) : Prop where
  failed {next : State} {failure : Failure} (hwrites : writer.writeAll state texts = (.ok (), next))
    (hresult : result = .error failure) : outcome = ⟨events, next, .error failure⟩
  closed {next : State} {total : Summary} (hwrites : writer.writeAll state texts = (.ok (), next))
    (hresult : result = .ok total) : outcome = (close writer total next).after events
  refused {last : State} {reason : String}
    (hrefused : writer.writeAll state texts = (.error reason, last)) :
    outcome.sink = last ∧ outcome.result = .error (.output reason) ∧ outcome.events <+: events

-- The same texts are written to whatever a census writes to, and the same is told of the archives.
theorem exists_follows (census : Census Content) (paths : List String) :
    ∃ portions events result,
      ((census.Gives paths portions ∧ ∃ total, result = .ok total) ∨
        ∃ before path after failure, paths = before ++ path :: after ∧
          census.Gives before portions ∧ census.source.present path = true ∧
          census.portion path = .error failure ∧ result = .error failure) ∧
      ∀ {State : Type} (writer : Writer State) (state : State),
        (census.runTo writer .empty state paths).Follows writer state (portions.map (·.bytes)) events
          result := by
  rcases census.gives_or_fails paths with ⟨portions, hgives⟩ |
    ⟨before, path, after, portions, failure, rfl, hgives, hpresent, hfails⟩
  · refine ⟨portions, census.told paths, .ok (census.advance .empty paths portions),
      .inl ⟨hgives, _, rfl⟩, fun writer state => ⟨?_, ?_, ?_⟩⟩
    · intro _ _ _ hresult
      cases hresult
    · intro next total hwrites hresult
      cases hresult
      exact runTo_of_gives hgives hwrites .empty
    · intro last reason hrefused
      obtain ⟨early, path, late, front, portion, next, rfl, hearly, hwrites, hpresent, hportion,
        hrefuses⟩ := exists_refused hgives hrefused
      rw [runTo_of_refused hearly hwrites hpresent late .empty hportion hrefuses]
      exact ⟨rfl, rfl, told_prefix census early path late⟩
  · refine ⟨portions, census.told (before ++ [path]), .error failure,
      .inr ⟨before, path, after, failure, rfl, hgives, hpresent, hfails, rfl⟩,
      fun writer state => ⟨?_, ?_, ?_⟩⟩
    · intro next other hwrites hresult
      cases hresult
      exact runTo_of_failing hgives hwrites hpresent after .empty hfails
    · intro _ _ _ hresult
      cases hresult
    · intro last reason hrefused
      obtain ⟨early, other, late, front, portion, next, rfl, hearly, hwrites, hthere, hportion,
        hrefuses⟩ := exists_refused hgives hrefused
      rw [List.append_assoc, List.cons_append,
        runTo_of_refused hearly hwrites hthere _ .empty hportion hrefuses]
      refine ⟨rfl, rfl, ?_⟩
      rw [List.append_assoc]
      exact told_prefix census early other _

section Limits

variable {State : Type} {writer : Writer State} {taken : State → List UInt8}
  {room : State → Option Nat}

-- A writer with too little room gets the beginning of what a census would write, and what it refuses it
-- with is what the census ends with. One with room for everything changes nothing before it is
-- flushed, which it is once, behind everything, if all archives succeed, and else never.
theorem run_limited (hlimited : writer.Limited taken room) (census : Census Content)
    (paths : List String) (state : State) :
    let free := census.run paths (openSink (taken state))
    let outcome := census.runTo writer .empty state paths
    let flushes := (census.runTo writer.counting .empty (state, 0) paths).sink.2
    ∃ portions, free.sink = openSink (taken state ++ Portion.output portions) ∧
      ((census.Gives paths portions ∧ ∃ total, free.result = .ok total) ∨
        ∃ before path after failure, paths = before ++ path :: after ∧
          census.Gives before portions ∧ census.source.present path = true ∧
          census.portion path = .error failure ∧ free.result = .error failure) ∧
      let written := writer.writeAll state (portions.map (·.bytes))
      ((∀ limit ∈ room state, (Portion.output portions).length ≤ limit) →
        written.1 = .ok () ∧ taken outcome.sink = taken state ++ Portion.output portions ∧
          outcome.events = free.events ∧
          match free.result with
          | .error failure =>
            outcome.result = .error failure ∧ outcome.sink = written.2 ∧ flushes = 0
          | .ok total =>
            let flushed := writer.flush written.2
            outcome.sink = flushed.2 ∧ flushes = 1 ∧
              outcome.result = match flushed.1 with
                | .ok () => .ok total
                | .error reason => .error (.output reason)) ∧
      ∀ limit ∈ room state, limit < (Portion.output portions).length →
        taken outcome.sink = taken state ++ (Portion.output portions).take limit ∧
          outcome.events <+: free.events ∧ flushes = 0 ∧
          ∃ reason, written = (.error reason, outcome.sink) ∧
            outcome.result = .error (.output reason) := by
  intro free outcome flushes
  obtain ⟨portions, events, result, hstops, hfollows⟩ := census.exists_follows paths
  have hfree : free = ⟨events, openSink (taken state ++ Portion.output portions), result⟩ := by
    have hopened := writeAll_openSink (taken state) portions
    cases result with
    | error failure => exact (hfollows Sink.writer _).failed hopened rfl
    | ok total =>
        rw [← List.append_nil events]
        exact (hfollows Sink.writer _).closed hopened rfl
  have houtcome : outcome.Follows writer state _ events result := hfollows writer state
  have hcount := hfollows writer.counting (state, 0)
  rw [hfree]
  refine ⟨portions, rfl, hstops, fun hroom => ?_, fun limit hlimit hfull => ?_⟩
  · rw [← flatten_bytes] at hroom
    obtain ⟨next, hwrites, htaken⟩ := hlimited.writeAll_of_room hroom
    have hcounting : writer.counting.writeAll (state, 0) (portions.map (·.bytes)) =
        (.ok (), next, 0) := by rw [Writer.writeAll_counting, hwrites]
    rw [flatten_bytes] at htaken
    rw [hwrites]
    cases result with
    | error failure =>
        rw [houtcome.failed hwrites rfl]
        exact ⟨rfl, htaken, rfl, rfl, rfl, congrArg (·.sink.2) (hcount.failed hcounting rfl)⟩
    | ok total =>
        have hclosed := houtcome.closed hwrites rfl
        rw [close_eq] at hclosed
        have hflushed := congrArg (·.sink.2) (hcount.closed hcounting rfl)
        rw [close_eq] at hflushed
        rw [hclosed]
        exact ⟨rfl, (hlimited.keeps next).trans htaken, List.append_nil events, rfl, hflushed, rfl⟩
  · rw [← flatten_bytes] at hfull
    obtain ⟨reason, last, hrefused, htaken⟩ := hlimited.writeAll_of_no_room hlimit hfull
    have hcounting : writer.counting.writeAll (state, 0) (portions.map (·.bytes)) =
        (.error reason, last, 0) := by rw [Writer.writeAll_counting, hrefused]
    obtain ⟨hlast, hresult, hevents⟩ := houtcome.refused hrefused
    have hflushes : flushes = 0 := congrArg Prod.snd (hcount.refused hcounting).1
    rw [flatten_bytes] at htaken
    rw [hlast, hrefused]
    exact ⟨htaken, hevents, hflushes, reason, rfl, hresult⟩

end Limits

-- Two archives of twelve bytes each. The first sink ends within the second, the other behind it.
theorem run_limited_within :
    let census : Census DecodedClass := ⟨.abort, .csv, .ok, fun _ => true,
      fun path => ⟨[], .ok [⟨"A.class", ⟨path, ["B"]⟩⟩]⟩⟩
    let paths := ["a.jar", "b.jar"]
    let writer := Sink.writerOf "no space left" "quota exceeded"
    let short := census.runTo writer .empty ⟨[], some 14, false⟩ paths
    let stuck := census.runTo writer .empty ⟨[], some 24, true⟩ paths
    writer.Limited Sink.written Sink.room ∧
      (census.run paths .unlimited).sink.written = Utf8.encode "a.jar,0,B,1\nb.jar,0,B,1\n" ∧
      short.sink.written = Utf8.encode "a.jar,0,B,1\nb." ∧
      short.result = .error (.output "no space left") ∧
      (census.runTo writer.counting .empty (⟨[], some 14, false⟩, 0) paths).sink.2 = 0 ∧
      stuck.sink.written = Utf8.encode "a.jar,0,B,1\nb.jar,0,B,1\n" ∧
      stuck.result = .error (.output "quota exceeded") ∧
      (census.runTo writer.counting .empty (⟨[], some 24, true⟩, 0) paths).sink.2 = 1 := by
  intro census paths writer short stuck
  have hlimited : writer.Limited Sink.written Sink.room := Sink.limited_writerOf _ _
  have hwritten : (census.run paths (openSink [])).sink.written =
      Utf8.encode "a.jar,0,B,1\nb.jar,0,B,1\n" := by decide +kernel
  have hresult : (census.run paths (openSink [])).result = .ok ⟨2, [], 0, 2⟩ := by decide +kernel
  obtain ⟨portions, hfree, -, -, hshort⟩ := run_limited hlimited census paths ⟨[], some 14, false⟩
  obtain ⟨portions', hfree', -, hstuck, -⟩ := run_limited hlimited census paths ⟨[], some 24, true⟩
  have htext : Portion.output portions = _ := (congrArg Sink.written hfree).symm.trans hwritten
  have htext' : Portion.output portions' = _ := (congrArg Sink.written hfree').symm.trans hwritten
  obtain ⟨hbeginning, -, hnever, reason, hrefused, hfails⟩ :=
    hshort 14 rfl (by rw [htext]; decide +kernel)
  obtain ⟨hwrites, hall, -, hclosed⟩ := hstuck fun limit hlimit => by
    rw [htext', ← Option.mem_unique (rfl : 24 ∈ some 24) hlimit]
    decide +kernel
  rw [hresult] at hclosed
  obtain ⟨-, honce, hflush⟩ := hclosed
  have hreached : (writer.writeAll ⟨[], some 24, true⟩ (portions'.map (·.bytes))).2 = _ :=
    (Sink.writeAll_eq_ok_iff.mp (Prod.ext hwrites rfl)).2
  rw [hreached] at hflush
  rw [Sink.reason_of_writeAll hrefused] at hfails
  rw [htext] at hbeginning
  rw [htext'] at hall
  exact ⟨hlimited, hwritten, hbeginning.trans (by decide +kernel), hfails, hnever, hall, hflush, honce⟩

end Census

end CallCensus
