import CallCensus.Proofs.Census.Endings

namespace CallCensus

namespace Census

variable {Content : Type} {census : Census Content}

-- The outcome with a sink that takes everything in the place of its own.
def Outcome.opened (outcome : Outcome Sink) : Outcome Sink :=
  { outcome with sink := openSink outcome.sink.written }

-- Nothing that is written fails.
def Delivers (census : Census Content) (paths : List String) (sink : Sink) : Prop :=
  ∀ reason, (census.run paths sink).result ≠ .error (.output reason)

theorem written_of_writeAll {sink next : Sink} {portions : List Portion}
    (hwrites : Sink.writer.writeAll sink (portions.map (·.bytes)) = (.ok (), next)) :
    next.written = sink.written ++ Portion.output portions := by
  obtain ⟨hfits, rfl⟩ := Sink.writeAll_eq_ok_iff.mp hwrites
  rw [Sink.written_filled hfits, flatten_bytes]

theorem sink_close (total : Summary) (sink : Sink) : (close Sink.writer total sink).sink = sink := by
  obtain ⟨written, room, flushFails⟩ := sink
  cases flushFails <;> rfl

-- A sink makes no difference but by failing. While nothing that is written fails, a census tells,
-- writes and amounts to what it does with a sink that takes everything.
theorem run_opened {paths : List String} {sink : Sink} (h : census.Delivers paths sink) :
    (census.run paths sink).opened = census.run paths (openSink sink.written) := by
  have hends : census.Ends Sink.writer sink paths (census.run paths sink) :=
    census.ends_runTo Sink.writer sink paths
  unfold Delivers at h
  generalize census.run paths sink = outcome at h hends ⊢
  cases hends with
  | flush portions next hgives hwrites houtcome =>
      subst houtcome
      rw [run_of_gives hgives]
      generalize Summary.mk _ _ _ _ = total at h ⊢
      rcases result_close Sink.writer total next with hok | ⟨reason, hfails⟩
      · simp only [Outcome.opened, Outcome.after, events_close, List.append_nil, hok, sink_close,
          written_of_writeAll hwrites]
      · exact absurd hfails (h reason)
  | failure before path after portions next failure hpaths hgives hwrites hpresent hfails houtcome =>
      subst hpaths houtcome
      rw [run_of_failing hgives hpresent hfails, Outcome.opened, written_of_writeAll hwrites]
  | refusal before path after portions next portion reason last hpaths hgives hwrites hpresent
      hportion hrefuses houtcome =>
      subst houtcome
      exact absurd rfl (h reason)

theorem delivers_of_ok {paths : List String} {sink : Sink} {total : Summary}
    (h : (census.run paths sink).result = .ok total) : census.Delivers paths sink := by
  intro reason hfails
  rw [h] at hfails
  cases hfails

-- A census that succeeds has written the portions of all archives that are there, whatever room
-- the sink has, and its summary counts them.
theorem gives_of_ok {paths : List String} {total : Summary} {sink : Sink}
    (h : (census.run paths sink).result = .ok total) :
    ∃ portions, census.Gives paths portions ∧
      (census.run paths sink).sink.written = sink.written ++ Portion.output portions ∧
      total = ⟨portions.length, paths.filter (!census.source.present ·),
        (portions.map (·.skipped)).sum, (Portion.output portions).count 0x0A⟩ := by
  have hopened := run_opened (delivers_of_ok h)
  have hresult : (census.run paths (openSink sink.written)).result = .ok total := by
    rw [← hopened, ← h]
    rfl
  rcases census.gives_or_fails paths with ⟨portions, hgives⟩ |
    ⟨before, path, after, portions, failure, rfl, hgives, hpresent, hfails⟩
  · rw [run_of_gives hgives] at hopened hresult
    have hwritten := congrArg (·.sink.written) hopened
    exact ⟨portions, hgives, hwritten, (Except.ok.inj hresult).symm⟩
  · rw [run_of_failing hgives hpresent hfails] at hresult
    cases hresult

-- Portions are made of graphs, and put together they are the texts of the graphs.
theorem graphs_of_gives {paths : List String} {portions : List Portion}
    (h : census.Gives paths portions) :
    ∃ graphs, List.Forall₂ (fun path graph =>
          ∃ skipped, (census.survey path).outcome = .ok (graph, skipped))
        (paths.filter (census.source.present ·)) graphs ∧
      portions.length = graphs.length ∧
      Portion.output portions = Utf8.encode (String.join (graphs.map census.format.render)) := by
  unfold Gives at h
  generalize paths.filter (census.source.present ·) = present at h ⊢
  induction h with
  | nil => exact ⟨[], .nil, rfl, rfl⟩
  | cons hfirst _ ih =>
      obtain ⟨⟨graph, skipped⟩, hbuilt, rfl⟩ := Results.map_eq_ok_iff.mp hfirst
      obtain ⟨graphs, hgraphs, hlength, houtput⟩ := ih
      refine ⟨graph :: graphs, .cons ⟨skipped, hbuilt⟩ hgraphs, congrArg (· + 1) hlength, ?_⟩
      rw [Portion.output, List.flatMap_cons, List.map_cons, String.join_cons, Utf8.encode_append,
        ← houtput]
      rfl

end Census

end CallCensus
