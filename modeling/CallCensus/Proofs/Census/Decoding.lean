import CallCensus.Census.Survey
import CallCensus.Proofs.Results

namespace CallCensus

namespace Told

variable {α β : Type}

@[simp] theorem outcome_after (events : List Event) (told : Told α) :
    (told.after events).outcome = told.outcome :=
  rfl

@[simp] theorem outcome_bind (told : Told α) (next : α → Told β) :
    (told.bind next).outcome = told.outcome.bind fun value => (next value).outcome := by
  unfold bind
  cases told.outcome <;> rfl

end Told

namespace Survey

variable {Content : Type}

-- Nothing is left out where every entry is accepted.
theorem outcome_decodeEntries {policy : Policy} {decoder : Decoder Content} {archive : String}
    {entries : List (ClassEntry Content)} {classes : List DecodedClass}
    (h : List.Forall₂ (fun entry decoded => decoder entry.content = .ok decoded) entries classes) :
    (decodeEntries policy decoder archive entries).outcome = .ok (classes, 0) := by
  induction h with
  | nil => rfl
  | cons hfirst _ ih => simp [decodeEntries, hfirst, ih, Except.bind, Told.pure]

-- A graph is built from the entries that are listed and the classes that are decoded from them.
theorem outcome_build (policy : Policy) (decoder : Decoder Content) (source : Source Content)
    (path : String) : (build policy decoder source path).outcome = do
      let entries ← (source.list path).entries
      let (classes, skipped) ← (decodeEntries policy decoder path entries).outcome
      return (graphOf path classes, skipped) := by
  simp only [build, Told.outcome_bind, Told.outcome_after]
  rfl

theorem exists_graphOf_of_build {policy : Policy} {decoder : Decoder Content}
    {source : Source Content} {path : String} {graph : CallGraph} {skipped : Nat}
    (h : (build policy decoder source path).outcome = .ok (graph, skipped)) :
    ∃ classes, graph = graphOf path classes := by
  rw [outcome_build] at h
  obtain ⟨entries, -, h⟩ := Results.bind_eq_ok_iff.mp h
  obtain ⟨⟨classes, left⟩, -, h⟩ := Results.bind_eq_ok_iff.mp h
  exact ⟨classes, (Prod.mk.inj (Except.ok.inj h)).1.symm⟩

theorem archive_of_build {policy : Policy} {decoder : Decoder Content} {source : Source Content}
    {path : String} {graph : CallGraph} {skipped : Nat}
    (h : (build policy decoder source path).outcome = .ok (graph, skipped)) :
    graph.archive = path := by
  obtain ⟨classes, rfl⟩ := exists_graphOf_of_build h
  rfl

theorem outcome_build_of_forall₂ {policy : Policy} {decoder : Decoder Content}
    {source : Source Content} {path : String} {entries : List (ClassEntry Content)}
    {classes : List DecodedClass} (hlisted : (source.list path).entries = .ok entries)
    (h : List.Forall₂ (fun entry decoded => decoder entry.content = .ok decoded) entries classes) :
    (build policy decoder source path).outcome = .ok (graphOf path classes, 0) := by
  rw [outcome_build, hlisted]
  simp only [bind, Except.bind, outcome_decodeEntries h]
  rfl

end Survey

end CallCensus
