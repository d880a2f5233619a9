import CallCensus.Proofs.Census.Concatenation

namespace CallCensus.Census

variable {Content State : Type} {census : Census Content} {writer : Writer State}

-- The three ways in which a census ends. Two of them are at an archive that is there, which is the
-- last one that anything is told of.
inductive Ends (census : Census Content) (writer : Writer State) (state : State) (paths : List String)
    (outcome : Outcome State) : Prop where
  | flush (portions : List Portion) (next : State) (hgives : census.Gives paths portions)
      (hwrites : writer.writeAll state (portions.map (·.bytes)) = (.ok (), next))
      (houtcome : outcome = (close writer ⟨portions.length, paths.filter (!census.source.present ·),
        (portions.map (·.skipped)).sum, (Portion.output portions).count 0x0A⟩ next).after
          (census.told paths))
  | failure (before : List String) (path : String) (after : List String) (portions : List Portion)
      (next : State) (failure : Failure) (hpaths : paths = before ++ path :: after)
      (hgives : census.Gives before portions)
      (hwrites : writer.writeAll state (portions.map (·.bytes)) = (.ok (), next))
      (hpresent : census.source.present path = true) (hfails : census.portion path = .error failure)
      (houtcome : outcome = ⟨census.told (before ++ [path]), next, .error failure⟩)
  | refusal (before : List String) (path : String) (after : List String) (portions : List Portion)
      (next : State) (portion : Portion) (reason : String) (last : State)
      (hpaths : paths = before ++ path :: after) (hgives : census.Gives before portions)
      (hwrites : writer.writeAll state (portions.map (·.bytes)) = (.ok (), next))
      (hpresent : census.source.present path = true) (hportion : census.portion path = .ok portion)
      (hrefuses : writer.write next portion.bytes = (.error reason, last))
      (houtcome : outcome = ⟨census.told (before ++ [path]), last, .error (.output reason)⟩)

theorem close_eq (writer : Writer State) (total : Summary) (state : State) :
    close writer total state = ⟨[], (writer.flush state).2,
      match (writer.flush state).1 with
      | .ok () => .ok total
      | .error reason => .error (.output reason)⟩ := by
  rw [close]
  rcases writer.flush state with ⟨_ | _, _⟩ <;> rfl

theorem events_close (writer : Writer State) (total : Summary) (state : State) :
    (close writer total state).events = [] := by
  rw [close_eq]

theorem result_close (writer : Writer State) (total : Summary) (state : State) :
    (close writer total state).result = .ok total ∨
      ∃ reason, (close writer total state).result = .error (.output reason) := by
  rw [close_eq]
  rcases (writer.flush state).1 with reason | _
  · exact .inr ⟨reason, rfl⟩
  · exact .inl rfl

section Ends

variable {state : State} {paths : List String} {outcome : Outcome State}

-- What is told is told of the first paths, one after the other.
theorem Ends.exists_told (h : census.Ends writer state paths outcome) :
    ∃ front, outcome.events = census.told front := by
  cases h with
  | flush portions next hgives hwrites houtcome =>
      exact ⟨paths, by rw [houtcome, Outcome.after, events_close, List.append_nil]⟩
  | failure before path after portions next failure hpaths hgives hwrites hpresent hfails houtcome =>
      exact ⟨before ++ [path], by rw [houtcome]⟩
  | refusal before path after portions next portion reason last hpaths hgives hwrites hpresent
      hportion hrefuses houtcome =>
      exact ⟨before ++ [path], by rw [houtcome]⟩

theorem Ends.of_ok (h : census.Ends writer state paths outcome) {total : Summary}
    (hresult : outcome.result = .ok total) :
    ∃ portions, census.Gives paths portions ∧ outcome.events = census.told paths ∧
      total = ⟨portions.length, paths.filter (!census.source.present ·),
        (portions.map (·.skipped)).sum, (Portion.output portions).count 0x0A⟩ := by
  cases h with
  | flush portions next hgives hwrites houtcome =>
      refine ⟨portions, hgives, by rw [houtcome, Outcome.after, events_close, List.append_nil], ?_⟩
      rw [houtcome] at hresult
      rcases result_close writer _ next with hok | ⟨reason, hfails⟩
      · exact Except.ok.inj (hresult.symm.trans hok)
      · cases hresult.symm.trans hfails
  | failure before path after portions next failure hpaths hgives hwrites hpresent hfails houtcome =>
      rw [houtcome] at hresult
      cases hresult
  | refusal before path after portions next portion reason last hpaths hgives hwrites hpresent
      hportion hrefuses houtcome =>
      rw [houtcome] at hresult
      cases hresult

-- A census fails because of what it writes to or because of an archive that is there.
theorem Ends.of_error (h : census.Ends writer state paths outcome) {failure : Failure}
    (hresult : outcome.result = .error failure) :
    (∃ reason, failure = .output reason) ∨
      ∃ path, census.source.present path = true ∧ census.portion path = .error failure := by
  cases h with
  | flush portions next hgives hwrites houtcome =>
      rw [houtcome] at hresult
      rcases result_close writer _ next with hok | ⟨reason, hfails⟩
      · cases hresult.symm.trans hok
      · exact .inl ⟨reason, Except.error.inj (hresult.symm.trans hfails)⟩
  | failure before path after portions next other hpaths hgives hwrites hpresent hfails houtcome =>
      rw [houtcome] at hresult
      obtain rfl := Except.error.inj hresult
      exact .inr ⟨path, hpresent, hfails⟩
  | refusal before path after portions next portion reason last hpaths hgives hwrites hpresent
      hportion hrefuses houtcome =>
      rw [houtcome] at hresult
      exact .inl ⟨reason, (Except.error.inj hresult).symm⟩

end Ends

-- The archive that gives one of several portions, and those that give the portions before.
theorem Gives.exists_split {paths : List String} {front back : List Portion} {portion : Portion}
    (h : census.Gives paths (front ++ portion :: back)) :
    ∃ before path after, paths = before ++ path :: after ∧ census.Gives before front ∧
      census.source.present path = true ∧ census.portion path = .ok portion := by
  induction paths generalizing front with
  | nil =>
      unfold Gives at h
      simp at h
  | cons path paths ih =>
      by_cases hpresent : census.source.present path
      · unfold Gives at h
        rw [List.filter_cons_of_pos hpresent] at h
        cases front with
        | nil =>
            obtain ⟨hportion, -⟩ := List.forall₂_cons.mp h
            exact ⟨[], path, paths, rfl, .nil, hpresent, hportion⟩
        | cons first front =>
            obtain ⟨hfirst, hrest⟩ := List.forall₂_cons.mp h
            obtain ⟨before, later, after, rfl, hbefore, hlater⟩ := ih hrest
            exact ⟨path :: before, later, after, rfl, hbefore.cons hpresent hfirst, hlater⟩
      · have habsent := Bool.eq_false_iff.mpr hpresent
        obtain ⟨before, later, after, rfl, hbefore, hlater⟩ := ih ((gives_cons_absent habsent).mp h)
        exact ⟨path :: before, later, after, rfl, (gives_cons_absent habsent).mpr hbefore, hlater⟩

-- Where something is refused of what these archives give, the census ends at the archive that gave it.
theorem exists_refused {before : List String} {portions : List Portion}
    (hgives : census.Gives before portions) {state last : State} {reason : String}
    (hrefused : writer.writeAll state (portions.map (·.bytes)) = (.error reason, last)) :
    ∃ early path late front portion next, before = early ++ path :: late ∧
      census.Gives early front ∧ writer.writeAll state (front.map (·.bytes)) = (.ok (), next) ∧
      census.source.present path = true ∧ census.portion path = .ok portion ∧
      writer.write next portion.bytes = (.error reason, last) := by
  obtain ⟨texts, bytes, back, next, htexts, hwrites, hrefuses⟩ :=
    Writer.exists_of_writeAll_eq_error hrefused
  obtain ⟨front, rest, rfl, rfl, hrest⟩ := List.map_eq_append_iff.mp htexts
  obtain ⟨portion, others, rfl, rfl, rfl⟩ := List.map_eq_cons_iff.mp hrest
  obtain ⟨early, path, late, rfl, hearly, hpresent, hportion⟩ := hgives.exists_split
  exact ⟨early, path, late, front, portion, next, rfl, hearly, hwrites, hpresent, hportion, hrefuses⟩

theorem ends_of_refused {before : List String} {portions : List Portion}
    (hgives : census.Gives before portions) {state last : State} {reason : String}
    (hrefused : writer.writeAll state (portions.map (·.bytes)) = (.error reason, last))
    (after : List String) :
    census.Ends writer state (before ++ after)
      (census.runTo writer .empty state (before ++ after)) := by
  obtain ⟨early, path, late, front, portion, next, rfl, hearly, hwrites, hpresent, hportion,
    hrefuses⟩ := exists_refused hgives hrefused
  rw [List.append_assoc, List.cons_append]
  exact .refusal early path (late ++ after) front next portion reason last rfl hearly hwrites hpresent
    hportion hrefuses (runTo_of_refused hearly hwrites hpresent _ _ hportion hrefuses)

theorem ends_runTo (census : Census Content) (writer : Writer State) (state : State)
    (paths : List String) :
    census.Ends writer state paths (census.runTo writer .empty state paths) := by
  rcases census.gives_or_fails paths with ⟨portions, hgives⟩ |
    ⟨before, path, after, portions, failure, rfl, hgives, hpresent, hfails⟩
  · rcases hwrites : writer.writeAll state (portions.map (·.bytes)) with ⟨reason | _, next⟩
    · have hends := ends_of_refused hgives hwrites []
      rwa [List.append_nil] at hends
    · refine .flush portions next hgives hwrites ?_
      rw [runTo_of_gives hgives hwrites, advance_empty]
  · rcases hwrites : writer.writeAll state (portions.map (·.bytes)) with ⟨reason | _, next⟩
    · exact ends_of_refused hgives hwrites (path :: after)
    · exact .failure before path after portions next failure rfl hgives hwrites hpresent hfails
        (runTo_of_failing hgives hwrites hpresent after .empty hfails)

end CallCensus.Census
