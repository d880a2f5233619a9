import Mathlib.Data.List.Forall2

namespace CallCensus.Results

variable {ε α β : Type}

theorem map_eq_ok_iff {f : α → β} {result : Except ε α} {value : β} :
    result.map f = .ok value ↔ ∃ before, result = .ok before ∧ f before = value := by
  cases result <;> simp [Except.map]

theorem bind_eq_ok_iff {f : α → Except ε β} {result : Except ε α} {value : β} :
    result >>= f = .ok value ↔ ∃ before, result = .ok before ∧ f before = .ok value := by
  cases result <;> simp [bind, Except.bind]

theorem seq_eq_ok_iff {result : Except ε Unit} {next : Except ε α} {value : α} :
    (do result; next) = .ok value ↔ result = .ok () ∧ next = .ok value := by
  cases result <;> simp [bind, Except.bind]

-- A list of attempts succeeds with the list of what each of them gives.
theorem mapM_eq_ok_iff {f : α → Except ε β} {items : List α} {values : List β} :
    items.mapM f = .ok values ↔ List.Forall₂ (fun item value => f item = .ok value) items values := by
  induction items generalizing values with
  | nil =>
      simp only [List.mapM_nil, pure, Except.pure, Except.ok.injEq, List.forall₂_nil_left_iff]
      exact eq_comm
  | cons item items ih =>
      rw [List.mapM_cons, bind_eq_ok_iff, List.forall₂_cons_left_iff]
      constructor
      · rintro ⟨first, hfirst, h⟩
        obtain ⟨rest, hrest, h⟩ := bind_eq_ok_iff.mp h
        exact ⟨first, rest, hfirst, ih.mp hrest, (Except.ok.inj h).symm⟩
      · rintro ⟨first, rest, hfirst, hrest, rfl⟩
        exact ⟨first, hfirst, bind_eq_ok_iff.mpr ⟨rest, ih.mpr hrest, rfl⟩⟩

theorem exists_mapM_eq_ok_iff {f : α → Except ε β} {items : List α} :
    (∃ values, items.mapM f = .ok values) ↔ ∀ item ∈ items, ∃ value, f item = .ok value := by
  simp only [mapM_eq_ok_iff]
  induction items with
  | nil => exact ⟨fun _ => List.forall_mem_nil _, fun _ => ⟨[], .nil⟩⟩
  | cons item items ih =>
      rw [List.forall_mem_cons, ← ih]
      constructor
      · rintro ⟨values, h⟩
        obtain ⟨value, rest, hfirst, hrest, rfl⟩ := List.forall₂_cons_left_iff.mp h
        exact ⟨⟨value, hfirst⟩, ⟨rest, hrest⟩⟩
      · rintro ⟨⟨value, hfirst⟩, ⟨rest, hrest⟩⟩
        exact ⟨value :: rest, .cons hfirst hrest⟩

-- A list of attempts fails with the first of them that does.
theorem mapM_eq_error_iff {f : α → Except ε β} {items : List α} {error : ε} :
    items.mapM f = .error error ↔ ∃ before item after, items = before ++ item :: after ∧
      (∀ other ∈ before, ∃ value, f other = .ok value) ∧ f item = .error error := by
  constructor
  · intro h
    induction items with
    | nil => cases h
    | cons first items ih =>
        rw [List.mapM_cons] at h
        cases hfirst : f first with
        | error found =>
            rw [hfirst] at h
            cases h
            exact ⟨[], first, items, rfl, List.forall_mem_nil _, hfirst⟩
        | ok value =>
            rw [hfirst] at h
            have hitems : items.mapM f = .error error := by
              cases hrest : items.mapM f with
              | error found =>
                  rw [hrest] at h
                  exact congrArg Except.error (Except.error.inj h)
              | ok values =>
                  rw [hrest] at h
                  cases h
            obtain ⟨before, item, after, rfl, hbefore, hitem⟩ := ih hitems
            exact ⟨first :: before, item, after, rfl,
              List.forall_mem_cons.mpr ⟨⟨value, hfirst⟩, hbefore⟩, hitem⟩
  · rintro ⟨before, item, after, rfl, hbefore, hitem⟩
    induction before with
    | nil =>
        rw [List.nil_append, List.mapM_cons, hitem]
        rfl
    | cons first before ih =>
        obtain ⟨⟨value, hfirst⟩, hrest⟩ := List.forall_mem_cons.mp hbefore
        rw [List.cons_append, List.mapM_cons, hfirst]
        simp only [bind, Except.bind, ih hrest]

-- Attempts that come to the same one by one come to the same together, with the same error too.
theorem mapM_eq_of_forall₂ {γ : Type} {f : α → Except ε β} {g : γ → Except ε β} {items : List α}
    {others : List γ} (h : List.Forall₂ (fun item other => f item = g other) items others) :
    items.mapM f = others.mapM g := by
  induction h with
  | nil => rfl
  | cons hfirst _ ih => rw [List.mapM_cons, List.mapM_cons, hfirst, ih]

-- So it is with attempts that do not say why they fail.
theorem mapM_eq_some_iff {f : α → Option β} {items : List α} {values : List β} :
    items.mapM f = some values ↔ List.Forall₂ (fun item value => f item = some value) items values := by
  induction items generalizing values with
  | nil =>
      rw [List.mapM_nil, Option.pure_def, Option.some.injEq, List.forall₂_nil_left_iff]
      exact eq_comm
  | cons item items ih =>
      simp only [List.mapM_cons, Option.bind_eq_bind, Option.bind_eq_some_iff, Option.pure_def,
        Option.some.injEq, ih]
      rw [List.forall₂_cons_left_iff]
      constructor
      · rintro ⟨first, hfirst, rest, hrest, rfl⟩
        exact ⟨first, rest, hfirst, hrest, rfl⟩
      · rintro ⟨first, rest, hfirst, hrest, rfl⟩
        exact ⟨first, hfirst, rest, hrest, rfl⟩

theorem mapM_map_eq_some {γ : Type} {f : β → Option γ} {g : α → β} {k : α → γ} {items : List α}
    (h : ∀ item ∈ items, f (g item) = some (k item)) :
    (items.map g).mapM f = some (items.map k) := by
  apply mapM_eq_some_iff.mpr
  apply List.forall₂_map_left_iff.mpr
  apply List.forall₂_map_right_iff.mpr
  exact List.forall₂_same.mpr h

theorem exists_of_forall₂ {R : α → β → Prop} {items : List α} {values : List β}
    (h : List.Forall₂ R items values) : ∀ item ∈ items, ∃ value, R item value := by
  induction h with
  | nil => exact List.forall_mem_nil _
  | cons hfirst _ ih => exact List.forall_mem_cons.mpr ⟨⟨_, hfirst⟩, ih⟩

theorem forall₂_append_iff {R : α → β → Prop} {front back : List α} {values : List β} :
    List.Forall₂ R (front ++ back) values ↔
      ∃ first second, List.Forall₂ R front first ∧ List.Forall₂ R back second ∧
        values = first ++ second := by
  constructor
  · intro h
    induction front generalizing values with
    | nil => exact ⟨[], values, .nil, h, rfl⟩
    | cons item front ih =>
        obtain ⟨value, rest, hvalue, hrest, rfl⟩ := List.forall₂_cons_left_iff.mp h
        obtain ⟨first, second, hfirst, hsecond, rfl⟩ := ih hrest
        exact ⟨value :: first, second, .cons hvalue hfirst, hsecond, rfl⟩
  · rintro ⟨first, second, hfirst, hsecond, rfl⟩
    exact List.rel_append hfirst hsecond

theorem forall₂_exists_map_iff {γ : Type} {R : α → β → Prop} {f : β → γ} {items : List α}
    {values : List γ} :
    List.Forall₂ (fun item value => ∃ middle, R item middle ∧ f middle = value) items values ↔
      ∃ middles, List.Forall₂ R items middles ∧ values = middles.map f := by
  constructor
  · intro h
    induction h with
    | nil => exact ⟨[], .nil, rfl⟩
    | cons hfirst _ ih =>
        obtain ⟨middle, hmiddle, rfl⟩ := hfirst
        obtain ⟨middles, hmiddles, rfl⟩ := ih
        exact ⟨middle :: middles, .cons hmiddle hmiddles, rfl⟩
  · rintro ⟨middles, hmiddles, rfl⟩
    exact List.forall₂_map_right_iff.mpr (hmiddles.imp fun _ middle h => ⟨middle, h, rfl⟩)

end CallCensus.Results
