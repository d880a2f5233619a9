namespace CallCensus.Split

-- The parts between the separators. There is one part more than there are separators.
def on (separator : Char) : List Char → List (List Char)
  | [] => [[]]
  | char :: rest =>
    if char = separator then [] :: on separator rest
    else
      match on separator rest with
      | [] => [[char]]
      | part :: parts => (char :: part) :: parts

theorem on_ne_nil (separator : Char) (chars : List Char) : on separator chars ≠ [] := by
  cases chars with
  | nil => simp [on]
  | cons char rest =>
    simp only [on]
    split
    next => simp
    next => split <;> simp

theorem length_on (separator : Char) (chars : List Char) :
    (on separator chars).length = chars.count separator + 1 := by
  induction chars with
  | nil => rfl
  | cons char rest ih =>
    simp only [on]
    split
    next heq => rw [List.length_cons, ih, heq, List.count_cons_self]
    next hne =>
      rw [List.count_cons_of_ne hne, ← ih]
      split
      next hnil => exact absurd hnil (on_ne_nil separator rest)
      next hparts => rw [hparts, List.length_cons, List.length_cons]

-- A part without the separator in it is cut off at the separator after it.
theorem on_append_cons (separator : Char) (part rest : List Char) (h : separator ∉ part) :
    on separator (part ++ separator :: rest) = part :: on separator rest := by
  induction part with
  | nil => simp [on]
  | cons char part ih =>
    simp only [List.mem_cons, not_or] at h
    simp only [List.cons_append, on, Ne.symm h.1, if_false, ih h.2]

theorem on_eq_singleton (separator : Char) (part : List Char) (h : separator ∉ part) :
    on separator part = [part] := by
  induction part with
  | nil => simp [on]
  | cons char part ih =>
    simp only [List.mem_cons, not_or] at h
    simp only [on, Ne.symm h.1, if_false, ih h.2]

end CallCensus.Split
