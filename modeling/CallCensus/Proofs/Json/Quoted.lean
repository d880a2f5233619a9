import CallCensus.Json.Quoted
import CallCensus.Proofs.Text.Utf16

namespace CallCensus.Json.Quoted

theorem digit?_digitChar {digit : Nat} (h : digit < 16) : digit? (Nat.digitChar digit) = some digit := by
  have hall : ∀ digit < 16, digit? (Nat.digitChar digit) = some digit := by decide
  exact hall digit h

-- Four digits spell a code unit.
theorem units?_digits_append {value : Nat} (h : value < 0x10000) (rest : List Char) :
    units? ('\\' :: 'u' :: Hexadecimal.digits 4 value ++ rest) =
      (units? rest).map fun read => (value.toUInt16 :: read.1, read.2) := by
  have hvalue : ((value / 16 / 16 / 16 % 16 * 16 + value / 16 / 16 % 16) * 16 +
      value / 16 % 16) * 16 + value % 16 = value := by omega
  simp only [Hexadecimal.digits, List.nil_append, List.cons_append]
  rw [units?, unit?]
  simp only [digit?_digitChar (Nat.mod_lt _ (by decide)), Option.bind_eq_bind, Option.bind_some,
    Option.pure_def, hvalue]
  cases units? rest <;> rfl

-- A backslash and the character after it spell one character.
theorem units?_escaped {letter char : Char} (h : escaped? letter = some char) (rest : List Char) :
    units? ('\\' :: letter :: rest) =
      (units? rest).map fun read => (Utf16.ofChar char ++ read.1, read.2) := by
  have hne : letter ≠ 'u' := by
    rintro rfl
    simp [escaped?] at h
  rw [units?.eq_4 _ _ fun _ _ _ _ _ hletter _ => hne hletter, h]
  cases units? rest <;> rfl

-- All other characters stand for themselves.
theorem units?_plain {char : Char} (hquote : char ≠ '"') (hescape : char ≠ '\\')
    (hcontrol : ¬ char < ' ') (rest : List Char) :
    units? (char :: rest) =
      (units? rest).map fun read => (Utf16.ofChar char ++ read.1, read.2) := by
  rw [units?.eq_5 _ _ hquote (fun _ _ _ _ _ h _ => hescape h) (fun _ _ h _ => hescape h),
    if_neg (not_or.mpr ⟨hcontrol, hescape⟩)]
  cases units? rest <;> rfl

-- How a character is written: after a backslash, with a letter of its own or with four digits, or
-- as it is.
theorem escape_cases (char : Char) :
    (∃ letter, escaped? letter = some char ∧ escape char = ['\\', letter]) ∨
    (char < ' ' ∧ escape char = '\\' :: 'u' :: Hexadecimal.digits 4 char.toNat) ∨
    (char ≠ '"' ∧ char ≠ '\\' ∧ ¬ char < ' ' ∧ escape char = [char]) := by
  unfold escape
  split
  next h => exact .inl ⟨'"', congrArg some h.symm, rfl⟩
  next hquote =>
  split
  next h => exact .inl ⟨'\\', congrArg some h.symm, rfl⟩
  next hescape =>
  split
  next h => exact .inl ⟨'b', congrArg some h.symm, rfl⟩
  split
  next h => exact .inl ⟨'t', congrArg some h.symm, rfl⟩
  split
  next h => exact .inl ⟨'n', congrArg some h.symm, rfl⟩
  split
  next h => exact .inl ⟨'f', congrArg some h.symm, rfl⟩
  split
  next h => exact .inl ⟨'r', congrArg some h.symm, rfl⟩
  split
  next hcontrol => exact .inr (.inl ⟨hcontrol, rfl⟩)
  next hcontrol => exact .inr (.inr ⟨hquote, hescape, hcontrol, rfl⟩)

theorem units?_escape_append (char : Char) (rest : List Char) :
    units? (escape char ++ rest) =
      (units? rest).map fun read => (Utf16.ofChar char ++ read.1, read.2) := by
  rcases escape_cases char with ⟨letter, hletter, heq⟩ | ⟨hcontrol, heq⟩ |
    ⟨hquote, hescape, hcontrol, heq⟩
  · rw [heq]
    exact units?_escaped hletter rest
  · have hlt : char.toNat < 0x20 := hcontrol
    have hunit : Utf16.ofChar char = [char.toNat.toUInt16] :=
      if_pos (Nat.lt_trans hlt (by decide))
    rw [heq, hunit]
    exact units?_digits_append (Nat.lt_trans hlt (by decide)) rest
  · rw [heq]
    exact units?_plain hquote hescape hcontrol rest

theorem units?_flatMap_escape (text rest : List Char) :
    units? (text.flatMap escape ++ '"' :: rest) = some (Utf16.encode text, rest) := by
  induction text with
  | nil => rw [List.flatMap_nil, List.nil_append, units?, Utf16.encode, List.flatMap_nil]
  | cons char text ih =>
      rw [List.flatMap_cons, List.append_assoc, units?_escape_append, ih, Option.map_some,
        Utf16.encode, Utf16.encode, List.flatMap_cons]

-- What is written of a text is read as that text, and ends at its own closing quote.
theorem read?_flatMap_escape (text : String) (rest : List Char) :
    read? (text.toList.flatMap escape ++ '"' :: rest) = some (some text, rest) := by
  have htext : Utf16.decode? (Utf16.encode text.toList) = some text.toList :=
    Utf16.decode?_eq_some_iff.mpr rfl
  simp only [read?, units?_flatMap_escape, Option.bind_eq_bind, Option.bind_some, htext,
    Option.map_some, String.ofList_toList, Option.pure_def]

theorem toList_render_append (text : String) (rest : List Char) :
    (render text).toList ++ rest = '"' :: (text.toList.flatMap escape ++ '"' :: rest) := by
  simp [render]

theorem newline_notMem_digits (width value : Nat) : '\n' ∉ Hexadecimal.digits width value := by
  induction width generalizing value with
  | zero => exact List.not_mem_nil
  | succ width ih =>
      have hdigit : ∀ digit < 16, '\n' ≠ Nat.digitChar digit := by decide
      apply List.not_mem_append (ih _)
      exact mt List.mem_singleton.mp (hdigit _ (Nat.mod_lt _ (by decide)))

theorem newline_notMem_escape (char : Char) : '\n' ∉ escape char := by
  intro hmem
  rcases escape_cases char with ⟨letter, hletter, heq⟩ | ⟨-, heq⟩ | ⟨-, -, hcontrol, heq⟩
  · rw [heq, List.mem_cons, List.mem_singleton] at hmem
    rcases hmem with hmem | rfl
    · exact absurd hmem (by decide)
    · simp [escaped?] at hletter
  · rw [heq, List.mem_cons, List.mem_cons] at hmem
    rcases hmem with hmem | hmem | hmem
    · exact absurd hmem (by decide)
    · exact absurd hmem (by decide)
    · exact newline_notMem_digits 4 _ hmem
  · rw [heq, List.mem_singleton] at hmem
    exact hcontrol (hmem ▸ by decide)

-- Newlines in a text are escaped.
theorem newline_notMem_render (text : String) : '\n' ∉ (render text).toList := by
  intro hmem
  rw [render, String.toList_ofList, List.mem_append, List.mem_cons, List.mem_flatMap] at hmem
  rcases hmem with (hquote | ⟨char, -, hchar⟩) | hquote
  · exact absurd hquote (by decide)
  · exact newline_notMem_escape char hchar
  · exact absurd hquote (by decide)

end CallCensus.Json.Quoted
