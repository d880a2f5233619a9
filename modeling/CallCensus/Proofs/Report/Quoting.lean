import CallCensus.Report.Dot
import Mathlib.Data.List.Basic

namespace CallCensus.Dot

section Escapes

-- Puts a text in place of each occurrence of a character.
def replaced (char : Char) (replacement text : List Char) : List Char :=
  text.flatMap fun other => if other = char then replacement else [other]

-- The escapes can be put in one after the other, first those for backslashes, which are part of
-- all others.
theorem flatMap_escape_eq_replaced (text : List Char) :
    text.flatMap escape =
      replaced '\n' ['\\', 'n'] (replaced '"' ['\\', '"'] (replaced '\\' ['\\', '\\'] text)) := by
  simp only [replaced, List.flatMap_assoc]
  congr 1
  funext char
  by_cases hbackslash : char = '\\'
  · subst hbackslash
    rfl
  by_cases hquote : char = '"'
  · subst hquote
    rfl
  simp [escape, hbackslash, hquote]

theorem escape_of_ne {char : Char} (hbackslash : char ≠ '\\') (hquote : char ≠ '"')
    (hnewline : char ≠ '\n') : escape char = [char] := by
  simp [escape, hbackslash, hquote, hnewline]

theorem flatMap_escape_digits (value : Nat) :
    (Decimal.digits value).flatMap escape = Decimal.digits value := by
  have hescape (char : Char) (hmem : char ∈ Decimal.digits value) : escape char = [char] := by
    have hne {other : Char} (hother : ¬ other.isDigit) : char ≠ other :=
      fun h => hother (h ▸ Decimal.isDigit_of_mem_digits hmem)
    exact escape_of_ne (hne (by decide)) (hne (by decide)) (hne (by decide))
  rw [List.flatMap_congr hescape, List.flatMap_singleton']

theorem newline_notMem_escape (char : Char) : '\n' ∉ escape char := by
  unfold escape
  split
  next => decide
  split
  next => decide
  split
  next => decide
  next hnewline => exact mt List.mem_singleton.mp (Ne.symm hnewline)

theorem unquote_escape_append (char : Char) (rest : List Char) :
    unquote (escape char ++ rest) = (unquote rest).map fun read => (char :: read.1, read.2) := by
  by_cases hbackslash : char = '\\'
  · subst hbackslash
    cases h : unquote rest <;> simp [escape, unquote, h]
  by_cases hquote : char = '"'
  · subst hquote
    cases h : unquote rest <;> simp [escape, unquote, h]
  by_cases hnewline : char = '\n'
  · subst hnewline
    cases h : unquote rest <;> simp [escape, unquote, h]
  rw [escape_of_ne hbackslash hquote hnewline, List.singleton_append,
    unquote.eq_7 _ _ hquote fun _ _ h _ => hbackslash h]
  cases unquote rest <;> rfl

-- An escaped text is read as the text it was made from, up to its own closing quote.
theorem unquote_flatMap_escape (text rest : List Char) :
    unquote (text.flatMap escape ++ '"' :: rest) = some (text, rest) := by
  induction text with
  | nil => rw [List.flatMap_nil, List.nil_append, unquote]
  | cons char text ih =>
      rw [List.flatMap_cons, List.append_assoc, unquote_escape_append, ih]
      rfl

-- What is read ends with a quote.
theorem eq_append_of_unquote {chars text rest : List Char} (h : unquote chars = some (text, rest)) :
    ∃ spelled, chars = spelled ++ '"' :: rest := by
  induction chars using unquote.induct generalizing text with
  | case1 => cases h
  | case2 tail =>
      rw [unquote, Option.some.injEq, Prod.mk.injEq] at h
      exact ⟨[], by rw [h.2, List.nil_append]⟩
  | case3 tail ih | case4 tail ih | case5 tail ih =>
      simp only [unquote, Option.bind_eq_bind, Option.bind_some, Option.bind_eq_some_iff,
        Option.pure_def, Option.some.injEq, Prod.mk.injEq] at h
      obtain ⟨⟨_, _⟩, hread, -, rfl⟩ := h
      obtain ⟨spelled, rfl⟩ := ih hread
      exact ⟨_ :: _ :: spelled, rfl⟩
  | case6 char tail hbackslash hquote hletter ih =>
      rw [unquote.eq_6 _ _ hbackslash hquote hletter] at h
      cases h
  | case7 char tail hquote hbackslash ih =>
      rw [unquote.eq_7 _ _ hquote hbackslash, Option.bind_eq_bind, Option.bind_eq_some_iff] at h
      obtain ⟨⟨_, _⟩, hread, h⟩ := h
      cases h
      obtain ⟨spelled, rfl⟩ := ih hread
      exact ⟨char :: spelled, rfl⟩

end Escapes

section Quotes

-- The quoted texts that are found anywhere, each read up to the quote that closes it.
def quotedTexts? : List Char → Option (List (List Char))
  | [] => some []
  | '"' :: chars =>
    match _h : unquote chars with
    | some (text, rest) => (quotedTexts? rest).map (text :: ·)
    | none => none
  | _ :: chars => quotedTexts? chars
termination_by chars => chars.length
decreasing_by
  · obtain ⟨spelled, rfl⟩ := eq_append_of_unquote _h
    simp only [List.length_cons, List.length_append]
    omega
  · simp

-- A text in which these texts are quoted, whatever follows it.
def Quotes (chars : List Char) (texts : List String) : Prop :=
  ∀ rest, quotedTexts? (chars ++ rest) = (quotedTexts? rest).map (texts.map String.toList ++ ·)

theorem Quotes.append {first second : List Char} {texts others : List String}
    (hfirst : Quotes first texts) (hsecond : Quotes second others) :
    Quotes (first ++ second) (texts ++ others) := by
  intro rest
  rw [List.append_assoc, hfirst, hsecond, Option.map_map]
  simp [Function.comp_def]

theorem Quotes.flatMap {α : Type} {chars : α → List Char} {texts : α → List String}
    (h : ∀ item, Quotes (chars item) (texts item)) (items : List α) :
    Quotes (items.flatMap chars) (items.flatMap texts) := by
  induction items with
  | nil => exact fun rest => by simp
  | cons item items ih => exact (h item).append ih

theorem quotes_of_notMem {chars : List Char} (h : '"' ∉ chars) : Quotes chars [] := by
  intro rest
  induction chars with
  | nil => simp
  | cons char chars ih =>
      rw [List.mem_cons, not_or] at h
      rw [List.cons_append, quotedTexts?]
      · exact ih h.2
      · exact fun hquote => h.1 hquote.symm

-- A text between quotes.
def quote (text : String) : List Char := '"' :: (text.toList.flatMap escape ++ ['"'])

theorem quotes_quote (text : String) : Quotes (quote text) [text] := by
  intro rest
  simp only [quote, List.cons_append, List.append_assoc, List.nil_append]
  rw [quotedTexts?, unquote_flatMap_escape]
  rfl

theorem Quotes.cons {front rest : List Char} {texts : List String} (text : String)
    (hfront : '"' ∉ front) (hrest : Quotes rest texts) :
    Quotes (front ++ quote text ++ rest) (text :: texts) :=
  ((quotes_of_notMem hfront).append (quotes_quote text)).append hrest

theorem Quotes.line {line : List Char} {texts : List String} (h : Quotes line texts) :
    Quotes (line ++ ['\n']) texts := by
  have hnewline : Quotes ['\n'] [] := quotes_of_notMem (by decide)
  have happend := h.append hnewline
  rwa [List.append_nil] at happend

theorem newline_notMem_quote (text : String) : '\n' ∉ quote text := by
  intro hmem
  rw [quote, List.mem_cons, List.mem_append, List.mem_flatMap, List.mem_singleton] at hmem
  rcases hmem with hquote | ⟨char, -, hchar⟩ | hquote
  · exact absurd hquote (by decide)
  · exact newline_notMem_escape char hchar
  · exact absurd hquote (by decide)

end Quotes

end CallCensus.Dot
