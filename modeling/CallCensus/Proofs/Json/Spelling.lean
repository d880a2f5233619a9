import CallCensus.Json.Reader
import CallCensus.Proofs.Json.Quoted
import CallCensus.Text.Numerals
import Mathlib.Data.List.Forall2
import Mathlib.Data.List.TakeDrop
import Mathlib.Data.List.TakeWhile

namespace CallCensus

-- Only zero itself is written with a zero in front.
theorem Decimal.head?_digits_ne {value : Nat} (h : 0 < value) : (digits value).head? ≠ some '0' := by
  induction value using Nat.strongRecOn with
  | _ value ih =>
      by_cases hsmall : value < 10
      · have hdigit : ∀ digit < 10, 0 < digit → Nat.digitChar digit ≠ '0' := by decide
        rw [digits, Nat.toDigits_of_lt_base hsmall, List.head?_singleton, ne_eq, Option.some.injEq]
        exact hdigit value hsmall h
      · have hfront : 0 < value / 10 := by omega
        have hsplit := Nat.toDigits_append_toDigits (b := 10) (by decide) hfront
          (Nat.mod_lt value (by decide))
        rw [Nat.div_add_mod] at hsplit
        rw [digits, ← hsplit, List.head?_append_of_ne_nil _ Nat.toDigits_ne_nil]
        exact ih (value / 10) (by omega) hfront

namespace Json

-- What may follow a number without being taken for a part of it.
def Ends (rest : List Char) : Prop :=
  ∀ char, rest.head? = some char → ¬ char.isDigit ∧ char ≠ '.' ∧ char ≠ 'e' ∧ char ≠ 'E'

-- A text on one line that is read as a value, whatever follows it.
structure Spells (text : List Char) (value : Value) : Prop where
  starts : ∃ first rest, text = first :: rest ∧ ¬ isBlank first ∧ first ≠ ']'
  line : '\n' ∉ text
  reads : ∀ {fuel : Nat} {rest : List Char}, 2 * text.length ≤ fuel → Ends rest →
    value? fuel (text ++ rest) = some (value, rest)

theorem Spells.length_pos {text : List Char} {value : Value} (h : Spells text value) :
    0 < text.length := by
  obtain ⟨first, rest, rfl, -⟩ := h.starts
  exact Nat.succ_pos _

theorem ends_cons {char : Char} (h : ¬ char.isDigit ∧ char ≠ '.' ∧ char ≠ 'e' ∧ char ≠ 'E')
    (rest : List Char) : Ends (char :: rest) := by
  intro other hother
  rw [List.head?_cons, Option.some.injEq] at hother
  exact hother ▸ h

theorem skipBlanks_cons {char : Char} (h : ¬ isBlank char) (rest : List Char) :
    skipBlanks (char :: rest) = char :: rest :=
  List.dropWhile_cons_of_neg h

section Numbers

theorem digits?_digits_append (value : Nat) {rest : List Char} (h : Ends rest) :
    digits? (Decimal.digits value ++ rest) = some (Decimal.digits value, rest) := by
  have hstop : rest.takeWhile Char.isDigit = [] ∧ rest.dropWhile Char.isDigit = rest := by
    cases rest with
    | nil => exact ⟨rfl, rfl⟩
    | cons char rest => simp [(h char rfl).1]
  have hdigit (char : Char) (hmem : char ∈ Decimal.digits value) : char.isDigit :=
    Decimal.isDigit_of_mem_digits hmem
  have htake : (Decimal.digits value ++ rest).takeWhile Char.isDigit = Decimal.digits value := by
    rw [List.takeWhile_append_of_pos hdigit, hstop.1, List.append_nil]
  have hdrop : (Decimal.digits value ++ rest).dropWhile Char.isDigit = rest := by
    rw [List.dropWhile_append_of_pos hdigit, hstop.2]
  rw [digits?, List.span_eq_takeWhile_dropWhile, htake, hdrop]
  cases hdigits : Decimal.digits value with
  | nil => exact absurd hdigits (Decimal.digits_ne_nil value)
  | cons first others => rfl

theorem whole?_digits_append (value : Nat) {rest : List Char} (h : Ends rest) :
    whole? (Decimal.digits value ++ rest) = some (Decimal.digits value, rest) := by
  have hzero : ¬ ((Decimal.digits value).head? = some '0' ∧ Decimal.digits value ≠ ['0']) := by
    rintro ⟨hhead, hne⟩
    cases value with
    | zero => exact hne rfl
    | succ value => exact Decimal.head?_digits_ne (Nat.succ_pos value) hhead
  simp only [whole?, digits?_digits_append value h, Option.bind_eq_bind, Option.bind_some,
    if_neg hzero]

theorem fraction?_of_ends {rest : List Char} (h : Ends rest) : fraction? rest = some ([], rest) := by
  cases rest with
  | nil => rfl
  | cons char rest => exact fraction?.eq_2 _ fun _ heq => (h char rfl).2.1 (List.cons.inj heq).1

theorem exponent?_of_ends {rest : List Char} (h : Ends rest) : exponent? rest = some ([], rest) := by
  cases rest with
  | nil => rfl
  | cons char rest => exact if_neg (not_or.mpr (h char rfl).2.2)

theorem literal?_digits_append (value : Nat) {rest : List Char} (h : Ends rest) :
    literal? (Decimal.digits value ++ rest) = some (Decimal.digits value, rest) := by
  have hwhole := whole?_digits_append value h
  unfold literal?
  split
  rename_i sign others hsplit
  split at hsplit
  · rename_i others' hminus
    have hmem : '-' ∈ Decimal.digits value := by
      obtain ⟨first, digits, hdigits⟩ := List.exists_cons_of_ne_nil (Decimal.digits_ne_nil value)
      rw [hdigits, List.cons_append, List.cons.injEq] at hminus
      rw [hdigits, hminus.1]
      exact List.mem_cons_self
    exact absurd (Decimal.isDigit_of_mem_digits hmem) (by decide)
  · cases hsplit
    simp only [hwhole, fraction?_of_ends h, exponent?_of_ends h, Option.bind_eq_bind,
      Option.bind_some, Option.pure_def, List.nil_append, List.append_nil]

theorem value?_of_isDigit {first : Char} (h : first.isDigit) (fuel : Nat) (rest : List Char) :
    value? (fuel + 1) (first :: rest) =
      (literal? (first :: rest)).map fun read => (.number read.1, read.2) := by
  have hne (char : Char) (hchar : ¬ char.isDigit) : first ≠ char := fun heq => hchar (heq ▸ h)
  have hblank : ¬ isBlank first := by
    simp [isBlank, hne]
  rw [value?, skipBlanks_cons hblank]
  split
  next heq => exact absurd (List.cons.inj heq).1 (hne _ (by decide))
  next heq => exact absurd (List.cons.inj heq).1 (hne _ (by decide))
  next heq => exact absurd (List.cons.inj heq).1 (hne _ (by decide))
  next heq => exact absurd (List.cons.inj heq).1 (hne _ (by decide))
  next heq => exact absurd (List.cons.inj heq).1 (hne _ (by decide))
  next heq => exact absurd (List.cons.inj heq).1 (hne _ (by decide))
  next => cases literal? (first :: rest) <;> rfl

theorem spells_number (value : Nat) :
    Spells (Decimal.digits value) (.number (Decimal.digits value)) := by
  obtain ⟨first, others, hdigits⟩ := List.exists_cons_of_ne_nil (Decimal.digits_ne_nil value)
  have hfirst : first.isDigit := Decimal.isDigit_of_mem_digits (hdigits ▸ List.mem_cons_self)
  have hne (char : Char) (hchar : ¬ char.isDigit) : first ≠ char := fun heq => hchar (heq ▸ hfirst)
  refine ⟨⟨first, others, hdigits, ?_, hne _ (by decide)⟩, ?_, ?_⟩
  · simp [isBlank, hne]
  · exact fun hmem => absurd (Decimal.isDigit_of_mem_digits hmem) (by decide)
  · intro fuel rest hfuel hends
    obtain ⟨fuel, rfl⟩ : ∃ before, fuel = before + 1 := by
      rw [hdigits, List.length_cons] at hfuel
      exact ⟨fuel - 1, by omega⟩
    have hliteral := literal?_digits_append value hends
    rw [hdigits, List.cons_append] at hliteral ⊢
    rw [value?_of_isDigit hfirst, hliteral, Option.map_some]

end Numbers

theorem spells_string (text : String) :
    Spells (Quoted.render text).toList (.string (some text)) := by
  refine ⟨⟨'"', text.toList.flatMap Quoted.escape ++ ['"'], ?_, by decide, by decide⟩,
    Quoted.newline_notMem_render text, ?_⟩
  · simp [Quoted.render]
  · intro fuel rest hfuel _
    obtain ⟨fuel, rfl⟩ : ∃ before, fuel = before + 1 := by
      simp only [Quoted.render, String.toList_ofList, List.length_append, List.length_cons] at hfuel
      exact ⟨fuel - 1, by omega⟩
    rw [Quoted.toList_render_append, value?, skipBlanks_cons (by decide)]
    simp only [Quoted.read?_flatMap_escape, Option.bind_eq_bind, Option.bind_some, Option.pure_def]

section Containers

-- A member of an object: its name, a colon, and its value.
def SpellsMember (text : List Char) (member : Option String × Value) : Prop :=
  ∃ name body, text = (Quoted.render name).toList ++ ':' :: body ∧ member.1 = some name ∧
    Spells body member.2

-- Texts with commas between them.
def joined (texts : List (List Char)) : List Char := [','].intercalate texts

theorem joined_cons_cons (first second : List Char) (texts : List (List Char)) :
    joined (first :: second :: texts) = first ++ ',' :: joined (second :: texts) := by
  rw [joined, List.intercalate_cons_cons, List.append_assoc, List.singleton_append, joined]

theorem joined_singleton (text : List Char) : joined [text] = text := by simp [joined]

theorem exists_succ {needed fuel : Nat} (h : needed + 1 ≤ fuel) :
    ∃ before, fuel = before + 1 ∧ needed ≤ before :=
  ⟨fuel - 1, by omega, by omega⟩

theorem items?_joined {text : List Char} {value : Value} {texts : List (List Char)}
    {values : List Value} (h : Spells text value) (hrest : List.Forall₂ Spells texts values)
    {fuel : Nat} (hfuel : 2 * (joined (text :: texts)).length + 1 ≤ fuel) (rest : List Char) :
    items? fuel (joined (text :: texts) ++ ']' :: rest) = some (value :: values, rest) := by
  obtain ⟨before, rfl, hbefore⟩ := exists_succ hfuel
  clear hfuel
  induction hrest generalizing text value before with
  | nil =>
      have hclose : skipBlanks (']' :: rest) = ']' :: rest := skipBlanks_cons (by decide) rest
      rw [joined_singleton] at hbefore ⊢
      rw [items?, h.reads hbefore (ends_cons (by decide) rest)]
      simp only [Option.bind_eq_bind, Option.bind_some, hclose, Option.pure_def]
  | @cons second value' texts values hsecond _ ih =>
      have hpos := h.length_pos
      rw [joined_cons_cons] at hbefore ⊢
      rw [List.length_append, List.length_cons] at hbefore
      have hneeded : 2 * (joined (second :: texts)).length + 1 ≤ before := by omega
      obtain ⟨fuel, rfl, hfuel⟩ := exists_succ hneeded
      rw [List.append_assoc, List.cons_append]
      generalize hlater : joined (second :: texts) ++ ']' :: rest = later
      have hcomma : skipBlanks (',' :: later) = ',' :: later := skipBlanks_cons (by decide) later
      have hitems := ih hsecond fuel hfuel
      rw [hlater] at hitems
      rw [items?, h.reads (by omega) (ends_cons (by decide) later)]
      simp only [Option.bind_eq_bind, Option.bind_some, hcomma, hitems, Option.pure_def]

theorem name?_render_append (name : String) (rest : List Char) :
    name? ((Quoted.render name).toList ++ ':' :: rest) = some (some name, rest) := by
  have hcolon : skipBlanks (':' :: rest) = ':' :: rest := skipBlanks_cons (by decide) rest
  rw [Quoted.toList_render_append, name?, skipBlanks_cons (by decide)]
  simp only [Quoted.read?_flatMap_escape, Option.bind_eq_bind, Option.bind_some, hcolon,
    Option.pure_def]

theorem members?_joined {text : List Char} {member : Option String × Value}
    {texts : List (List Char)} {members : List (Option String × Value)}
    (h : SpellsMember text member) (hrest : List.Forall₂ SpellsMember texts members)
    {fuel : Nat} (hfuel : 2 * (joined (text :: texts)).length + 1 ≤ fuel) (rest : List Char) :
    members? fuel (joined (text :: texts) ++ '}' :: rest) = some (member :: members, rest) := by
  obtain ⟨before, rfl, hbefore⟩ := exists_succ hfuel
  clear hfuel
  induction hrest generalizing text member before with
  | nil =>
      obtain ⟨name, body, rfl, hname, hbody⟩ := h
      have hclose : skipBlanks ('}' :: rest) = '}' :: rest := skipBlanks_cons (by decide) rest
      rw [joined_singleton] at hbefore ⊢
      rw [List.length_append, List.length_cons] at hbefore
      have hends : Ends ('}' :: rest) := ends_cons (by decide) rest
      have hvalue := hbody.reads (by omega : 2 * body.length ≤ before) hends
      rw [List.append_assoc, List.cons_append, members?, name?_render_append]
      simp only [Option.bind_eq_bind, Option.bind_some, hvalue, hclose, Option.pure_def, ← hname]
  | @cons second member' texts members hsecond _ ih =>
      obtain ⟨name, body, rfl, hname, hbody⟩ := h
      have hpos := hbody.length_pos
      rw [joined_cons_cons] at hbefore ⊢
      simp only [List.length_append, List.length_cons] at hbefore
      have hneeded : 2 * (joined (second :: texts)).length + 1 ≤ before := by omega
      obtain ⟨fuel, rfl, hfuel⟩ := exists_succ hneeded
      rw [List.append_assoc, List.append_assoc, List.cons_append, List.cons_append]
      generalize hlater : joined (second :: texts) ++ '}' :: rest = later
      have hcomma : skipBlanks (',' :: later) = ',' :: later := skipBlanks_cons (by decide) later
      have hmembers := ih hsecond fuel hfuel
      rw [hlater] at hmembers
      have hends : Ends (',' :: later) := ends_cons (by decide) later
      have hvalue := hbody.reads (by omega : 2 * body.length ≤ fuel + 1) hends
      rw [members?, name?_render_append]
      simp only [Option.bind_eq_bind, Option.bind_some, hvalue, hcomma, hmembers, Option.pure_def,
        ← hname]

-- Neither the texts that are brought together by brackets nor the brackets have newlines.
theorem newline_notMem_enclosed {α : Type} {R : List Char → α → Prop} {first last : Char}
    (hfirst : '\n' ≠ first) (hlast : '\n' ≠ last)
    (hline : ∀ text value, R text value → '\n' ∉ text) {texts : List (List Char)} {values : List α}
    (h : List.Forall₂ R texts values) : '\n' ∉ first :: (joined texts ++ [last]) := by
  have hjoined : '\n' ∉ joined texts := by
    induction h with
    | nil => exact List.not_mem_nil
    | cons htext hrest ih =>
        cases hrest with
        | nil => exact joined_singleton _ ▸ hline _ _ htext
        | cons =>
            rw [joined_cons_cons]
            exact List.not_mem_append (hline _ _ htext)
              (List.not_mem_cons_of_ne_of_not_mem (by decide) ih)
  exact List.not_mem_cons_of_ne_of_not_mem hfirst
    (List.not_mem_append hjoined (mt List.mem_singleton.mp hlast))

theorem SpellsMember.line {text : List Char} {member : Option String × Value}
    (h : SpellsMember text member) : '\n' ∉ text := by
  obtain ⟨name, body, rfl, -, hbody⟩ := h
  exact List.not_mem_append (Quoted.newline_notMem_render name)
    (List.not_mem_cons_of_ne_of_not_mem (by decide) hbody.line)

theorem SpellsMember.starts {text : List Char} {member : Option String × Value}
    (h : SpellsMember text member) : ∃ rest, text = '"' :: rest := by
  obtain ⟨name, body, rfl, -, -⟩ := h
  exact ⟨_, Quoted.toList_render_append name (':' :: body)⟩

theorem joined_cons_starts (text : List Char) (texts : List (List Char)) :
    ∃ rest, joined (text :: texts) = text ++ rest := by
  cases texts with
  | nil => exact ⟨[], by rw [joined_singleton, List.append_nil]⟩
  | cons second texts => exact ⟨_, joined_cons_cons text second texts⟩

theorem spells_array {texts : List (List Char)} {values : List Value}
    (h : List.Forall₂ Spells texts values) :
    Spells ('[' :: (joined texts ++ [']'])) (.array values) := by
  refine ⟨⟨'[', _, rfl, by decide, by decide⟩,
    newline_notMem_enclosed (by decide) (by decide) (fun _ _ htext => htext.line) h, ?_⟩
  intro fuel rest hfuel _
  rw [List.length_cons, List.length_append, List.length_singleton] at hfuel
  obtain ⟨fuel, rfl, hless⟩ := exists_succ (show 2 * (joined texts).length + 1 + 1 ≤ fuel by omega)
  rw [List.cons_append, List.append_assoc, List.singleton_append, value?,
    skipBlanks_cons (by decide)]
  cases h with
  | nil =>
      have hclose : skipBlanks (']' :: rest) = ']' :: rest := skipBlanks_cons (by decide) rest
      simp only [joined, List.intercalate_nil, List.nil_append, hclose]
  | @cons text value texts values hvalue hrest =>
      have hitems := items?_joined hvalue hrest hless rest
      obtain ⟨first, others, rfl, hblank, hclose⟩ := hvalue.starts
      obtain ⟨later, hlater⟩ := joined_cons_starts (first :: others) texts
      rw [hlater, List.cons_append, List.cons_append] at hitems ⊢
      simp only [skipBlanks_cons hblank]
      split
      · rename_i heq
        exact absurd (List.cons.inj heq).1 hclose
      · simp only [hitems, Option.bind_eq_bind, Option.bind_some, Option.pure_def]

theorem spells_object {text : List Char} {member : Option String × Value}
    {texts : List (List Char)} {members : List (Option String × Value)}
    (h : SpellsMember text member) (hrest : List.Forall₂ SpellsMember texts members) :
    Spells ('{' :: (joined (text :: texts) ++ ['}'])) (.object (member :: members)) := by
  refine ⟨⟨'{', _, rfl, by decide, by decide⟩,
    newline_notMem_enclosed (by decide) (by decide) (fun _ _ htext => htext.line) (.cons h hrest), ?_⟩
  intro fuel rest hfuel _
  rw [List.length_cons, List.length_append, List.length_singleton] at hfuel
  obtain ⟨fuel, rfl, hless⟩ := exists_succ
    (show 2 * (joined (text :: texts)).length + 1 + 1 ≤ fuel by omega)
  have hmembers := members?_joined h hrest hless rest
  obtain ⟨others, rfl⟩ := h.starts
  obtain ⟨later, hlater⟩ := joined_cons_starts ('"' :: others) texts
  rw [List.cons_append, List.append_assoc, List.singleton_append, value?,
    skipBlanks_cons (by decide)]
  rw [hlater, List.cons_append, List.cons_append] at hmembers ⊢
  simp only [skipBlanks_cons (show ¬ isBlank '"' by decide)]
  split
  · rename_i heq
    exact absurd (List.cons.inj heq).1 (by decide)
  · simp only [hmembers, Option.bind_eq_bind, Option.bind_some, Option.pure_def]

end Containers

theorem ends_of_blank {rest : List Char} (h : ∀ char ∈ rest, isBlank char) : Ends rest := by
  intro char hhead
  have hblank := h char (List.mem_of_head? hhead)
  simp only [isBlank, Bool.or_eq_true, decide_eq_true_eq] at hblank
  rcases hblank with ((rfl | rfl) | rfl) | rfl <;> decide

-- A text that spells a value is read as that value, also with blanks after it.
theorem parse?_append_of_spells {text : List Char} {value : Value} (h : Spells text value)
    {rest : List Char} (hrest : ∀ char ∈ rest, isBlank char) :
    Value.parse? (text ++ rest) = some value := by
  have hskip : skipBlanks rest = [] := List.dropWhile_eq_nil_iff.mpr hrest
  have hfuel : 2 * text.length ≤ 2 * (text ++ rest).length + 2 := by
    rw [List.length_append]
    omega
  rw [Value.parse?, h.reads hfuel (ends_of_blank hrest)]
  simp only [Option.bind_eq_bind, Option.bind_some, hskip, if_true]

end Json

end CallCensus
