import CallCensus.Proofs.Text.Utf8
import CallCensus.Report.OutputFormat
import Mathlib.Algebra.Ring.Nat
import Mathlib.Data.List.Induction

namespace CallCensus

namespace Lines

-- A text in which nothing stands after the last newline.
def Ended (text : List Char) : Prop := ∀ last, text.getLast? = some last → last = '\n'

theorem ended_append_newline (text : List Char) : Ended (text ++ ['\n']) := by
  intro last hlast
  rw [List.getLast?_concat, Option.some.injEq] at hlast
  exact hlast.symm

theorem toList_unlines (lines : List String) :
    (unlines lines).toList = lines.flatMap fun line => line.toList ++ ['\n'] := by
  simp [unlines, String.toList_join, List.flatMap_map]

theorem ended_unlines (lines : List String) : Ended (unlines lines).toList := by
  rw [toList_unlines]
  cases lines using List.reverseRecOn with
  | nil => simp [Ended]
  | append_singleton lines line =>
      rw [List.flatMap_append, List.flatMap_singleton, ← List.append_assoc]
      exact ended_append_newline _

theorem count_eq_of_ended {text : List Char} (h : Ended text) : count text = text.count '\n' := by
  have hlast : text.getLast?.any (· ≠ '\n') = false := by
    cases hlast : text.getLast? with
    | none => rfl
    | some last => simp [h last hlast]
  rw [count, hlast]
  simp

-- Newlines that are written in lines make more lines of them.
theorem count_newline_unlines_eq_add (lines : List String) :
    (unlines lines).toList.count '\n' =
      lines.length + (lines.map (·.toList.count '\n')).sum := by
  rw [toList_unlines]
  induction lines with
  | nil => rfl
  | cons line lines ih =>
      have hend : ['\n'].count '\n' = 1 := rfl
      rw [List.flatMap_cons, List.count_append, List.count_append, ih, hend, List.map_cons,
        List.sum_cons, List.length_cons]
      omega

theorem count_newline_unlines {lines : List String} (h : ∀ line ∈ lines, '\n' ∉ line.toList) :
    (unlines lines).toList.count '\n' = lines.length := by
  have hnone : (lines.map (·.toList.count '\n')).sum = 0 := by
    apply List.sum_eq_zero_iff_forall_eq_nat.mpr
    intro count hcount
    obtain ⟨line, hline, rfl⟩ := List.mem_map.mp hcount
    exact List.count_eq_zero.mpr (h line hline)
  rw [count_newline_unlines_eq_add, hnone, Nat.add_zero]

-- There are as many lines as newlines that end them.
theorem length_of_ended? {text : List Char} {lines : List (List Char)} (h : ended? text = some lines) :
    lines.length = text.count '\n' := by
  simp only [ended?] at h
  split at h
  next =>
    rw [← Option.some.inj h, List.length_dropLast, Split.length_on, Nat.add_sub_cancel]
  next => cases h

end Lines

namespace OutputFormat

theorem ended_render (format : OutputFormat) (graph : CallGraph) :
    Lines.Ended (format.render graph).toList := by
  cases format with
  | csv => exact Lines.ended_unlines _
  | json =>
      rw [render, String.toList_append]
      exact Lines.ended_append_newline _
  | dot => exact Lines.ended_unlines _

-- The lines of a text are the newlines in the bytes that are written of it.
theorem count_render (format : OutputFormat) (graph : CallGraph) :
    Lines.count (format.render graph).toList =
      (Utf8.encode (format.render graph)).count 0x0A := by
  rw [Lines.count_eq_of_ended (ended_render format graph), Utf8.count_newline_encode]

end OutputFormat

end CallCensus
