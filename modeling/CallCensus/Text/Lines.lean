import CallCensus.Text.Split

namespace CallCensus.Lines

-- The number of lines. What stands after the last newline is a line unless it is empty.
def count (text : List Char) : Nat :=
  text.count '\n' + if text.getLast?.any (· ≠ '\n') then 1 else 0

def unlines (lines : List String) : String :=
  String.join (lines.map fun line => line ++ "\n")

def ended? (text : List Char) : Option (List (List Char)) :=
  let parts := Split.on '\n' text
  if parts.getLast? = some [] then some parts.dropLast else none

theorem ended?_append {line rest : List Char} {lines : List (List Char)} (hline : '\n' ∉ line)
    (h : ended? rest = some lines) : ended? (line ++ '\n' :: rest) = some (line :: lines) := by
  have hne := Split.on_ne_nil '\n' rest
  simp only [ended?] at h
  split at h
  next hlast =>
    cases h
    simp only [ended?, Split.on_append_cons '\n' line rest hline]
    rw [List.getLast?_cons_of_ne_nil hne, if_pos hlast, List.dropLast_cons_of_ne_nil hne]
  next => cases h

-- Lines that hold no newline can be told apart again.
theorem ended?_unlines {lines : List String} (h : ∀ line ∈ lines, '\n' ∉ line.toList) :
    ended? (unlines lines).toList = some (lines.map String.toList) := by
  induction lines with
  | nil => simp [ended?, unlines, Split.on]
  | cons line lines ih =>
    have hrest := ih fun other hmem => h other (List.mem_cons_of_mem _ hmem)
    have happend : (unlines (line :: lines)).toList =
        line.toList ++ '\n' :: (unlines lines).toList := by
      simp [unlines, String.toList_join]
    rw [happend, List.map_cons]
    exact ended?_append (h line (by simp)) hrest

end CallCensus.Lines
