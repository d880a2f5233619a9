import CallCensus.ClassName

namespace CallCensus

-- Each class stands once, in the order of names, so that the same counts are always the same data.
structure CallCounts where
  entries : List (String × UInt64)
  sorted : entries.Pairwise fun a b => a.1 < b.1
  deriving DecidableEq, Repr

namespace CallCounts

def empty : CallCounts := ⟨[], .nil⟩

-- Counts `amount` more calls of a class. Counts are numbers modulo 2^64.
def addEntry (callee : String) (amount : UInt64) : List (String × UInt64) → List (String × UInt64)
  | [] => [(callee, amount)]
  | entry :: rest =>
    if callee < entry.1 then (callee, amount) :: entry :: rest
    else if callee = entry.1 then (callee, entry.2 + amount) :: rest
    else entry :: addEntry callee amount rest

theorem mem_keys_addEntry {callee key : String} {amount : UInt64}
    {entries : List (String × UInt64)} :
    key ∈ (addEntry callee amount entries).map (·.1) ↔
      key = callee ∨ key ∈ entries.map (·.1) := by
  induction entries with
  | nil => simp [addEntry]
  | cons entry rest ih =>
    simp only [addEntry]
    split
    next => simp
    next =>
      split
      next heq => simp [heq]
      next =>
        rw [List.map_cons, List.mem_cons, ih, List.map_cons, List.mem_cons, or_left_comm]

theorem pairwise_addEntry {callee : String} {amount : UInt64} {entries : List (String × UInt64)}
    (h : entries.Pairwise fun a b => a.1 < b.1) :
    (addEntry callee amount entries).Pairwise fun a b => a.1 < b.1 := by
  induction entries with
  | nil => simp [addEntry]
  | cons entry rest ih =>
    obtain ⟨hfirst, hrest⟩ := List.pairwise_cons.mp h
    simp only [addEntry]
    split
    next hlt =>
      refine List.pairwise_cons.mpr ⟨fun other hmem => ?_, h⟩
      cases List.mem_cons.mp hmem with
      | inl heq => exact heq ▸ hlt
      | inr hmem => exact String.lt_trans hlt (hfirst other hmem)
    next hnlt =>
      split
      next heq => exact List.pairwise_cons.mpr ⟨fun other hmem => heq ▸ hfirst other hmem, hrest⟩
      next hne =>
        refine List.pairwise_cons.mpr ⟨fun other hmem => ?_, ih hrest⟩
        have hkey := mem_keys_addEntry.mp (List.mem_map_of_mem hmem)
        cases hkey with
        | inl heq =>
          rw [heq]
          exact Std.lt_of_le_of_ne (String.not_lt.mp hnlt) (Ne.symm hne)
        | inr hkey =>
          obtain ⟨entry', hmem', heq⟩ := List.mem_map.mp hkey
          exact heq ▸ hfirst entry' hmem'

def add (counts : CallCounts) (callee : String) (amount : UInt64) : CallCounts :=
  ⟨addEntry callee amount counts.entries, pairwise_addEntry counts.sorted⟩

def count (counts : CallCounts) (callee : String) : UInt64 :=
  (counts.entries.lookup callee).getD 0

end CallCounts

structure CallRecord where
  caller : String
  outbound : CallCounts
  -- The number of calls into this class, once it is known.
  inbound : UInt64
  deriving DecidableEq, Repr

namespace CallRecord

def ofCaller (caller : String) : CallRecord := ⟨ClassName.topLevel caller, .empty, 0⟩

def observe (record : CallRecord) (callee : String) : CallRecord :=
  { record with outbound := record.outbound.add (ClassName.topLevel callee) 1 }

def observeAll (record : CallRecord) (callees : List String) : CallRecord :=
  callees.foldl observe record

def callsTo (record : CallRecord) (callee : String) : UInt64 := record.outbound.count callee

end CallRecord

end CallCensus
