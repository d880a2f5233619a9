import CallCensus.Proofs.Census.Aggregation
import CallCensus.Proofs.Census.Decoding
import CallCensus.Proofs.ClassFile.Grammar

namespace CallCensus

open Bytecode

-- A class file with its name, its instructions, and the pool that they are looked up in.
structure ResolvedClass where
  file : ClassFile
  pool : ConstantPool
  name : String
  instructions : List Instruction
  resolves : file.Resolves pool name instructions

-- The top-level class, in source form, of a class that is named in a class file.
def foldedName (name : String) : String := ClassName.topLevel (ClassName.sourceForm name)

namespace ResolvedClass

def caller (entry : ResolvedClass) : String := foldedName entry.name

-- Whether an instruction calls a method of a class, or of one that is nested in it.
def Calls (entry : ResolvedClass) (callee : String) (instruction : Instruction) : Prop :=
  ∃ index owner, instruction.reference? = some index ∧ entry.pool.IsOwner index owner ∧
    foldedName owner = callee

def ownerAt? (pool : ConstantPool) (index : UInt16) : Option String :=
  (pool.methodOwner index).toOption

def owner? (entry : ResolvedClass) (instruction : Instruction) : Option String :=
  instruction.reference?.bind (ownerAt? entry.pool)

theorem ownerAt?_eq_some_iff {pool : ConstantPool} {index : UInt16} {owner : String} :
    ownerAt? pool index = some owner ↔ pool.IsOwner index owner := by
  rw [← pool.methodOwner_eq_ok_iff, ownerAt?]
  cases pool.methodOwner index <;> simp [Except.toOption]

theorem calls_iff {entry : ResolvedClass} {callee : String} {instruction : Instruction} :
    entry.Calls callee instruction ↔ (entry.owner? instruction).map foldedName = some callee := by
  simp only [Calls, owner?, Option.map_eq_some_iff, Option.bind_eq_some_iff, ownerAt?_eq_some_iff]
  constructor
  · rintro ⟨index, owner, hindex, howner, hcallee⟩
    exact ⟨owner, ⟨index, hindex, howner⟩, hcallee⟩
  · rintro ⟨owner, ⟨index, hindex, howner⟩, hcallee⟩
    exact ⟨index, owner, hindex, howner, hcallee⟩

instance (entry : ResolvedClass) (callee : String) : DecidablePred (entry.Calls callee) :=
  fun _ => decidable_of_iff _ calls_iff.symm

-- The number of instructions that call methods of a class.
def callsTo (entry : ResolvedClass) (callee : String) : Nat :=
  entry.instructions.countP fun instruction => entry.Calls callee instruction

def callsBetween (classes : List ResolvedClass) (caller callee : String) : Nat :=
  ((classes.filter (·.caller = caller)).map (·.callsTo callee)).sum

def callsInto (classes : List ResolvedClass) (callee : String) : Nat :=
  (classes.map (·.callsTo callee)).sum

-- The class as it is decoded.
def decoded (entry : ResolvedClass) : DecodedClass :=
  ⟨ClassName.sourceForm entry.name,
    (entry.instructions.filterMap entry.owner?).map ClassName.sourceForm⟩

theorem forall₂_owners {pool : ConstantPool} {indices : List UInt16}
    (h : ∀ index ∈ indices, ∃ owner, pool.IsOwner index owner) :
    List.Forall₂ pool.IsOwner indices (indices.filterMap (ownerAt? pool)) := by
  induction indices with
  | nil => exact .nil
  | cons index indices ih =>
      obtain ⟨⟨owner, howner⟩, hrest⟩ := List.forall_mem_cons.mp h
      rw [List.filterMap_cons_some (ownerAt?_eq_some_iff.mpr howner)]
      exact .cons howner (ih hrest)

theorem ofBytes_bytes (entry : ResolvedClass) :
    DecodedClass.ofBytes entry.file.bytes = .ok entry.decoded := by
  have howners := forall₂_owners entry.resolves.owned
  rw [Instruction.references, List.filterMap_filterMap] at howners
  apply DecodedClass.ofBytes_bytes
  exact ⟨entry.pool, entry.name, entry.instructions, _, entry.resolves, howners, rfl⟩

theorem length_references_le (entry : ResolvedClass) :
    entry.decoded.references.length ≤ entry.instructions.length := by
  rw [decoded, List.length_map]
  exact List.length_filterMap_le ..

theorem callsAmong_references (entry : ResolvedClass) (callee : String) :
    CallRecord.callsAmong entry.decoded.references callee = entry.callsTo callee := by
  rw [CallRecord.callsAmong, decoded, List.countP_map, List.countP_filterMap, callsTo]
  apply List.countP_congr
  intro instruction _
  rw [decide_eq_true_iff, calls_iff]
  cases entry.owner? instruction <;> simp [foldedName]

theorem callsBetween_cons (entry : ResolvedClass) (classes : List ResolvedClass)
    (caller callee : String) : callsBetween (entry :: classes) caller callee =
      (if entry.caller = caller then entry.callsTo callee else 0) +
        callsBetween classes caller callee := by
  unfold callsBetween
  by_cases h : entry.caller = caller <;> simp [h]

theorem callsBetween_decoded (classes : List ResolvedClass) (caller callee : String) :
    CallCensus.callsBetween (Survey.calls (classes.map decoded)) caller callee =
      callsBetween classes caller callee := by
  induction classes with
  | nil => rfl
  | cons entry classes ih =>
      have hcaller : ClassName.topLevel entry.decoded.name = entry.caller := rfl
      rw [callsBetween_eq_sum, Survey.calls] at ih ⊢
      simp only [List.map_cons, List.sum_cons, ih, callsBetween_cons, callsAmong_references, hcaller]

theorem callsInto_decoded (classes : List ResolvedClass) (callee : String) :
    CallCensus.callsInto (Survey.calls (classes.map decoded)) callee = callsInto classes callee := by
  rw [callsInto_eq_sum, Survey.calls, List.map_map, List.map_map, callsInto]
  congr 1
  apply List.map_congr_left
  intro entry _
  exact callsAmong_references entry callee

theorem sum_length_references_le (classes : List ResolvedClass) :
    ((classes.map decoded).map fun entry => entry.references.length).sum ≤
      (classes.map (·.instructions.length)).sum := by
  induction classes with
  | nil => exact Nat.le_refl _
  | cons entry classes ih =>
      have hfirst := length_references_le entry
      simp only [List.map_cons, List.sum_cons]
      omega

end ResolvedClass

namespace Survey

-- Archives of class files in which everything is found give graphs that show exactly the calls in
-- them, whatever is to be done with malformed entries.
theorem build_resolved {source : Source (List UInt8)} {path : String}
    {entries : List (ClassEntry (List UInt8))} {classes : List ResolvedClass}
    (hlisted : (source.list path).entries = .ok entries)
    (hfiles : entries.map (·.content) = classes.map (·.file.bytes))
    (hsize : (classes.map (·.instructions.length)).sum < UInt64.size) :
    ∃ graph, (∀ policy, (build policy DecodedClass.ofBytes source path).outcome = .ok (graph, 0)) ∧
      graph.archive = path ∧ graph.Shows (classes.map (·.caller))
        (ResolvedClass.callsBetween classes) (ResolvedClass.callsInto classes) := by
  have hbytes : List.Forall₂ (fun entry resolved => entry.content = resolved.file.bytes)
      entries classes := by
    apply List.forall₂_map_right_iff.mp
    apply List.forall₂_map_left_iff.mp
    rw [List.forall₂_eq_eq_eq]
    exact hfiles
  have hdecoded : List.Forall₂ (fun entry decoded => DecodedClass.ofBytes entry.content = .ok decoded)
      entries (classes.map ResolvedClass.decoded) := by
    apply List.forall₂_map_right_iff.mpr
    exact hbytes.imp fun entry resolved heq => heq ▸ resolved.ofBytes_bytes
  have hshows := shows_graphOf path
    (Nat.lt_of_le_of_lt (ResolvedClass.sum_length_references_le classes) hsize)
  have hcallers : (calls (classes.map ResolvedClass.decoded)).map (fun entry =>
      ClassName.topLevel entry.1) = classes.map (·.caller) := by
    rw [calls, List.map_map, List.map_map]
    rfl
  have hbetween := funext₂ (ResolvedClass.callsBetween_decoded classes)
  have hinto := funext (ResolvedClass.callsInto_decoded classes)
  rw [hcallers, hbetween, hinto] at hshows
  exact ⟨_, fun policy => outcome_build_of_forall₂ hlisted hdecoded, rfl, hshows⟩

section Nested

-- The class `A$1` with one method, which calls a method of an array of `B$2`.
def nestedFile : ClassFile where
  version := 52
  declared := 7
  constants := [.utf8 [0x41, 0x24, 0x31], .classRef 1,
    .utf8 [0x5B, 0x4C, 0x42, 0x24, 0x32, 0x3B], .classRef 3, .methodRef false 4 0,
    .utf8 [0x43, 0x6F, 0x64, 0x65]]
  flags := 0
  thisClass := 2
  superClass := 0
  interfaces := []
  fields := []
  methods := [⟨0, 0, 0, [⟨6, CodeBody.bytes ⟨0, [0xB8, 0, 5, 0xB1], []⟩⟩]⟩]
  attributes := []

def nestedPool : ConstantPool :=
  ⟨[.unusable, .utf8 "A$1", .classRef 1, .utf8 "[LB$2;", .classRef 3, .methodRef 4, .utf8 "Code"]⟩

def nestedInstructions : List Instruction := [.plain 0xB8 [0, 5], .plain 0xB1 []]

theorem resolves_nested : nestedFile.Resolves nestedPool "A$1" nestedInstructions where
  wellFormed := by
    simp [ClassFile.WellFormed, ClassFile.Fills, ClassFile.slotCount, ClassMember.WellFormed,
      Attribute.WellFormed, Constant.WellFormed, Constant.width, nestedFile, CodeBody.bytes,
      Bytes.length_toBigEndian]
  hasPool := by
    have hslots : List.Forall₂ Constant.Keeps nestedFile.constants
        (nestedPool.slots.tail.map fun slot => [slot]) :=
      .cons ⟨"A$1", by decide, rfl⟩ (.cons rfl (.cons ⟨"[LB$2;", by decide, rfl⟩ (.cons rfl
        (.cons rfl (.cons ⟨"Code", by decide, rfl⟩ .nil)))))
    exact ⟨_, ⟨_, hslots, rfl⟩, rfl⟩
  named := ⟨1, rfl, rfl⟩
  yields := by
    have hbody : HoldsCode (CodeBody.bytes ⟨0, [0xB8, 0, 5, 0xB1], []⟩) nestedInstructions :=
      ⟨_, rfl, by decide, rfl, rfl, rfl, trivial⟩
    exact ⟨_, .cons ⟨_, .cons (.code rfl hbody) .nil, rfl⟩ .nil, rfl⟩
  owned := by
    have hreferences : Instruction.references nestedInstructions = [5] := by decide
    rw [hreferences]
    intro index hmem
    rw [List.mem_singleton.mp hmem]
    exact ⟨"[LB$2;", 4, rfl, 3, rfl, rfl⟩

def nested : ResolvedClass := ⟨nestedFile, nestedPool, "A$1", nestedInstructions, resolves_nested⟩

theorem build_resolved_nested :
    let entries := [⟨"A$1.class", nested.file.bytes⟩, ⟨"A.class", nested.file.bytes⟩]
    let source : Source (List UInt8) := ⟨fun _ => true, fun _ => ⟨["B.txt"], .ok entries⟩⟩
    let classes := [nested, nested]
    (source.list "a.jar").entries = .ok entries ∧
      entries.map (·.content) = classes.map (·.file.bytes) ∧
      (classes.map (·.instructions.length)).sum < UInt64.size ∧
      ResolvedClass.callsBetween classes "A" "B" = 2 ∧
      ∃ graph, (∀ policy, (build policy DecodedClass.ofBytes source "a.jar").outcome =
          .ok (graph, 0)) ∧
        graph.archive = "a.jar" ∧ graph.Shows (classes.map (·.caller))
          (ResolvedClass.callsBetween classes) (ResolvedClass.callsInto classes) := by
  intro entries source classes
  have hsize : (classes.map (·.instructions.length)).sum < UInt64.size := by decide
  exact ⟨rfl, rfl, hsize, by decide, build_resolved rfl rfl hsize⟩

end Nested

end Survey

end CallCensus
