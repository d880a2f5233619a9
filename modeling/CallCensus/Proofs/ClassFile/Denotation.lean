import CallCensus.ClassFile.DecodedClass
import CallCensus.ClassFile.Model
import CallCensus.Proofs.Results

namespace CallCensus

open Bytecode

-- What the items of a list yield, brought together in their order.
def Gathers {α β : Type} (Yields : α → List β → Prop) (items : List α) (gathered : List β) : Prop :=
  ∃ parts, List.Forall₂ Yields items parts ∧ gathered = parts.flatten

theorem gathers_nil {α β : Type} {Yields : α → List β → Prop} {gathered : List β} :
    Gathers Yields [] gathered ↔ gathered = [] := by
  simp [Gathers]

theorem gathers_cons {α β : Type} {Yields : α → List β → Prop} {item : α} {items : List α}
    {gathered : List β} :
    Gathers Yields (item :: items) gathered ↔ ∃ first rest, Yields item first ∧
      Gathers Yields items rest ∧ gathered = first ++ rest := by
  constructor
  · rintro ⟨parts, hparts, rfl⟩
    obtain ⟨first, others, hfirst, hothers, rfl⟩ := List.forall₂_cons_left_iff.mp hparts
    exact ⟨first, others.flatten, hfirst, ⟨others, hothers, rfl⟩, rfl⟩
  · rintro ⟨first, _, hfirst, ⟨others, hothers, rfl⟩, rfl⟩
    exact ⟨first :: others, .cons hfirst hothers, rfl⟩

theorem exists_gathers {α β : Type} {Yields : α → List β → Prop} {items : List α}
    (h : ∀ item ∈ items, ∃ own, Yields item own) : ∃ gathered, Gathers Yields items gathered := by
  induction items with
  | nil => exact ⟨[], gathers_nil.mpr rfl⟩
  | cons item items ih =>
      rw [List.forall_mem_cons] at h
      obtain ⟨own, hown⟩ := h.1
      obtain ⟨rest, hrest⟩ := ih h.2
      exact ⟨own ++ rest, gathers_cons.mpr ⟨own, rest, hown, hrest, rfl⟩⟩

-- The slots that a constant fills. Bytes of a text have to be the modified form of that text, and
-- a wide constant leaves a slot unused.
def Constant.Keeps : Constant → List Slot → Prop
  | .utf8 bytes, slots =>
      ∃ text : String, bytes = ModifiedUtf8.encode text.toList ∧ slots = [.utf8 text]
  | .classRef name, slots => slots = [.classRef name]
  | .methodRef _ owner _, slots => slots = [.methodRef owner]
  | .plain tag _, slots =>
      slots = if tag = 5 ∨ tag = 6 then [.other, .unusable] else [.other]

-- The pool that constants fill, from slot one on.
def ConstantPool.Holds (pool : ConstantPool) (constants : List Constant) : Prop :=
  ∃ slots, Gathers Constant.Keeps constants slots ∧ pool = ⟨.unusable :: slots⟩

section Slots

variable (pool : ConstantPool) (index : UInt16)

namespace ConstantPool

def IsText (text : String) : Prop := pool.get? index = some (.utf8 text)

-- A class is named by the text that its slot points at, and a method by the class that owns it.
def IsClass (name : String) : Prop :=
  ∃ text, pool.get? index = some (.classRef text) ∧ pool.IsText text name

def IsOwner (owner : String) : Prop :=
  ∃ owningClass, pool.get? index = some (.methodRef owningClass) ∧ pool.IsClass owningClass owner

theorem text_eq_ok_iff {text : String} : pool.text index = .ok text ↔ pool.IsText index text := by
  unfold ConstantPool.text IsText
  split
  · rename_i found hfound
    rw [hfound, Except.ok.injEq, Option.some.injEq, Slot.utf8.injEq]
  · rename_i hfound
    simp only [reduceCtorEq, false_iff]
    exact hfound text

theorem className_eq_ok_iff {name : String} :
    pool.className index = .ok name ↔ pool.IsClass index name := by
  unfold className IsClass
  split
  · rename_i text htext
    simp [text_eq_ok_iff, htext]
  · rename_i hfound
    simp only [reduceCtorEq, false_iff]
    rintro ⟨text, htext, -⟩
    exact hfound text htext

theorem methodOwner_eq_ok_iff {owner : String} :
    pool.methodOwner index = .ok owner ↔ pool.IsOwner index owner := by
  unfold methodOwner IsOwner
  split
  · rename_i owningClass hclass
    simp [className_eq_ok_iff, hclass]
  · rename_i hfound
    simp only [reduceCtorEq, false_iff]
    rintro ⟨owningClass, hclass, -⟩
    exact hfound owningClass hclass

end ConstantPool

end Slots

-- The body of a `Code` attribute: limits, the code with its length in front, and tables about it.
def HoldsCode (body : List UInt8) (instructions : List Instruction) : Prop :=
  ∃ parts : CodeBody, body = parts.bytes ∧ parts.code.length < 0x100000000 ∧
    parts.code = Instruction.assemble instructions ∧ Instruction.FitFrom 0 instructions

-- The instructions that an attribute of a method brings in. Only the attribute that is named `Code`
-- holds some, and its name has to be a text in any case.
inductive Attribute.Yields (pool : ConstantPool) (info : Attribute) : List Instruction → Prop where
  | code {instructions : List Instruction} (hname : pool.IsText info.name "Code")
      (hbody : HoldsCode info.body instructions) : Yields pool info instructions
  | passedOver {text : String} (hname : pool.IsText info.name text) (hne : text ≠ "Code") :
      Yields pool info []

def ClassMember.Yields (pool : ConstantPool) (method : ClassMember) (instructions : List Instruction) :
    Prop :=
  Gathers (Attribute.Yields pool) method.attributes instructions

-- What something is told by the owners of the methods that its instructions call.
def Calls {α : Type} (pool : ConstantPool) (Yields : α → List Instruction → Prop) (item : α)
    (names : List String) : Prop :=
  ∃ instructions owners, Yields item instructions ∧
    List.Forall₂ pool.IsOwner (Instruction.references instructions) owners ∧
    names = owners.map ClassName.sourceForm

theorem references_append (front back : List Instruction) :
    Instruction.references (front ++ back) =
      Instruction.references front ++ Instruction.references back :=
  List.filterMap_append

theorem gathers_calls {α : Type} {pool : ConstantPool} {Yields : α → List Instruction → Prop}
    {items : List α} {names : List String} :
    Gathers (Calls pool Yields) items names ↔ Calls pool (Gathers Yields) items names := by
  induction items generalizing names with
  | nil =>
      simp only [Calls, gathers_nil]
      constructor
      · rintro rfl
        exact ⟨[], [], rfl, .nil, rfl⟩
      · rintro ⟨_, owners, rfl, howners, rfl⟩
        cases howners
        rfl
  | cons item items ih =>
      simp only [Calls, gathers_cons, ih]
      constructor
      · rintro ⟨_, _, ⟨front, owners, hfront, howners, rfl⟩, ⟨back, others, hback, hothers, rfl⟩, rfl⟩
        refine ⟨front ++ back, owners ++ others, ⟨front, back, hfront, hback, rfl⟩, ?_, ?_⟩
        · rw [references_append]
          exact Results.forall₂_append_iff.mpr ⟨owners, others, howners, hothers, rfl⟩
        · rw [List.map_append]
      · rintro ⟨_, owners, ⟨front, back, hfront, hback, rfl⟩, howners, rfl⟩
        rw [references_append] at howners
        obtain ⟨first, second, hfirst, hsecond, rfl⟩ := Results.forall₂_append_iff.mp howners
        rw [List.map_append]
        exact ⟨_, _, ⟨front, first, hfront, hfirst, rfl⟩, ⟨back, second, hback, hsecond, rfl⟩, rfl⟩

namespace ClassFile

def Yields (file : ClassFile) (pool : ConstantPool) (instructions : List Instruction) : Prop :=
  Gathers (ClassMember.Yields pool) file.methods instructions

-- A class file in which everything that is looked up is there: its own name, and the owner of
-- every method that its instructions call.
structure Resolves (file : ClassFile) (pool : ConstantPool) (name : String)
    (instructions : List Instruction) : Prop where
  wellFormed : file.WellFormed
  hasPool : pool.Holds file.constants
  named : pool.IsClass file.thisClass name
  yields : file.Yields pool instructions
  owned : ∀ index ∈ Instruction.references instructions, ∃ owner, pool.IsOwner index owner

-- The class that a class file is read as: its name, and the owner at each call in order.
def Denotes (file : ClassFile) (decoded : DecodedClass) : Prop :=
  ∃ pool name instructions owners, file.Resolves pool name instructions ∧
    List.Forall₂ pool.IsOwner (Instruction.references instructions) owners ∧
    decoded = ⟨ClassName.sourceForm name, owners.map ClassName.sourceForm⟩

end ClassFile

end CallCensus
