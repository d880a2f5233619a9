import CallCensus.Archive.Listing
import CallCensus.Proofs.Results
import Mathlib.Data.List.ReduceOption

namespace CallCensus.Archive

variable {Error : Type}

def Opened.isClass (opened : Opened Error) : Bool := Archive.isClass opened.name opened.directory

section Members

variable {opened : Opened Error} {rest : List (Opening Error)}

theorem listOpened_of_class (hclass : opened.isClass = true) {bytes : List UInt8}
    (hread : opened.read () = .ok bytes) :
    listOpened (.ok opened :: rest) =
      ⟨(listOpened rest).passedOver, (listOpened rest).entries.map (⟨opened.name, bytes⟩ :: ·)⟩ := by
  unfold Opened.isClass at hclass
  simp only [listOpened, if_pos hclass, hread]

theorem listOpened_of_unreadable (hclass : opened.isClass = true) {error : Error}
    (hread : opened.read () = .error error) :
    listOpened (.ok opened :: rest) = ⟨[], .error error⟩ := by
  unfold Opened.isClass at hclass
  simp only [listOpened, if_pos hclass, hread]

theorem listOpened_of_other (hclass : opened.isClass = false) :
    listOpened (.ok opened :: rest) =
      ⟨opened.name :: (listOpened rest).passedOver, (listOpened rest).entries⟩ := by
  unfold Opened.isClass at hclass
  rw [listOpened, if_neg (Bool.eq_false_iff.mp hclass)]

end Members

namespace Opening

variable {member twin : Opening Error}

-- Whether a member is listed as a class.
def isClass : Opening Error → Bool
  | .ok opened => opened.isClass
  | .error _ => false

-- A member that can be opened, and whose bytes can be read to their end if it is a class.
def Readable (member : Opening Error) : Prop :=
  ∃ opened, member = .ok opened ∧ (opened.isClass → ∃ bytes, opened.read () = .ok bytes)

-- The entry of a class in a listing.
def ListedAs (member : Opening Error) (entry : ClassEntry (List UInt8)) : Prop :=
  ∃ opened, member = .ok opened ∧ entry.name = opened.name ∧ opened.read () = .ok entry.content

-- What a member adds to the classes of its archive, or why the archive cannot be read.
def found : Opening Error → Except Error (Option (ClassEntry (List UInt8)))
  | .error error => .error error
  | .ok opened =>
    if opened.isClass then (opened.read ()).map fun bytes => some ⟨opened.name, bytes⟩
    else .ok none

theorem readable_iff : member.Readable ↔ ∃ entry, found member = .ok entry := by
  constructor
  · rintro ⟨opened, rfl, hread⟩
    by_cases hclass : opened.isClass
    · obtain ⟨bytes, hbytes⟩ := hread hclass
      exact ⟨_, by rw [found, if_pos hclass, hbytes]; rfl⟩
    · exact ⟨none, by rw [found, if_neg hclass]⟩
  · rintro ⟨entry, hentry⟩
    cases member with
    | error error => cases hentry
    | ok opened =>
        refine ⟨opened, rfl, fun hclass => ?_⟩
        rw [found, if_pos hclass] at hentry
        obtain ⟨bytes, hbytes, -⟩ := Results.map_eq_ok_iff.mp hentry
        exact ⟨bytes, hbytes⟩

-- Members of two archives that differ at most in the bytes of what is no class.
inductive Alike : Opening Error → Opening Error → Prop where
  | failing (error : Error) : Alike (.error error) (.error error)
  | opened (opened twin : Opened Error) (name_eq : twin.name = opened.name)
      (class_eq : twin.isClass = opened.isClass)
      (read_eq : opened.isClass → twin.read () = opened.read ()) : Alike (.ok opened) (.ok twin)

end Opening

open Opening

variable {members : List (Opening Error)} {entries : List (ClassEntry (List UInt8))} {error : Error}

-- The members are read one after the other, and a class is listed for each that is one.
theorem entries_listOpened (members : List (Opening Error)) :
    (listOpened members).entries = (members.mapM found).map List.reduceOption := by
  induction members with
  | nil => rfl
  | cons member rest ih =>
      rw [List.mapM_cons]
      cases member with
      | error error => rfl
      | ok opened =>
          cases hclass : opened.isClass with
          | true =>
              rw [found, if_pos hclass]
              cases hread : opened.read () with
              | error error =>
                  rw [listOpened_of_unreadable hclass hread]
                  rfl
              | ok bytes =>
                  rw [listOpened_of_class hclass hread, ih]
                  cases rest.mapM found <;> rfl
          | false =>
              rw [listOpened_of_other hclass, ih, found, if_neg (Bool.eq_false_iff.mp hclass)]
              cases rest.mapM found <;> rfl

theorem listedAs_of_found {results : List (Option (ClassEntry (List UInt8)))}
    (h : List.Forall₂ (fun member result => found member = .ok result) members results) :
    List.Forall₂ ListedAs (members.filter Opening.isClass) results.reduceOption := by
  induction h with
  | nil => exact .nil
  | @cons member result rest later hfirst _ ih =>
      cases member with
      | error error => cases hfirst
      | ok opened =>
          cases hclass : opened.isClass with
          | true =>
              rw [found, if_pos hclass] at hfirst
              obtain ⟨bytes, hbytes, rfl⟩ := Results.map_eq_ok_iff.mp hfirst
              have hlisted : Opening.isClass (.ok opened) = true := hclass
              rw [List.filter_cons_of_pos hlisted, List.reduceOption_cons_of_some]
              exact .cons ⟨opened, rfl, rfl, hbytes⟩ ih
          | false =>
              rw [found, if_neg (Bool.eq_false_iff.mp hclass)] at hfirst
              obtain rfl := Except.ok.inj hfirst
              have hother : ¬ Opening.isClass (.ok opened) = true := Bool.eq_false_iff.mp hclass
              rwa [List.filter_cons_of_neg hother, List.reduceOption_cons_of_none]

-- A listing succeeds if and only if every member can be read.
theorem isOk_listOpened_iff :
    (∃ entries, (listOpened members).entries = .ok entries) ↔ ∀ member ∈ members, member.Readable := by
  have hmapped : (∃ entries, (listOpened members).entries = .ok entries) ↔
      ∃ results, members.mapM found = .ok results := by
    rw [entries_listOpened]
    cases members.mapM found <;> simp [Except.map]
  rw [hmapped, Results.exists_mapM_eq_ok_iff]
  simp only [readable_iff]

theorem listedAs_of_listOpened (h : (listOpened members).entries = .ok entries) :
    List.Forall₂ ListedAs (members.filter Opening.isClass) entries := by
  rw [entries_listOpened] at h
  obtain ⟨results, hresults, rfl⟩ := Results.map_eq_ok_iff.mp h
  exact listedAs_of_found (Results.mapM_eq_ok_iff.mp hresults)

-- It fails with the first member that cannot be read.
theorem listOpened_eq_error_iff :
    (listOpened members).entries = .error error ↔
      ∃ before member after, members = before ++ member :: after ∧
        (∀ other ∈ before, other.Readable) ∧ found member = .error error := by
  have hmapped : (listOpened members).entries = .error error ↔
      members.mapM found = .error error := by
    rw [entries_listOpened]
    cases members.mapM found <;> simp [Except.map]
  rw [hmapped, Results.mapM_eq_error_iff]
  simp only [readable_iff]

theorem listOpened_eq_of_alike {twins : List (Opening Error)}
    (h : List.Forall₂ Alike members twins) : listOpened twins = listOpened members := by
  induction h with
  | nil => rfl
  | cons hfirst _ ih =>
      cases hfirst with
      | failing error => rfl
      | opened opened twin name_eq class_eq read_eq =>
          cases hclass : opened.isClass with
          | true =>
              have htwin := class_eq.trans hclass
              have hread := read_eq hclass
              cases hbytes : opened.read () with
              | error error =>
                  rw [listOpened_of_unreadable hclass hbytes,
                    listOpened_of_unreadable htwin (hread.trans hbytes)]
              | ok bytes =>
                  rw [listOpened_of_class hclass hbytes, listOpened_of_class htwin (hread.trans hbytes),
                    ih, name_eq]
          | false =>
              rw [listOpened_of_other hclass, listOpened_of_other (class_eq.trans hclass), ih, name_eq]

end CallCensus.Archive
