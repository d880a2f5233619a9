import CallCensus.Proofs.ClassFile.Composition
import CallCensus.Proofs.ClassFile.Reading

namespace CallCensus

namespace Read

variable {α β : Type}

-- How a run ends, and how it ends once more bytes stand behind those it started with.
inductive Later (back : List UInt8) :
    Except DecodeError α × Cursor → Except DecodeError α × Cursor → Prop where
  -- What was decided without the new bytes is not decided again. It is no want of bytes at the place
  -- that was come to.
  | settled (result : Except DecodeError α) (position : Nat) (rest : List UInt8)
      (hpassed : Fails (fun error => ∀ offset needed, error = .truncated offset needed →
        offset < position) result) :
      Later back (result, ⟨position, rest⟩) (result, ⟨position, rest ++ back⟩)
  -- Bytes that were missing are missing still, less those that came, or the run gets past them.
  | wanting {position needed : Nat} {rest : List UInt8} {after : Except DecodeError α × Cursor}
      (hneeded : 0 < needed)
      (hshort : back.length < needed →
        after = (.error (.truncated position (needed - back.length)), ⟨position, rest ++ back⟩))
      (henough : needed ≤ back.length → position + rest.length + needed ≤ after.2.position) :
      Later back (.error (.truncated position needed), ⟨position, rest⟩) after

section Later

variable {position offset needed : Nat} {rest back : List UInt8}
  {after : Except DecodeError α × Cursor}

theorem Later.of_definite {error : DecodeError} (hdefinite : error.Definite)
    (h : Later back (.error error, ⟨position, rest⟩) after) :
    after = (.error error, ⟨position, rest ++ back⟩) := by
  cases h with
  | settled _ _ _ _ => rfl
  | wanting _ _ _ => exact absurd hdefinite id

-- What a run has come past does not change with the bytes that are added.
theorem Later.of_passed (hpassed : offset < position)
    (h : Later back (.error (.truncated offset needed), ⟨position, rest⟩) after) :
    after = (.error (.truncated offset needed), ⟨position, rest ++ back⟩) := by
  cases h with
  | settled _ _ _ _ => rfl
  | wanting _ _ _ => exact absurd hpassed (Nat.lt_irrefl position)

-- Where bytes are missing at the place that a run has come to, all that are added count, and with as
-- many as are missing it comes past that place.
theorem Later.of_wanting
    (h : Later back (.error (.truncated position needed), ⟨position, rest⟩) after) :
    0 < needed ∧
    (back.length < needed →
      after = (.error (.truncated position (needed - back.length)), ⟨position, rest ++ back⟩)) ∧
    (needed ≤ back.length → position < after.2.position) := by
  cases h with
  | settled _ _ _ hpassed =>
      exact absurd (hpassed _ rfl position needed rfl) (Nat.lt_irrefl position)
  | wanting hneeded hshort henough =>
      refine ⟨hneeded, hshort, fun hle => ?_⟩
      have hpast := henough hle
      omega

end Later

-- A reader that goes forward only, and that looks no further than it reads. What stands behind the
-- bytes it reads is no reason for it to fail.
structure Incremental (read : Read α) : Prop where
  taken : ∀ cursor, ∃ front, cursor.rest = front ++ (read.startingAt cursor).2.rest ∧
    (read.startingAt cursor).2.position = cursor.position + front.length
  later : ∀ position rest back, Later back (read.startingAt ⟨position, rest⟩)
    (read.startingAt ⟨position, rest ++ back⟩)
  inward : ∀ cursor, Fails (¬ ·.AboutRest) (read.startingAt cursor).1

theorem Incremental.forward {read : Read α} (h : Incremental read) (cursor : Cursor) :
    cursor.position ≤ (read.startingAt cursor).2.position := by
  obtain ⟨front, -, hposition⟩ := h.taken cursor
  omega

theorem Incremental.total {read : Read α} (h : Incremental read) (cursor : Cursor) :
    (read.startingAt cursor).2.position + (read.startingAt cursor).2.rest.length =
      cursor.position + cursor.rest.length := by
  obtain ⟨front, hrest, hposition⟩ := h.taken cursor
  rw [hrest, List.length_append]
  omega

theorem incremental_pure (value : α) : Incremental (pure value) where
  taken _ := ⟨[], rfl, rfl⟩
  later position rest _ := .settled (.ok value) position rest (fails_ok value)
  inward _ := fails_ok value

theorem incremental_ofExcept {result : Except DecodeError α}
    (hresult : Fails DecodeError.Definite result) : Incremental (ofExcept result) where
  taken _ := ⟨[], rfl, rfl⟩
  later position rest _ := by
    refine .settled result position rest (hresult.mono ?_)
    rintro _ hdefinite offset needed rfl
    exact False.elim hdefinite
  inward _ := hresult.mono fun _ hdefinite => hdefinite.not_aboutRest

theorem later_bytes (count position : Nat) (rest back : List UInt8) :
    Later back ((bytes count).startingAt ⟨position, rest⟩)
      ((bytes count).startingAt ⟨position, rest ++ back⟩) := by
  rw [startingAt_bytes, startingAt_bytes]
  cases hcut : Bytes.cut count rest with
  | error missing =>
      obtain ⟨hlt, rfl⟩ := Bytes.cut_eq_error.mp hcut
      have hlength : (rest ++ back).length = rest.length + back.length := List.length_append
      refine .wanting (by omega) (fun hshort => ?_) (fun henough => ?_)
      · have hstill : Bytes.cut count (rest ++ back) =
            .error (count - rest.length - back.length) := by
          rw [Bytes.cut_eq_error]
          omega
        rw [hstill]
      · cases hlater : Bytes.cut count (rest ++ back) with
        | error missing =>
            have hmissing := Bytes.cut_eq_error.mp hlater
            omega
        | ok parts =>
            show position + rest.length + (count - rest.length) ≤ position + count
            omega
  | ok parts =>
      obtain ⟨front, following⟩ := parts
      obtain ⟨rfl, rfl⟩ := Bytes.append_eq_of_cut hcut
      rw [List.append_assoc, Bytes.cut_append]
      exact .settled (.ok front) (position + front.length) following (fails_ok front)

theorem incremental_bytes (count : Nat) : Incremental (bytes count) where
  taken cursor := by
    rw [startingAt_bytes]
    split
    · exact ⟨[], rfl, rfl⟩
    · rename_i front rest hcut
      obtain ⟨hrest, hlength⟩ := Bytes.append_eq_of_cut hcut
      exact ⟨front, hrest.symm, by rw [hlength]⟩
  later := later_bytes count
  inward cursor := by
    rw [startingAt_bytes]
    split
    · exact fails_error id
    · exact fails_ok _

-- What the first of two readers decides, the second takes up where the first left off.
theorem Incremental.bind {read : Read α} {next : α → Read β} (hread : Incremental read)
    (hnext : ∀ value, Incremental (next value)) : Incremental (read >>= next) where
  taken cursor := by
    obtain ⟨front, hrest, hposition⟩ := hread.taken cursor
    rw [startingAt_bind]
    split
    · rename_i error after hrun
      rw [hrun] at hrest hposition
      exact ⟨front, hrest, hposition⟩
    · rename_i value after hrun
      rw [hrun] at hrest hposition
      obtain ⟨back, hback, hstop⟩ := (hnext value).taken after
      refine ⟨front ++ back, ?_, ?_⟩
      · rw [List.append_assoc, ← hback, hrest]
      · rw [hstop, hposition, List.length_append, Nat.add_assoc]
  later position rest back := by
    have hlater := hread.later position rest back
    rw [startingAt_bind, startingAt_bind]
    generalize read.startingAt ⟨position, rest⟩ = before at hlater
    generalize read.startingAt ⟨position, rest ++ back⟩ = after at hlater
    cases hlater with
    | settled result position rest hpassed =>
        cases result with
        | error error => exact .settled (.error error) position rest (fails_error (hpassed error rfl))
        | ok value => exact (hnext value).later position rest back
    | wanting hneeded hshort henough =>
        refine .wanting hneeded (fun hlt => by rw [hshort hlt]) (fun hle => ?_)
        have hpast := henough hle
        split
        · exact hpast
        · rename_i value middle
          exact Nat.le_trans hpast ((hnext value).forward middle)
  inward cursor := by
    have hinward := hread.inward cursor
    rw [startingAt_bind]
    split
    · rename_i error after hrun
      rw [hrun] at hinward
      exact fails_error (hinward error rfl)
    · rename_i value after hrun
      exact (hnext value).inward after

theorem incremental_sized : Incremental sized :=
  ((incremental_bytes 4).bind fun _ => incremental_pure _).bind fun length =>
    incremental_bytes length.toNat

theorem position_of_sized {cursor after : Cursor} {body : List UInt8}
    (hrun : sized.startingAt cursor = (.ok body, after)) :
    cursor.rest = Bytes.toBigEndian 4 body.length ++ body ++ after.rest ∧
      after.position = cursor.position + 4 + body.length := by
  obtain ⟨front, ⟨rfl, -⟩, hrest, hposition⟩ := (parses_sized cursor body after).mp hrun
  refine ⟨hrest, ?_⟩
  rw [hposition, List.length_append, Bytes.length_toBigEndian, Nat.add_assoc]

-- A part is read from a place of its own once it is there in full, so that what is found in it does
-- not depend on the bytes behind it. Where it is too short, the reader has come past it already.
theorem incremental_part {scan : List UInt8 → Except DecodeError α}
    (hscan : ∀ body, Fails (fun error => error.Definite ∨
      ∃ offset needed, error = .truncated offset needed ∧ offset ≤ body.length) (scan body)) :
    Incremental (do ofExcept (scan (← sized))) where
  taken cursor := by
    obtain ⟨front, hrest, hposition⟩ := incremental_sized.taken cursor
    rw [startingAt_bind]
    split <;> rename_i hrun <;> rw [hrun] at hrest hposition <;> exact ⟨front, hrest, hposition⟩
  later position rest back := by
    have hlater := incremental_sized.later position rest back
    rw [startingAt_bind, startingAt_bind]
    generalize hbefore : sized.startingAt ⟨position, rest⟩ = before at hlater
    generalize sized.startingAt ⟨position, rest ++ back⟩ = after at hlater
    cases hlater with
    | settled result stop following hpassed =>
        cases result with
        | error error => exact .settled (.error error) stop following (fails_error (hpassed error rfl))
        | ok body =>
            refine .settled (scan body) stop following ((hscan body).mono ?_)
            rintro error hkind offset needed rfl
            rcases hkind with hdefinite | ⟨_, _, herror, hle⟩
            · exact False.elim hdefinite
            · obtain ⟨rfl, rfl⟩ := DecodeError.truncated.inj herror
              have hposition : stop = position + 4 + body.length := (position_of_sized hbefore).2
              omega
    | wanting hneeded hshort henough =>
        refine .wanting hneeded (fun hlt => by rw [hshort hlt]) (fun hle => ?_)
        have hpast := henough hle
        split <;> exact hpast
  inward cursor := by
    have hinward := incremental_sized.inward cursor
    rw [startingAt_bind]
    split
    · rename_i error after hrun
      rw [hrun] at hinward
      exact fails_error (hinward error rfl)
    · refine (hscan _).mono ?_
      rintro error (hdefinite | ⟨offset, needed, rfl, -⟩)
      · exact hdefinite.not_aboutRest
      · exact id

theorem Composed.incremental {Short : List UInt8 → Nat → Nat → Prop}
    (hshort : ∀ body offset needed, Short body offset needed → offset ≤ body.length)
    {read : Read α} (h : Composed Short read) : Incremental read := by
  induction h with
  | pure value => exact incremental_pure value
  | bytes count => exact incremental_bytes count
  | ofExcept hresult => exact incremental_ofExcept hresult
  | part hscan =>
      refine incremental_part fun body => (hscan body).mono fun error hkind => hkind.imp_right ?_
      rintro ⟨offset, needed, rfl, h⟩
      exact ⟨offset, needed, rfl, hshort body offset needed h⟩
  | bind _ _ hread hnext => exact hread.bind hnext

end Read

end CallCensus
