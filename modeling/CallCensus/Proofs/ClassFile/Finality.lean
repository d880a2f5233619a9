import CallCensus.Proofs.ClassFile.Truncation

namespace CallCensus

open Read

namespace Read

variable {α : Type} {read : Read α}

theorem Incremental.startingAt_of_definite (hread : Incremental read) {position : Nat}
    {front : List UInt8} {error : DecodeError} {after : Cursor} (hdefinite : error.Definite)
    (hrun : read.startingAt ⟨position, front⟩ = (.error error, after)) (back : List UInt8) :
    ∃ later, read.startingAt ⟨position, front ++ back⟩ = (.error error, later) := by
  have hlater := hread.later position front back
  rw [hrun] at hlater
  exact ⟨_, hlater.of_definite hdefinite⟩

-- A reader that stops before some bytes has no need of them.
theorem Incremental.startingAt_front (hread : Incremental read) {front back : List UInt8} {value : α}
    (hrun : read.startingAt ⟨0, front ++ back⟩ = (.ok value, ⟨front.length, back⟩)) :
    read.startingAt ⟨0, front⟩ = (.ok value, ⟨front.length, []⟩) := by
  have hlater := hread.later 0 front back
  have htotal := hread.total ⟨0, front⟩
  rw [hrun] at hlater
  generalize read.startingAt ⟨0, front⟩ = before at hlater htotal ⊢
  generalize hafter : (Except.ok value, Cursor.mk front.length back) = after at hlater
  cases hlater with
  | settled result position rest =>
      obtain ⟨rfl, hstop⟩ := Prod.mk.inj hafter
      obtain ⟨rfl, hrest⟩ := Cursor.mk.inj hstop
      rw [List.self_eq_append_left.mp hrest]
  | @wanting position needed rest _ hneeded hshort henough =>
      subst hafter
      have hle : needed ≤ back.length := by
        by_contra hlt
        cases hshort (Nat.not_le.mp hlt)
      have hpast : position + rest.length + needed ≤ front.length := henough hle
      simp only [Nat.zero_add] at htotal
      omega

end Read

namespace DecodedClass

theorem startingAt_of_ofBytes_error {bytes : List UInt8} {error : DecodeError}
    (h : ofBytes bytes = .error error) :
    (∃ after, read.startingAt ⟨0, bytes⟩ = (.error error, after)) ∨
      ∃ decoded front back, bytes = front ++ back ∧ back ≠ [] ∧
        read.startingAt ⟨0, front ++ back⟩ = (.ok decoded, ⟨front.length, back⟩) ∧
        error = .trailingBytes front.length back.length := by
  unfold ofBytes Cursor.ofBytes at h
  split at h
  · rename_i found after hrun
    cases h
    exact .inl ⟨after, hrun⟩
  · rename_i decoded after hrun
    obtain ⟨front, hfront, hrest, hposition⟩ := (parses_read _ _ _).mp hrun
    obtain ⟨position, back⟩ := after
    simp only [Nat.zero_add] at hrest hposition
    split at h
    · cases h
    · rename_i hback
      subst hrest hposition
      exact .inr ⟨decoded, front, back, rfl, hback, hrun, (Except.error.inj h).symm⟩

theorem ofBytes_append_of_definite {bytes : List UInt8} {error : DecodeError}
    (h : ofBytes bytes = .error error) (hdefinite : error.Definite) (suffix : List UInt8) :
    ofBytes (bytes ++ suffix) = .error error := by
  rcases startingAt_of_ofBytes_error h with ⟨after, hrun⟩ | ⟨_, _, _, _, _, _, rfl⟩
  · obtain ⟨later, hlater⟩ := incremental_read.startingAt_of_definite hdefinite hrun suffix
    exact ofBytes_of_startingAt hlater
  · exact absurd hdefinite id

-- Bytes are only ever left over behind a class file that is accepted without them.
theorem exists_front_of_trailing {bytes : List UInt8} {offset count : Nat}
    (h : ofBytes bytes = .error (.trailingBytes offset count)) :
    ∃ decoded front back, bytes = front ++ back ∧ back ≠ [] ∧ ofBytes front = .ok decoded ∧
      offset = front.length ∧ count = back.length := by
  rcases startingAt_of_ofBytes_error h with ⟨after, hrun⟩ |
    ⟨decoded, front, back, rfl, hback, hrun, herror⟩
  · have hinward := incremental_read.inward ⟨0, bytes⟩
    rw [hrun] at hinward
    exact absurd trivial (hinward _ rfl)
  · have hfront := incremental_read.startingAt_front hrun
    obtain ⟨hoffset, hcount⟩ := DecodeError.trailingBytes.inj herror
    exact ⟨decoded, front, back, rfl, hback, ofBytes_eq_ok_iff_startingAt.mpr ⟨_, hfront⟩, hoffset,
      hcount⟩

-- An error that is not for want of bytes is decided by the bytes up to it. It stays, with all that it
-- names, whatever is appended. Bytes that are left over stay so as well: they begin where an accepted
-- class file ends, and what is appended is left over with them.
theorem ofBytes_error_final (bytes : List UInt8) :
    (∀ error : DecodeError, error.Definite → ofBytes bytes = .error error →
      ∀ suffix, ofBytes (bytes ++ suffix) = .error error) ∧
    ∀ offset count, ofBytes bytes = .error (.trailingBytes offset count) →
      offset + count = bytes.length ∧ 1 ≤ count ∧
      (∃ decoded, ofBytes (bytes.take offset) = .ok decoded) ∧
      ∀ suffix, ofBytes (bytes ++ suffix) = .error (.trailingBytes offset (count + suffix.length)) := by
  constructor
  · intro error hdefinite h suffix
    exact ofBytes_append_of_definite h hdefinite suffix
  · intro offset count h
    obtain ⟨decoded, front, back, rfl, hback, haccepted, rfl, rfl⟩ := exists_front_of_trailing h
    refine ⟨List.length_append.symm, List.length_pos_of_ne_nil hback, ⟨decoded, ?_⟩, fun suffix => ?_⟩
    · rw [List.take_left]
      exact haccepted
    · have hsuffix : back ++ suffix ≠ [] := List.append_ne_nil_of_left_ne_nil hback suffix
      rw [List.append_assoc, ofBytes_append haccepted hsuffix, List.length_append]

-- The mark of the first is wrong, and two bytes are left over behind the class in the second.
theorem ofBytes_error_final_mark_and_rest :
    let marked : List UInt8 := [0xCB, 0xFE, 0xBA, 0xBE]
    let followed : List UInt8 := [0xCA, 0xFE, 0xBA, 0xBE, 0, 0, 0, 52, 0, 3, 1, 0, 1, 0x41, 7, 0, 1,
      0, 0, 0, 2, 0, 0, 0, 0, 0, 0, 0, 0, 0, 0, 0xCA, 0xFE]
    ofBytes marked = .error (.badMagic 0xCBFEBABE) ∧
      (∀ suffix, ofBytes (marked ++ suffix) = .error (.badMagic 0xCBFEBABE)) ∧
      ofBytes followed = .error (.trailingBytes 31 2) ∧
      (∃ decoded, ofBytes (followed.take 31) = .ok decoded) ∧
      ∀ suffix, ofBytes (followed ++ suffix) = .error (.trailingBytes 31 (2 + suffix.length)) := by
  intro marked followed
  have hmarked : ofBytes marked = .error (.badMagic 0xCBFEBABE) := by decide +kernel
  have hfollowed : ofBytes followed = .error (.trailingBytes 31 2) := by decide +kernel
  have hmark := (ofBytes_error_final marked).1 (.badMagic 0xCBFEBABE) trivial hmarked
  obtain ⟨-, -, hfront, hrest⟩ := (ofBytes_error_final followed).2 _ _ hfollowed
  exact ⟨hmarked, hmark, hfollowed, hfront, hrest⟩

end DecodedClass

end CallCensus
