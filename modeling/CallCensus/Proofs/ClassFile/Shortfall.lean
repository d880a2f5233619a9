import CallCensus.Proofs.ClassFile.Finality

namespace CallCensus

namespace Read

variable {α β : Type} {Short : List UInt8 → Nat → Nat → Prop}

-- A reader that wants bytes says so of the place that it has come to, or of a part behind it that is
-- there in full, with its length in front.
def Located (Short : List UInt8 → Nat → Nat → Prop) (read : Read α) : Prop :=
  ∀ cursor offset needed after, read.startingAt cursor = (.error (.truncated offset needed), after) →
    offset = after.position ∨ ∃ front body,
      cursor.rest = front ++ Bytes.toBigEndian 4 body.length ++ body ++ after.rest ∧
        Short body offset needed

theorem located_bytes (count : Nat) : Located Short (bytes count) := by
  intro cursor offset needed after hrun
  rw [startingAt_bytes] at hrun
  split at hrun
  · cases hrun
    exact .inl rfl
  · cases hrun

theorem located_ofExcept {result : Except DecodeError α} (h : Fails DecodeError.Definite result) :
    Located Short (ofExcept result) := by
  intro cursor offset needed after hrun
  exact False.elim (h _ (congrArg Prod.fst hrun))

theorem Located.bind {read : Read α} {next : α → Read β} (hread : Located Short read)
    (hincremental : Incremental read) (hnext : ∀ value, Located Short (next value)) :
    Located Short (read >>= next) := by
  intro cursor offset needed after hrun
  rw [startingAt_bind] at hrun
  split at hrun
  · rename_i error middle hfails
    cases hrun
    exact hread cursor offset needed after hfails
  · rename_i value middle hvalue
    obtain ⟨taken, hrest, -⟩ := hincremental.taken cursor
    rw [hvalue] at hrest
    refine (hnext value middle offset needed after hrun).imp_right ?_
    rintro ⟨front, body, hbody, hshort⟩
    exact ⟨taken ++ front, body, by rw [hrest, hbody]; simp only [List.append_assoc], hshort⟩

theorem located_sized : Located Short sized := by
  have hlength : Located Short u32 :=
    (located_bytes 4).bind (incremental_bytes 4) fun _ => located_ofExcept (fails_ok _)
  exact hlength.bind ((incremental_bytes 4).bind fun _ => incremental_pure _) fun length =>
    located_bytes length.toNat

theorem located_part {scan : List UInt8 → Except DecodeError α}
    (hscan : ∀ body, Fails (fun error => error.Definite ∨
      ∃ offset needed, error = .truncated offset needed ∧ Short body offset needed) (scan body)) :
    Located Short (do ofExcept (scan (← sized))) := by
  intro cursor offset needed after hrun
  rw [startingAt_bind] at hrun
  split at hrun
  · rename_i error middle hfails
    cases hrun
    exact located_sized cursor offset needed after hfails
  · rename_i body middle hbody
    obtain ⟨hfails, rfl⟩ := Prod.mk.inj hrun
    rcases hscan body _ hfails with hdefinite | ⟨_, _, herror, hshort⟩
    · exact False.elim hdefinite
    · obtain ⟨rfl, rfl⟩ := DecodeError.truncated.inj herror
      exact .inr ⟨[], body, (position_of_sized hbody).1, hshort⟩

theorem Composed.located
    (hshort : ∀ body offset needed, Short body offset needed → offset ≤ body.length)
    {read : Read α} (h : Composed Short read) : Located Short read := by
  induction h with
  | pure value => exact located_ofExcept (fails_ok value)
  | bytes count => exact located_bytes count
  | ofExcept hresult => exact located_ofExcept hresult
  | part hscan => exact located_part hscan
  | bind hread _ ih ihnext => exact ih.bind (hread.incremental hshort) ihnext

end Read

namespace DecodedClass

-- What an error of this kind says of a file: that it ends too early, behind the bytes before `offset`,
-- and how many more it takes to get past that place.
structure PlacesShortfall (bytes : List UInt8) (offset needed : Nat) : Prop where
  within : offset ≤ bytes.length
  missing : 1 ≤ needed
  counted : ∀ suffix, suffix.length < needed →
    ofBytes (bytes ++ suffix) = .error (.truncated offset (needed - suffix.length))
  passed : ∀ suffix still, needed ≤ suffix.length →
    ofBytes (bytes ++ suffix) ≠ .error (.truncated offset still)

-- The file does not end at all: the body of a `Code` attribute is there in full, and too short for what
-- it says of itself. The place is counted from where that body begins, and reading stops behind it.
def BodyCut (bytes : List UInt8) (offset needed : Nat) : Prop :=
  ∃ front body back, bytes = front ++ Bytes.toBigEndian 4 body.length ++ body ++ back ∧
    CutShort body offset needed ∧
    read.startingAt ⟨0, bytes⟩ =
      (.error (.truncated offset needed), ⟨front.length + 4 + body.length, back⟩)

section Shortfall

variable {bytes : List UInt8} {offset needed : Nat}

theorem BodyCut.ofBytes_eq (h : BodyCut bytes offset needed) :
    ofBytes bytes = .error (.truncated offset needed) := by
  obtain ⟨_, _, _, _, _, hrun⟩ := h
  exact ofBytes_of_startingAt hrun

theorem BodyCut.bounds (h : BodyCut bytes offset needed) :
    offset ≤ bytes.length ∧ offset ≤ 8 ∧ 1 ≤ needed := by
  obtain ⟨front, body, back, rfl, hcut, -⟩ := h
  have hbounds := hcut.bounds
  simp only [List.length_append]
  omega

-- No bytes behind it make a body longer.
theorem BodyCut.append (h : BodyCut bytes offset needed) (suffix : List UInt8) :
    BodyCut (bytes ++ suffix) offset needed := by
  obtain ⟨front, body, back, hbytes, hcut, hrun⟩ := h
  have hpassed : offset < front.length + 4 + body.length := by
    have hbounds := hcut.bounds
    omega
  have hlater := incremental_read.later 0 bytes suffix
  rw [hrun] at hlater
  refine ⟨front, body, back ++ suffix, ?_, hcut, hlater.of_passed hpassed⟩
  rw [hbytes, List.append_assoc]

theorem bodyCut_or_wanting (h : ofBytes bytes = .error (.truncated offset needed)) :
    BodyCut bytes offset needed ∨
      ∃ back, read.startingAt ⟨0, bytes⟩ = (.error (.truncated offset needed), ⟨offset, back⟩) := by
  rcases startingAt_of_ofBytes_error h with ⟨⟨position, back⟩, hrun⟩ | ⟨_, _, _, _, _, _, herror⟩
  · have hlocated := composed_read.located fun _ _ _ hcut => hcut.bounds.1
    rcases hlocated ⟨0, bytes⟩ offset needed ⟨position, back⟩ hrun with rfl |
      ⟨front, body, hbytes, hcut⟩
    · exact .inr ⟨back, hrun⟩
    · have hposition : position = front.length + 4 + body.length := by
        have htotal := incremental_read.total ⟨0, bytes⟩
        have hlength := congrArg List.length hbytes
        rw [hrun] at htotal
        simp only [List.length_append, Bytes.length_toBigEndian] at htotal hlength
        omega
      rw [hposition] at hrun
      exact .inl ⟨front, body, back, hbytes, hcut, hrun⟩
  · cases herror

-- With as many bytes as were missing the reader gets past the place in the file. It can name the same
-- number again, for a place in a body that it comes to later.
theorem ofBytes_append_of_not_bodyCut (h : ofBytes bytes = .error (.truncated offset needed))
    (hcut : ¬ BodyCut bytes offset needed) :
    (∀ suffix, suffix.length < needed →
      ofBytes (bytes ++ suffix) = .error (.truncated offset (needed - suffix.length))) ∧
    ∀ suffix still, needed ≤ suffix.length →
      ofBytes (bytes ++ suffix) = .error (.truncated offset still) →
      BodyCut (bytes ++ suffix) offset still := by
  obtain ⟨back, hrun⟩ := (bodyCut_or_wanting h).resolve_left hcut
  have hlater (suffix : List UInt8) := incremental_read.later 0 bytes suffix
  simp only [hrun] at hlater
  constructor
  · intro suffix hlt
    exact ofBytes_of_startingAt ((hlater suffix).of_wanting.2.1 hlt)
  · intro suffix still hle hagain
    rcases bodyCut_or_wanting hagain with hcut | ⟨rest, hstill⟩
    · exact hcut
    · have hpast := (hlater suffix).of_wanting.2.2 hle
      rw [hstill] at hpast
      exact absurd hpast (Nat.lt_irrefl offset)

theorem bounds_of_truncated (h : ofBytes bytes = .error (.truncated offset needed)) :
    offset ≤ bytes.length ∧ 1 ≤ needed := by
  rcases bodyCut_or_wanting h with hcut | ⟨back, hrun⟩
  · exact ⟨hcut.bounds.1, hcut.bounds.2.2⟩
  · have htotal := incremental_read.total ⟨0, bytes⟩
    have hlater := incremental_read.later 0 bytes []
    rw [hrun] at htotal hlater
    simp only [Nat.zero_add] at htotal
    exact ⟨by omega, hlater.of_wanting.1⟩

theorem PlacesShortfall.not_bodyCut (h : PlacesShortfall bytes offset needed) (suffix : List UInt8)
    (still : Nat) : ¬ BodyCut (bytes ++ suffix) offset still := by
  intro hcut
  have hfinal := (hcut.append (List.replicate needed 0)).ofBytes_eq
  rw [List.append_assoc] at hfinal
  refine h.passed _ still ?_ hfinal
  rw [List.length_append, List.length_replicate]
  exact Nat.le_add_left needed suffix.length

-- Where the file itself ends too early, the error says where, and how many bytes it takes to get
-- further. Where a body in it does, the place is one in that body, and no bytes help. An error is right
-- about the file if and only if no body is ever cut at a place of the same number, and so it is right
-- wherever the number is greater than a body can give.
theorem ofBytes_shortfall (h : ofBytes bytes = .error (.truncated offset needed)) :
    offset ≤ bytes.length ∧ 1 ≤ needed ∧
    (BodyCut bytes offset needed →
      ∀ suffix, ofBytes (bytes ++ suffix) = .error (.truncated offset needed)) ∧
    (¬ BodyCut bytes offset needed →
      (∀ suffix, suffix.length < needed →
        ofBytes (bytes ++ suffix) = .error (.truncated offset (needed - suffix.length))) ∧
      ∀ suffix still, needed ≤ suffix.length →
        ofBytes (bytes ++ suffix) = .error (.truncated offset still) →
        BodyCut (bytes ++ suffix) offset still) ∧
    (PlacesShortfall bytes offset needed ↔
      ∀ suffix still, ¬ BodyCut (bytes ++ suffix) offset still) ∧
    (8 < offset → PlacesShortfall bytes offset needed) := by
  obtain ⟨hwithin, hmissing⟩ := bounds_of_truncated h
  have hplaces (hnever : ∀ suffix still, ¬ BodyCut (bytes ++ suffix) offset still) :
      PlacesShortfall bytes offset needed := by
    have hcut : ¬ BodyCut bytes offset needed := by
      have hnone := hnever [] needed
      rwa [List.append_nil] at hnone
    obtain ⟨hcounted, hagain⟩ := ofBytes_append_of_not_bodyCut h hcut
    exact ⟨hwithin, hmissing, hcounted, fun suffix still hle hstill =>
      hnever suffix still (hagain suffix still hle hstill)⟩
  refine ⟨hwithin, hmissing, ?_, ofBytes_append_of_not_bodyCut h, ?_, ?_⟩
  · intro hcut suffix
    exact (hcut.append suffix).ofBytes_eq
  · exact ⟨fun hright => hright.not_bodyCut, hplaces⟩
  · intro hlt
    refine hplaces fun suffix still hcut => ?_
    have hbounds := hcut.bounds
    omega

end Shortfall

-- The class `A`, without the last byte of the number of its attributes.
theorem ofBytes_shortfall_attributes :
    let bytes : List UInt8 := [0xCA, 0xFE, 0xBA, 0xBE, 0, 0, 0, 52, 0, 3, 1, 0, 1, 0x41, 7, 0, 1,
      0, 0, 0, 2, 0, 0, 0, 0, 0, 0, 0, 0, 0]
    ofBytes bytes = .error (.truncated 29 1) ∧ PlacesShortfall bytes 29 1 ∧
      ∀ suffix still, ¬ BodyCut (bytes ++ suffix) 29 still := by
  intro bytes
  have h : ofBytes bytes = .error (.truncated 29 1) := by decide +kernel
  obtain ⟨-, -, -, -, hiff, hright⟩ := ofBytes_shortfall h
  have hplaces := hright (by decide)
  exact ⟨h, hplaces, hiff.mp hplaces⟩

-- A method of the class `A` has a body of five bytes, where the number of its instructions ends after
-- one of four. Neither the byte that follows nor any other is one of the three that are wanted. The
-- mark alone wants four bytes at the same number, and the rest of the class does not end that.
theorem ofBytes_shortfall_body :
    let mark : List UInt8 := [0xCA, 0xFE, 0xBA, 0xBE]
    let following : List UInt8 := [0, 0, 0, 52, 0, 5, 1, 0, 1, 0x41, 7, 0, 1, 10, 0, 2, 0, 0,
      1, 0, 4, 0x43, 0x6F, 0x64, 0x65, 0, 0, 0, 2, 0, 0, 0, 0, 0, 0, 0, 1, 0, 0, 0, 0, 0, 0, 0, 1,
      0, 4, 0, 0, 0, 5, 0, 0, 0, 0, 0, 0, 0]
    (ofBytes (mark ++ following) = .error (.truncated 4 3) ∧
      ofBytes (mark ++ following ++ [0]) = .error (.truncated 4 3) ∧
      ¬ PlacesShortfall (mark ++ following) 4 3) ∧
    (ofBytes mark = .error (.truncated 4 4) ∧ ¬ PlacesShortfall mark 4 4) := by
  intro mark following
  have hbody : ofBytes (mark ++ following) = .error (.truncated 4 3) := by decide +kernel
  have hlonger : ofBytes (mark ++ following ++ [0]) = .error (.truncated 4 3) := by decide +kernel
  refine ⟨⟨hbody, hlonger, fun hright => ?_⟩, by decide +kernel, fun hright => ?_⟩
  · have hcounted := hright.counted [0] (by decide)
    rw [hlonger] at hcounted
    exact absurd hcounted (by decide)
  · exact hright.passed following 3 (by decide) hbody

end DecodedClass

end CallCensus
