import CallCensus.Proofs.ClassFile.Reading

namespace CallCensus.ReadStep

open Read

-- How many bytes a step takes, unless they say so themselves.
def size? : ReadStep → Option Nat
  | .u8 => some 1
  | .u16 => some 2
  | .u32 => some 4
  | .bytes count => some count
  | .skip count => some count
  | .sized => none

-- What a step of a fixed size makes of the bytes it takes.
def answer : ReadStep → List UInt8 → Value
  | .u8, front | .u16, front | .u32, front => .number (Bytes.bigEndian front)
  | .bytes _, front | .sized, front => .bytes front
  | .skip _, _ => .nothing

-- What a step can do: the bytes that it takes, its answer, and where it leaves the cursor.
inductive Does : ReadStep → Cursor → List UInt8 → Except DecodeError Value → Cursor → Prop where
  | taken {step : ReadStep} {position : Nat} {front rest : List UInt8}
      (hsize : step.size? = some front.length) :
      Does step ⟨position, front ++ rest⟩ front (.ok (step.answer front))
        ⟨position + front.length, rest⟩
  | short {step : ReadStep} {position count : Nat} {rest : List UInt8}
      (hsize : step.size? = some count) (hshort : rest.length < count) :
      Does step ⟨position, rest⟩ [] (.error (.truncated position (count - rest.length)))
        ⟨position, rest⟩
  | sizedTaken {length : UInt32} {position : Nat} {body rest : List UInt8}
      (hlength : body.length = length.toNat) :
      Does .sized ⟨position, Bytes.ofUInt32 length ++ (body ++ rest)⟩ (Bytes.ofUInt32 length ++ body)
        (.ok (.bytes body)) ⟨position + 4 + body.length, rest⟩
  | lengthShort {position : Nat} {rest : List UInt8} (hshort : rest.length < 4) :
      Does .sized ⟨position, rest⟩ [] (.error (.truncated position (4 - rest.length)))
        ⟨position, rest⟩
  -- The length is taken, and the bytes behind it are too few.
  | bodyShort {length : UInt32} {position : Nat} {rest : List UInt8}
      (hshort : rest.length < length.toNat) :
      Does .sized ⟨position, Bytes.ofUInt32 length ++ rest⟩ (Bytes.ofUInt32 length)
        (.error (.truncated (position + 4) (length.toNat - rest.length))) ⟨position + 4, rest⟩

-- Steps one after the other, each with the bytes that it takes.
inductive Run : List ReadStep → Cursor → List (List UInt8) →
    List (Except DecodeError Value × Cursor) → Prop where
  | nil (cursor : Cursor) : Run [] cursor [] []
  | cons {step : ReadStep} {steps : List ReadStep} {cursor after : Cursor} {taken : List UInt8}
      {parts : List (List UInt8)} {answer : Except DecodeError Value}
      {later : List (Except DecodeError Value × Cursor)}
      (hstep : Does step cursor taken answer after) (hlater : Run steps after parts later) :
      Run (step :: steps) cursor (taken :: parts) ((answer, after) :: later)

-- What a step makes of the bytes that it reads.
theorem startingAt_made {α : Type} (count : Nat) (make : List UInt8 → α) (value : α → Value)
    {result : List UInt8 → Value}
    (h : ∀ front, front.length = count → value (make front) = result front) (cursor : Cursor) :
    (do return value (← (do return make (← Read.bytes count) : Read α)) : Read Value).startingAt
        cursor =
      match Bytes.cut count cursor.rest with
      | .error missing => (.error (.truncated cursor.position missing), cursor)
      | .ok (front, rest) => (.ok (result front), ⟨cursor.position + count, rest⟩) := by
  rw [startingAt_bind, startingAt_map_bytes]
  cases hcut : Bytes.cut count cursor.rest with
  | error missing => rfl
  | ok parts => simp only [startingAt_pure, h parts.1 (Bytes.append_eq_of_cut hcut).2]

theorem startingAt_of_size? {step : ReadStep} {count : Nat} (h : step.size? = some count)
    (cursor : Cursor) :
    step.read.startingAt cursor =
      match Bytes.cut count cursor.rest with
      | .error missing => (.error (.truncated cursor.position missing), cursor)
      | .ok (front, rest) => (.ok (step.answer front), ⟨cursor.position + count, rest⟩) := by
  -- a number is as wide as the bytes it is read from
  have hfits (front : List UInt8) (hlength : front.length = count) :
      Bytes.bigEndian front < 256 ^ count :=
    hlength ▸ Bytes.bigEndian_lt front
  cases step with
  | u8 =>
      obtain rfl := Option.some.inj h
      refine startingAt_made 1 _ (fun byte : UInt8 => .number byte.toNat) (fun front hlength => ?_)
        cursor
      rw [Nat.toUInt8_eq, UInt8.toNat_ofNat_of_lt' (hfits front hlength), answer]
  | u16 =>
      obtain rfl := Option.some.inj h
      refine startingAt_made 2 _ (fun word : UInt16 => .number word.toNat) (fun front hlength => ?_)
        cursor
      rw [Nat.toUInt16_eq, UInt16.toNat_ofNat_of_lt' (hfits front hlength), answer]
  | u32 =>
      obtain rfl := Option.some.inj h
      refine startingAt_made 4 _ (fun word : UInt32 => .number word.toNat) (fun front hlength => ?_)
        cursor
      rw [Nat.toUInt32_eq, UInt32.toNat_ofNat_of_lt' (hfits front hlength), answer]
  | sized => cases h
  | bytes size =>
      obtain rfl := Option.some.inj h
      exact startingAt_map_bytes size _ cursor
  | skip size =>
      obtain rfl := Option.some.inj h
      exact startingAt_made size _ (fun _ => .nothing) (fun _ _ => rfl) cursor

theorem exists_does_of_size? {step : ReadStep} {count : Nat} (h : step.size? = some count)
    (cursor : Cursor) :
    ∃ taken, Does step cursor taken (step.read.startingAt cursor).1
      (step.read.startingAt cursor).2 := by
  obtain ⟨position, rest⟩ := cursor
  rw [startingAt_of_size? h]
  cases hcut : Bytes.cut count rest with
  | error missing =>
      obtain ⟨hshort, rfl⟩ := Bytes.cut_eq_error.mp hcut
      exact ⟨[], .short h hshort⟩
  | ok parts =>
      obtain ⟨front, following⟩ := parts
      obtain ⟨rfl, rfl⟩ := Bytes.append_eq_of_cut hcut
      exact ⟨front, .taken h⟩

theorem startingAt_sized (cursor : Cursor) :
    sized.read.startingAt cursor =
      match Bytes.cut 4 cursor.rest with
      | .error missing => (.error (.truncated cursor.position missing), cursor)
      | .ok (front, rest) =>
        (ReadStep.bytes (Bytes.bigEndian front).toUInt32.toNat).read.startingAt
          ⟨cursor.position + 4, rest⟩ := by
  have hlength : Read.u32.startingAt cursor = _ := startingAt_map_bytes 4 _ cursor
  rw [read, Read.sized, bind_assoc, startingAt_bind, hlength]
  cases Bytes.cut 4 cursor.rest <;> rfl

theorem exists_does_sized (cursor : Cursor) :
    ∃ taken, Does .sized cursor taken (sized.read.startingAt cursor).1
      (sized.read.startingAt cursor).2 := by
  obtain ⟨position, rest⟩ := cursor
  rw [startingAt_sized]
  cases hcut : Bytes.cut 4 rest with
  | error missing =>
      obtain ⟨hshort, rfl⟩ := Bytes.cut_eq_error.mp hcut
      exact ⟨[], .lengthShort hshort⟩
  | ok parts =>
      obtain ⟨front, following⟩ := parts
      obtain ⟨rfl, hlength⟩ := Bytes.append_eq_of_cut hcut
      obtain ⟨length, rfl⟩ : ∃ length, front = Bytes.ofUInt32 length :=
        ⟨_, (Bytes.ofUInt32_bigEndian hlength).symm⟩
      have hsize : (bytes length.toNat).size? = some length.toNat := rfl
      simp only [Bytes.bigEndian_ofUInt32, Nat.toUInt32_eq, UInt32.ofNat_toNat,
        startingAt_of_size? hsize]
      cases hbody : Bytes.cut length.toNat following with
      | error missing =>
          obtain ⟨hshort, rfl⟩ := Bytes.cut_eq_error.mp hbody
          exact ⟨_, .bodyShort hshort⟩
      | ok parts =>
          obtain ⟨body, following⟩ := parts
          obtain ⟨rfl, hsize⟩ := Bytes.append_eq_of_cut hbody
          rw [← hsize]
          exact ⟨_, .sizedTaken hsize⟩

-- One step does one of these things.
theorem exists_does (step : ReadStep) (cursor : Cursor) :
    ∃ taken, Does step cursor taken (step.read.startingAt cursor).1 (step.read.startingAt cursor).2 := by
  cases hsize : step.size? with
  | some count => exact exists_does_of_size? hsize cursor
  | none =>
      cases step with
      | sized => exact exists_does_sized cursor
      | _ => cases hsize

-- What is taken is what stands in front of the cursor, and the cursor comes to stand behind it.
theorem Does.rest_eq {step : ReadStep} {cursor after : Cursor} {taken : List UInt8}
    {answer : Except DecodeError Value} (h : Does step cursor taken answer after) :
    cursor.rest = taken ++ after.rest ∧ after.position = cursor.position + taken.length := by
  cases h with
  | taken hsize => exact ⟨rfl, rfl⟩
  | short hsize hshort => exact ⟨rfl, rfl⟩
  | sizedTaken hlength =>
      simp only [List.append_assoc, List.length_append, Bytes.length_ofUInt32, true_and]
      omega
  | lengthShort hshort => exact ⟨rfl, rfl⟩
  | bodyShort hshort => exact ⟨rfl, by rw [Bytes.length_ofUInt32]⟩

-- A step that fails is told of at the place where it leaves the cursor, with what is missing there.
theorem Does.error_eq {step : ReadStep} {cursor after : Cursor} {taken : List UInt8}
    {error : DecodeError} (h : Does step cursor taken (.error error) after) :
    ∃ wanted, after.remaining < wanted ∧
      error = .truncated after.position (wanted - after.remaining) := by
  cases h with
  | short hsize hshort => exact ⟨_, hshort, rfl⟩
  | lengthShort hshort => exact ⟨4, hshort, rfl⟩
  | bodyShort hshort => exact ⟨_, hshort, rfl⟩

theorem exists_run (steps : List ReadStep) (cursor : Cursor) :
    ∃ parts, Run steps cursor parts (trace steps cursor) := by
  induction steps generalizing cursor with
  | nil => exact ⟨[], .nil cursor⟩
  | cons step steps ih =>
      obtain ⟨taken, hstep⟩ := exists_does step cursor
      obtain ⟨parts, hlater⟩ := ih (step.read.startingAt cursor).2
      exact ⟨taken :: parts, .cons hstep hlater⟩

-- Wherever a run stands, all that was taken is what stood in front of it.
theorem Run.flatten_take {steps : List ReadStep} {cursor : Cursor} {parts : List (List UInt8)}
    {told : List (Except DecodeError Value × Cursor)} (h : Run steps cursor parts told)
    {index : Nat} {answer : Except DecodeError Value} {after : Cursor}
    (hindex : told[index]? = some (answer, after)) :
    cursor.rest = (parts.take (index + 1)).flatten ++ after.rest ∧
      after.position = cursor.position + (parts.take (index + 1)).flatten.length := by
  induction h generalizing index with
  | nil cursor => cases hindex
  | @cons step steps cursor middle taken parts first later hstep hlater ih =>
      obtain ⟨hrest, hposition⟩ := hstep.rest_eq
      cases index with
      | zero =>
          obtain ⟨rfl, rfl⟩ := Prod.mk.inj (Option.some.inj hindex)
          simpa using ⟨hrest, hposition⟩
      | succ index =>
          obtain ⟨hlast, hstop⟩ := ih hindex
          rw [List.take_succ_cons, List.flatten_cons, List.append_assoc, List.length_append, ← hlast]
          exact ⟨hrest, by omega⟩

theorem Run.error_eq {steps : List ReadStep} {cursor : Cursor} {parts : List (List UInt8)}
    {told : List (Except DecodeError Value × Cursor)} (h : Run steps cursor parts told)
    {error : DecodeError} {after : Cursor} (hmem : (.error error, after) ∈ told) :
    ∃ wanted, after.remaining < wanted ∧
      error = .truncated after.position (wanted - after.remaining) := by
  induction h with
  | nil cursor => cases hmem
  | cons hstep hlater ih =>
      rcases List.mem_cons.mp hmem with hfirst | hmem
      · obtain ⟨rfl, rfl⟩ := Prod.mk.inj hfirst
        exact hstep.error_eq
      · exact ih hmem

-- In a run of reads that goes on whatever fails, each step takes what it wants or nothing, save for a
-- length that is taken before its bytes are found to be too few. At every point the bytes that were
-- taken, one part behind the other, are the beginning of the data up to the position, and the rest is
-- what remains. What fails says where the cursor stands and how much is missing from there on.
theorem trace_accounts (data : List UInt8) (steps : List ReadStep) :
    let told := trace steps (Cursor.ofBytes data)
    ∃ parts, Run steps (Cursor.ofBytes data) parts told ∧
      ∀ index answer cursor, told[index]? = some (answer, cursor) →
        cursor.position + cursor.remaining = data.length ∧
        cursor.rest = data.drop cursor.position ∧
        (parts.take (index + 1)).flatten = data.take cursor.position ∧
        ∀ error, answer = .error error → ∃ wanted, cursor.remaining < wanted ∧
          error = .truncated cursor.position (wanted - cursor.remaining) := by
  intro told
  obtain ⟨parts, hrun⟩ := exists_run steps (Cursor.ofBytes data)
  refine ⟨parts, hrun, fun index answer cursor hindex => ?_⟩
  obtain ⟨hdata, hposition⟩ := hrun.flatten_take hindex
  have hposition : cursor.position = (parts.take (index + 1)).flatten.length := by
    rw [hposition, Cursor.ofBytes, Nat.zero_add]
  have hdata : data = (parts.take (index + 1)).flatten ++ cursor.rest := hdata
  refine ⟨?_, ?_, ?_, fun error herror => ?_⟩
  · rw [hposition, Cursor.remaining, hdata, List.length_append]
  · rw [hposition, hdata, List.drop_left]
  · rw [hposition, hdata, List.take_left]
  · exact hrun.error_eq (herror ▸ List.mem_of_getElem? hindex)

-- A length is read, but not the bytes that it promises, and reading goes on behind it.
theorem trace_accounts_length :
    let data : List UInt8 := [0xCA, 0, 0, 0, 9, 0xFE, 0xBA]
    let steps : List ReadStep := [.u8, .sized, .u32, .u16, .skip 1]
    let told := trace steps (Cursor.ofBytes data)
    told = [(.ok (.number 0xCA), ⟨1, [0, 0, 0, 9, 0xFE, 0xBA]⟩),
        (.error (.truncated 5 7), ⟨5, [0xFE, 0xBA]⟩), (.error (.truncated 5 2), ⟨5, [0xFE, 0xBA]⟩),
        (.ok (.number 0xFEBA), ⟨7, []⟩), (.error (.truncated 7 1), ⟨7, []⟩)] ∧
      ∃ parts, Run steps (Cursor.ofBytes data) parts told ∧
        (parts.take 2).flatten = [0xCA, 0, 0, 0, 9] := by
  intro data steps told
  have htold : told = [(.ok (.number 0xCA), ⟨1, [0, 0, 0, 9, 0xFE, 0xBA]⟩),
      (.error (.truncated 5 7), ⟨5, [0xFE, 0xBA]⟩), (.error (.truncated 5 2), ⟨5, [0xFE, 0xBA]⟩),
      (.ok (.number 0xFEBA), ⟨7, []⟩), (.error (.truncated 7 1), ⟨7, []⟩)] := by decide +kernel
  obtain ⟨parts, hrun, hpoints⟩ := trace_accounts data steps
  exact ⟨htold, parts, hrun, (hpoints 1 _ _ (congrArg (·[1]?) htold)).2.2.1⟩

end CallCensus.ReadStep
