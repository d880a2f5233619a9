namespace CallCensus.Bytes

-- The first `count` bytes and what follows them.
-- A string that is too short answers with the number of bytes it lacks.
def cut (count : Nat) (bytes : List UInt8) : Except Nat (List UInt8 × List UInt8) :=
  let front := bytes.take count
  if front.length < count then .error (count - front.length)
  else .ok (front, bytes.drop count)

theorem cut_append (front rest : List UInt8) :
    cut front.length (front ++ rest) = .ok (front, rest) := by
  simp [cut]

theorem cut_of_le_length {count : Nat} {bytes : List UInt8} (h : count ≤ bytes.length) :
    cut count bytes = .ok (bytes.take count, bytes.drop count) := by
  have hfront : (bytes.take count).length = count := List.length_take_of_le h
  rw [cut, hfront, if_neg (Nat.lt_irrefl count)]

theorem append_eq_of_cut {count : Nat} {bytes front rest : List UInt8}
    (h : cut count bytes = .ok (front, rest)) :
    front ++ rest = bytes ∧ front.length = count := by
  unfold cut at h
  dsimp only at h
  split at h
  next => cases h
  next hlen =>
    cases h
    have hle : (bytes.take count).length ≤ count := List.length_take_le count bytes
    exact ⟨List.take_append_drop count bytes, by omega⟩

theorem cut_eq_error {count missing : Nat} {bytes : List UInt8} :
    cut count bytes = .error missing ↔ bytes.length < count ∧ missing = count - bytes.length := by
  unfold cut
  simp only [List.length_take]
  split
  next h => simp only [Except.error.injEq]; omega
  next h => simp only [reduceCtorEq, false_iff]; omega

-- The number whose digits to base 256 are `bytes`, the most significant first.
def bigEndian (bytes : List UInt8) : Nat :=
  bytes.foldl (fun value byte => value * 256 + byte.toNat) 0

def littleEndian : List UInt8 → Nat
  | [] => 0
  | byte :: rest => byte.toNat + 256 * littleEndian rest

-- The last `width` digits of `value` to base 256, the least significant first.
def toLittleEndian : (width value : Nat) → List UInt8
  | 0, _ => []
  | width + 1, value => value.toUInt8 :: toLittleEndian width (value / 256)

def toBigEndian (width value : Nat) : List UInt8 := (toLittleEndian width value).reverse

def ofUInt16 (word : UInt16) : List UInt8 := toBigEndian 2 word.toNat

def ofUInt32 (word : UInt32) : List UInt8 := toBigEndian 4 word.toNat

@[simp] theorem length_toLittleEndian (width value : Nat) :
    (toLittleEndian width value).length = width := by
  induction width generalizing value with
  | zero => rfl
  | succ width ih => simp [toLittleEndian, ih]

@[simp] theorem length_toBigEndian (width value : Nat) :
    (toBigEndian width value).length = width := by
  simp [toBigEndian]

@[simp] theorem length_ofUInt16 (word : UInt16) : (ofUInt16 word).length = 2 :=
  length_toBigEndian 2 word.toNat

@[simp] theorem length_ofUInt32 (word : UInt32) : (ofUInt32 word).length = 4 :=
  length_toBigEndian 4 word.toNat

end CallCensus.Bytes
