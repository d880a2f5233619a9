namespace CallCensus.Utf8

def encode (text : String) : List UInt8 := text.toByteArray.data.toList

@[simp] theorem encode_append (front rest : String) :
    encode (front ++ rest) = encode front ++ encode rest := by
  simp [encode]

@[simp] theorem encode_empty : encode "" = [] := rfl

def replacement : Char := '\uFFFD'

-- How many bytes follow this lead byte, and the range of the first of them.
-- The range is narrower where it rules out a longer form than needed, a surrogate or a number
-- above the last character.
def continuation (lead : Nat) : Option (Nat × Nat × Nat) :=
  if lead < 0x80 then some (0, 0x80, 0xBF)
  else if lead < 0xC2 then none
  else if lead < 0xE0 then some (1, 0x80, 0xBF)
  else if lead = 0xE0 then some (2, 0xA0, 0xBF)
  else if lead = 0xED then some (2, 0x80, 0x9F)
  else if lead < 0xF0 then some (2, 0x80, 0xBF)
  else if lead = 0xF0 then some (3, 0x90, 0xBF)
  else if lead < 0xF4 then some (3, 0x80, 0xBF)
  else if lead = 0xF4 then some (3, 0x80, 0x8F)
  else none

def leadBits (lead : Nat) : (count : Nat) → Nat
  | 0 => lead
  | 1 => lead % 0x20
  | 2 => lead % 0x10
  | _ => lead % 8

-- Adds the bits of `count` more bytes to `value`, the first of them within `low` and `high`.
-- Stops in front of the first byte that does not belong there.
def extend : (count low high value : Nat) → List UInt8 → Option Nat × List UInt8
  | 0, _, _, value, rest => (some value, rest)
  | _ + 1, _, _, _, [] => (none, [])
  | count + 1, low, high, value, byte :: rest =>
    if low ≤ byte.toNat ∧ byte.toNat ≤ high then
      extend count 0x80 0xBF (value * 64 + byte.toNat % 64) rest
    else (none, byte :: rest)

theorem length_extend_le (count low high value : Nat) (bytes : List UInt8) :
    (extend count low high value bytes).2.length ≤ bytes.length := by
  induction count generalizing low high value bytes with
  | zero => simp [extend]
  | succ count ih =>
    cases bytes with
    | nil => simp [extend]
    | cons byte rest =>
      simp only [extend]
      split
      next => exact Nat.le_succ_of_le (ih _ _ _ _)
      next => simp

-- Reads any bytes as text. Each longest stretch that begins a character and cannot be completed
-- becomes one replacement character, and so does each other byte that begins none.
def decodeLossy : List UInt8 → List Char
  | [] => []
  | lead :: rest =>
    match continuation lead.toNat with
    | none => replacement :: decodeLossy rest
    | some (count, low, high) =>
      let read := extend count low high (leadBits lead.toNat count) rest
      (match read.1 with
        | some value => Char.ofNat value
        | none => replacement) :: decodeLossy read.2
termination_by bytes => bytes.length
decreasing_by
  · simp
  · have := length_extend_le count low high (leadBits lead.toNat count) rest
    simp only [List.length_cons]
    omega

end CallCensus.Utf8
