namespace CallCensus.Hexadecimal

def digits : (width value : Nat) → List Char
  | 0, _ => []
  | width + 1, value => digits width (value / 16) ++ [Nat.digitChar (value % 16)]

def render (width value : Nat) : String := "0x" ++ String.ofList (digits width value)

end CallCensus.Hexadecimal

namespace CallCensus.Decimal

def digits (value : Nat) : List Char := Nat.toDigits 10 value

def render (value : Nat) : String := String.ofList (digits value)

-- The number with these digits. Without a digit there is none.
def read? (digits : List Char) : Option Nat :=
  if digits ≠ [] ∧ digits.all Char.isDigit then some (Nat.ofDigitChars 10 digits 0) else none

def readWord? (digits : List Char) : Option UInt64 := do
  let value ← read? digits
  if value < UInt64.size then some value.toUInt64 else none

theorem isDigit_of_mem_digits {value : Nat} {char : Char} (h : char ∈ digits value) :
    char.isDigit :=
  Nat.isDigit_of_mem_toDigits (by decide) (by decide) h

theorem notMem_digits {char : Char} (h : ¬ char.isDigit) (value : Nat) : char ∉ digits value :=
  fun hmem => h (isDigit_of_mem_digits hmem)

theorem digits_ne_nil (value : Nat) : digits value ≠ [] := Nat.toDigits_ne_nil

theorem read?_digits (value : Nat) : read? (digits value) = some value := by
  have hall : (digits value).all Char.isDigit :=
    List.all_eq_true.mpr fun _ hmem => isDigit_of_mem_digits hmem
  simp only [read?, digits_ne_nil, hall, ne_eq, not_false_eq_true, and_self, if_true]
  rw [digits, Nat.ofDigitChars_ten_toDigits]

theorem readWord?_digits (word : UInt64) : readWord? (digits word.toNat) = some word := by
  simp [readWord?, read?_digits, UInt64.toNat_lt_size]

end CallCensus.Decimal
