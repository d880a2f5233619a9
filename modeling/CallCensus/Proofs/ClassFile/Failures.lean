import CallCensus.ClassFile.DecodeError

namespace CallCensus

-- Of all errors only this one is about bytes that were not read.
def DecodeError.AboutRest : DecodeError → Prop
  | .trailingBytes _ _ => True
  | _ => False

-- What is wrong is in the bytes that were read, so that no bytes behind them can mend it.
def DecodeError.Definite : DecodeError → Prop
  | .badMagic _ => True
  | .truncated _ _ => False
  | .unknownConstantTag _ _ => True
  | .invalidConstant _ _ => True
  | .unknownOpcode _ _ => True
  | .truncatedCode _ => True
  | .invalidUtf8 _ => True
  | .trailingBytes _ _ => False

theorem DecodeError.Definite.not_aboutRest {error : DecodeError} (h : error.Definite) :
    ¬ error.AboutRest := by
  cases error with
  | trailingBytes offset count => exact False.elim h
  | _ => exact id

section Fails

variable {α β : Type} {Allowed : DecodeError → Prop}

-- An attempt that fails with no other errors than these.
def Fails (Allowed : DecodeError → Prop) (result : Except DecodeError α) : Prop :=
  ∀ error, result = .error error → Allowed error

theorem fails_ok (value : α) : Fails Allowed (.ok value) := by
  intro error h
  cases h

theorem fails_error {error : DecodeError} (herror : Allowed error) :
    Fails Allowed (.error error : Except DecodeError α) := by
  intro other h
  cases h
  exact herror

theorem Fails.mono {Other : DecodeError → Prop} {result : Except DecodeError α}
    (hresult : Fails Allowed result) (h : ∀ error, Allowed error → Other error) :
    Fails Other result :=
  fun error herror => h error (hresult error herror)

theorem Fails.bind {result : Except DecodeError α} {next : α → Except DecodeError β}
    (hresult : Fails Allowed result) (hnext : ∀ value, Fails Allowed (next value)) :
    Fails Allowed (result >>= next) := by
  cases result with
  | error error => exact fails_error (hresult error rfl)
  | ok value => exact hnext value

theorem Fails.map {result : Except DecodeError α} (hresult : Fails Allowed result) (f : α → β) :
    Fails Allowed (result.map f) := by
  cases result with
  | error error => exact fails_error (hresult error rfl)
  | ok value => exact fails_ok (f value)

theorem Fails.ite {condition : Prop} [Decidable condition] {result other : Except DecodeError α}
    (hresult : Fails Allowed result) (hother : Fails Allowed other) :
    Fails Allowed (if condition then result else other) := by
  split
  · exact hresult
  · exact hother

theorem fails_mapM {f : α → Except DecodeError β} (h : ∀ item, Fails Allowed (f item))
    (items : List α) : Fails Allowed (items.mapM f) := by
  induction items with
  | nil => exact fails_ok []
  | cons item items ih =>
      rw [List.mapM_cons]
      exact (h item).bind fun first => ih.bind fun rest => fails_ok (first :: rest)

end Fails

end CallCensus
