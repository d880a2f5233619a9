import CallCensus.Census.Sink
import Mathlib.Data.List.Basic

namespace CallCensus

namespace Writer

variable {State : Type} (writer : Writer State) {state next : State}

-- Writes these bytes one after the other, until some of them are refused.
def writeAll (state : State) : List (List UInt8) → Except String Unit × State
  | [] => (.ok (), state)
  | bytes :: rest =>
    match writer.write state bytes with
    | (.error reason, state) => (.error reason, state)
    | (.ok (), state) => writeAll state rest

variable {writer} {bytes : List UInt8} {rest : List (List UInt8)}

theorem writeAll_cons_of_ok (hwrites : writer.write state bytes = (.ok (), next)) :
    writer.writeAll state (bytes :: rest) = writer.writeAll next rest := by
  simp only [writeAll, hwrites]

theorem writeAll_cons_of_error {reason : String}
    (hrefuses : writer.write state bytes = (.error reason, next)) :
    writer.writeAll state (bytes :: rest) = (.error reason, next) := by
  simp only [writeAll, hrefuses]

theorem writeAll_cons_eq_ok_iff :
    writer.writeAll state (bytes :: rest) = (.ok (), next) ↔
      ∃ middle, writer.write state bytes = (.ok (), middle) ∧
        writer.writeAll middle rest = (.ok (), next) := by
  rcases hanswer : writer.write state bytes with ⟨reason | _, middle⟩
  · rw [writeAll_cons_of_error hanswer]
    simp
  · rw [writeAll_cons_of_ok hanswer]
    simp

-- The bytes that are refused, and those that were written before.
theorem exists_of_writeAll_eq_error {texts : List (List UInt8)} {reason : String}
    (h : writer.writeAll state texts = (.error reason, next)) :
    ∃ front bytes back middle, texts = front ++ bytes :: back ∧
      writer.writeAll state front = (.ok (), middle) ∧
      writer.write middle bytes = (.error reason, next) := by
  induction texts generalizing state with
  | nil => cases h
  | cons bytes rest ih =>
      rcases hanswer : writer.write state bytes with ⟨other | _, middle⟩
      · rw [writeAll_cons_of_error hanswer] at h
        cases h
        exact ⟨[], bytes, rest, state, rfl, rfl, hanswer⟩
      · rw [writeAll_cons_of_ok hanswer] at h
        obtain ⟨front, refused, back, last, rfl, hfront, hrefused⟩ := ih h
        exact ⟨bytes :: front, refused, back, last, rfl,
          writeAll_cons_eq_ok_iff.mpr ⟨middle, hanswer, hfront⟩, hrefused⟩

end Writer

namespace Sink

-- There is room for these bytes.
def Fits (sink : Sink) (bytes : List UInt8) : Prop := ∀ room ∈ sink.room, bytes.length ≤ room

-- The sink once as many of these bytes are written as there is room for.
def filled (sink : Sink) (bytes : List UInt8) : Sink :=
  match sink.room with
  | none => { sink with written := sink.written ++ bytes }
  | some room =>
    { sink with written := sink.written ++ bytes.take room, room := some (room - bytes.length) }

variable {sink : Sink} {bytes : List UInt8} {refusal fault : String}

theorem write_of_fits (h : sink.Fits bytes) :
    sink.write refusal bytes = (.ok (), sink.filled bytes) := by
  unfold Fits at h
  unfold write filled
  cases hroom : sink.room with
  | none => rfl
  | some room =>
      have hle : bytes.length ≤ room := h room hroom
      simp only [if_pos hle, List.take_of_length_le hle]

theorem write_of_not_fits (h : ¬ sink.Fits bytes) :
    sink.write refusal bytes = (.error refusal, sink.filled bytes) := by
  unfold Fits at h
  unfold write filled
  cases hroom : sink.room with
  | none => simp [hroom] at h
  | some room =>
      have hlt : room < bytes.length := by simpa [hroom] using h
      simp only [if_neg (Nat.not_le.mpr hlt), Nat.sub_eq_zero_of_le (Nat.le_of_lt hlt)]

theorem write_eq_error_iff {reason : String} {next : Sink} :
    sink.write refusal bytes = (.error reason, next) ↔
      ¬ sink.Fits bytes ∧ reason = refusal ∧ next = sink.filled bytes := by
  by_cases hfits : sink.Fits bytes
  · rw [write_of_fits hfits]
    simp [hfits]
  · rw [write_of_not_fits hfits]
    simp only [hfits, not_false_eq_true, true_and, Prod.mk.injEq, Except.error.injEq,
      eq_comm (a := reason), eq_comm (a := next)]

theorem written_filled (h : sink.Fits bytes) : (sink.filled bytes).written = sink.written ++ bytes := by
  obtain ⟨written, _ | room, flushFails⟩ := sink
  · rfl
  · simp only [filled, List.take_of_length_le (h room rfl)]

@[simp] theorem fits_nil (sink : Sink) : sink.Fits [] := fun _ _ => Nat.zero_le _

@[simp] theorem filled_nil (sink : Sink) : sink.filled [] = sink := by
  obtain ⟨written, _ | room, flushFails⟩ := sink <;> simp [filled]

theorem filled_append (sink : Sink) (front back : List UInt8) :
    (sink.filled front).filled back = sink.filled (front ++ back) := by
  obtain ⟨written, _ | room, flushFails⟩ := sink
  · simp [filled]
  · simp [filled, List.take_append, Nat.sub_sub]

theorem fits_append {front back : List UInt8} :
    sink.Fits (front ++ back) ↔ sink.Fits front ∧ (sink.filled front).Fits back := by
  obtain ⟨written, _ | room, flushFails⟩ := sink
  · simp [Fits, filled]
  · simp only [Fits, filled, Option.mem_def, Option.some.injEq, forall_eq', List.length_append]
    omega

-- All of these are taken exactly if there is room for them together.
theorem writeAll_eq_ok_iff {texts : List (List UInt8)} {next : Sink} :
    (writerOf refusal fault).writeAll sink texts = (.ok (), next) ↔
      sink.Fits texts.flatten ∧ next = sink.filled texts.flatten := by
  induction texts generalizing sink with
  | nil =>
      simp only [Writer.writeAll, List.flatten_nil, fits_nil, filled_nil, Prod.mk.injEq, true_and]
      exact eq_comm
  | cons bytes rest ih =>
      rw [Writer.writeAll_cons_eq_ok_iff, List.flatten_cons, fits_append, ← filled_append]
      by_cases hfits : sink.Fits bytes
      · have hwrites : (writerOf refusal fault).write sink bytes = (.ok (), sink.filled bytes) :=
          write_of_fits hfits
        simp only [hwrites, Prod.mk.injEq, true_and, exists_eq_left', ih, hfits]
      · have hrefuses : (writerOf refusal fault).write sink bytes =
            (.error refusal, sink.filled bytes) := write_of_not_fits hfits
        simp [hrefuses, hfits]

theorem reason_of_writeAll {texts : List (List UInt8)} {reason : String} {next : Sink}
    (h : (writerOf refusal fault).writeAll sink texts = (.error reason, next)) : reason = refusal := by
  obtain ⟨front, bytes, back, middle, -, -, hrefuses⟩ := Writer.exists_of_writeAll_eq_error h
  exact (write_eq_error_iff.mp hrefuses).2.1

end Sink

end CallCensus
