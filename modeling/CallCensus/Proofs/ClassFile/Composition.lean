import CallCensus.ClassFile.Cursor
import CallCensus.Proofs.ClassFile.Failures

namespace CallCensus.Read

-- Readers that are put together from reads of bytes, one after the other. What they look up besides
-- can be found wrong, but not to be too short. Only a part whose length stands in front of it may be
-- read by itself, and then `Short` says where and by how much it is too short.
inductive Composed (Short : List UInt8 → Nat → Nat → Prop) : {α : Type} → Read α → Prop where
  | pure {α : Type} (value : α) : Composed Short (Pure.pure value : Read α)
  | bytes (count : Nat) : Composed Short (Read.bytes count)
  | ofExcept {α : Type} {result : Except DecodeError α} (h : Fails DecodeError.Definite result) :
      Composed Short (Read.ofExcept result)
  | part {α : Type} {scan : List UInt8 → Except DecodeError α}
      (h : ∀ body, Fails (fun error => error.Definite ∨
        ∃ offset needed, error = .truncated offset needed ∧ Short body offset needed) (scan body)) :
      Composed Short (do Read.ofExcept (scan (← Read.sized)))
  | bind {α β : Type} {read : Read α} {next : α → Read β} (hread : Composed Short read)
      (hnext : ∀ value, Composed Short (next value)) : Composed Short (read >>= next)

variable {α : Type} {Short : List UInt8 → Nat → Nat → Prop}

theorem composed_throw {error : DecodeError} (herror : error.Definite) :
    Composed Short (throw error : Read α) :=
  .ofExcept (fails_error herror)

theorem Composed.ite {condition : Prop} [Decidable condition] {read other : Read α}
    (hread : Composed Short read) (hother : Composed Short other) :
    Composed Short (if condition then read else other) := by
  split
  · exact hread
  · exact hother

theorem composed_skip (count : Nat) : Composed Short (skip count) :=
  (Composed.bytes count).bind fun _ => .pure ()

theorem composed_u8 : Composed Short u8 := (Composed.bytes 1).bind fun _ => .pure _

theorem composed_u16 : Composed Short u16 := (Composed.bytes 2).bind fun _ => .pure _

theorem composed_u32 : Composed Short u32 := (Composed.bytes 4).bind fun _ => .pure _

theorem composed_sized : Composed Short sized :=
  composed_u32.bind fun length => .bytes length.toNat

theorem Composed.times {read : Read α} (hread : Composed Short read) (count : Nat) :
    Composed Short (times count read) := by
  induction count with
  | zero => exact .pure []
  | succ count ih => exact hread.bind fun _ => ih.bind fun _ => .pure _

theorem Composed.table {read : Read α} (hread : Composed Short read) :
    Composed Short (table read) :=
  composed_u16.bind fun count => hread.times count.toNat

end CallCensus.Read
