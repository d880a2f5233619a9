import CallCensus.Text.Utf8

namespace CallCensus

-- What output goes to. A write or a flush that fails gives a reason, and either leaves another state.
structure Writer (State : Type) where
  write : State → List UInt8 → Except String Unit × State
  flush : State → Except String Unit × State

-- Bytes in memory, as far as there is room for them.
structure Sink where
  written : List UInt8
  -- The number of bytes that are still taken, if there is a limit.
  room : Option Nat
  flushFails : Bool
  deriving DecidableEq, Repr

namespace Sink

def unlimited : Sink := ⟨[], none, false⟩

-- Where bytes do not fit, as many of them are taken as do.
def write (refusal : String) (sink : Sink) (bytes : List UInt8) : Except String Unit × Sink :=
  match sink.room with
  | none => (.ok (), { sink with written := sink.written ++ bytes })
  | some room =>
    if bytes.length ≤ room then
      (.ok (), { sink with written := sink.written ++ bytes, room := some (room - bytes.length) })
    else (.error refusal, { sink with written := sink.written ++ bytes.take room, room := some 0 })

def flush (fault : String) (sink : Sink) : Except String Unit :=
  if sink.flushFails then .error fault else .ok ()

def writerOf (refusal fault : String) : Writer Sink :=
  ⟨write refusal, fun sink => (sink.flush fault, sink)⟩

def writer : Writer Sink := writerOf "disk full" "flush failed"

end Sink

-- A file behind a buffer.
structure Buffered where
  -- What has gone through the buffer, and what is still in it.
  passed : List UInt8
  held : List UInt8
  deriving DecidableEq, Repr

namespace Buffered

def capacity : Nat := 8192

def empty : Buffered := ⟨[], []⟩

def contents (file : Buffered) : List UInt8 := file.passed ++ file.held

-- The buffer is emptied for bytes that do not fit into what is left of it. Bytes that would fill all of
-- it go past it.
def write (file : Buffered) (bytes : List UInt8) : Buffered :=
  let file := if capacity < file.held.length + bytes.length then ⟨file.contents, []⟩ else file
  if capacity ≤ bytes.length then ⟨file.passed ++ bytes, file.held⟩
  else ⟨file.passed, file.held ++ bytes⟩

def writer : Writer Buffered :=
  ⟨fun file bytes => (.ok (), file.write bytes), fun file => (.ok (), ⟨file.contents, []⟩)⟩

end Buffered

end CallCensus
