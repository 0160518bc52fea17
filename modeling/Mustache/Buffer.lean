import Mustache.Run

/-!
This module contains the buffer that output is collected in.
-/

namespace Mustache

structure Buffer where
  chunks : Array Bytes
  size : Nat

namespace Buffer

def empty : Buffer := ⟨#[], 0⟩

def append (buffer : Buffer) (data : Bytes) : Buffer :=
  if data = [] then buffer else ⟨buffer.chunks.push data, buffer.size + data.length⟩

/-- The output so far. It is joined once: the buffer keeps it as a single chunk. -/
def value (buffer : Buffer) : Bytes × Buffer :=
  let joined := buffer.chunks.toList.flatten
  if 1 < buffer.chunks.size then (joined, ⟨#[joined], buffer.size⟩) else (joined, buffer)

def describe (buffer : Buffer) : String :=
  "OutputBuffer(chunks=" ++ toString buffer.chunks.size ++ ", size=" ++ toString buffer.size ++ ")"

end Buffer

def Run.buffer (run : Run) : Buffer :=
  run.segments.foldl Buffer.append .empty

end Mustache
