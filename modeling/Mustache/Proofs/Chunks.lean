import Mustache.Buffer
import Mustache.Render
import Mustache.Text.Html

/-!
This module contains the buffer of output as what it stands for: one byte string that grows at its end. Whatever is
asked of a buffer and in which order, it answers as this byte string would, though it keeps the bytes in chunks and
their number apart from them.
-/

namespace Mustache

namespace Buffer

variable {buffer : Buffer} {content : Bytes}

inductive Operation where
  | append (data : Bytes)
  | value
  | length
  deriving DecidableEq

inductive Answer where
  | done
  | value (content : Bytes)
  | length (n : Nat)
  deriving DecidableEq

def perform (buffer : Buffer) (operation : Operation) : Answer × Buffer :=
  match operation with
  | .append data => (.done, buffer.append data)
  | .value => (.value buffer.value.1, buffer.value.2)
  | .length => (.length buffer.size, buffer)

/-- The answers to operations one after the other, and the buffer that they leave. -/
def performAll (buffer : Buffer) (operations : List Operation) : List Answer × Buffer :=
  match operations with
  | [] => ([], buffer)
  | operation :: rest =>
    let performed := buffer.perform operation
    let others := performed.2.performAll rest
    (performed.1 :: others.1, others.2)

namespace Operation

def data : Operation → Bytes
  | append data => data
  | value => []
  | length => []

/-- How a byte string answers an operation. -/
def answer (content : Bytes) : Operation → Answer
  | append _ => .done
  | value => .value content
  | length => .length content.length

end Operation

def appended (operations : List Operation) : Bytes :=
  operations.flatMap Operation.data

/-- How a byte string that grows at its end answers operations. -/
def answers (content : Bytes) (operations : List Operation) : List Answer :=
  match operations with
  | [] => []
  | operation :: rest => operation.answer content :: answers (content ++ operation.data) rest

/-- The buffer stands for a byte string: this is what its chunks come to, and none of them is empty. -/
structure Holds (buffer : Buffer) (content : Bytes) : Prop where
  flatten : buffer.chunks.toList.flatten = content
  size : buffer.size = content.length
  nonempty : ∀ chunk ∈ buffer.chunks.toList, chunk ≠ []

theorem holds_empty : empty.Holds [] :=
  ⟨rfl, rfl, by simp [empty]⟩

theorem Holds.append (h : buffer.Holds content) (data : Bytes) : (buffer.append data).Holds (content ++ data) := by
  unfold Buffer.append
  split
  . next hempty =>
    rw [hempty, List.append_nil]
    exact h
  . next hdata =>
    constructor
    . simp [h.flatten]
    . simp [h.size]
    . intro chunk hchunk
      rw [Array.toList_push, List.mem_append, List.mem_singleton] at hchunk
      rcases hchunk with hchunk | rfl
      . exact h.nonempty chunk hchunk
      . exact hdata

theorem Holds.value (h : buffer.Holds content) : buffer.value.1 = content ∧ buffer.value.2.Holds content := by
  unfold Buffer.value
  dsimp only
  split
  . next hmany =>
    refine ⟨h.flatten, by simp [h.flatten], h.size, ?_⟩
    intro chunk hchunk
    rw [List.mem_singleton.mp hchunk]
    -- There is a chunk, and it has bytes, so there are bytes in what all chunks come to.
    have hfirst := h.nonempty buffer.chunks[0] (Array.getElem_mem_toList (by omega))
    intro hjoined
    rw [List.flatten_eq_nil_iff] at hjoined
    exact hfirst (hjoined _ (Array.getElem_mem_toList (by omega)))
  . exact ⟨h.flatten, h⟩

theorem size_chunks_value (buffer : Buffer) : buffer.value.2.chunks.size ≤ 1 := by
  unfold Buffer.value
  dsimp only
  split
  . exact Nat.le_refl 1
  . next hmany => exact Nat.le_of_not_lt hmany

theorem Holds.perform (h : buffer.Holds content) (operation : Operation)
    : (buffer.perform operation).1 = operation.answer content
        ∧ (buffer.perform operation).2.Holds (content ++ operation.data) := by
  cases operation with
  | append data => exact ⟨rfl, h.append data⟩
  | value =>
    unfold Buffer.perform Operation.answer Operation.data
    dsimp only
    rw [h.value.1, List.append_nil]
    exact ⟨rfl, h.value.2⟩
  | length =>
    unfold Buffer.perform Operation.answer Operation.data
    dsimp only
    rw [h.size, List.append_nil]
    exact ⟨rfl, h⟩

theorem Holds.performAll (h : buffer.Holds content) (operations : List Operation)
    : (buffer.performAll operations).1 = answers content operations
        ∧ (buffer.performAll operations).2.Holds (content ++ appended operations) := by
  induction operations generalizing buffer content with
  | nil =>
    unfold appended
    rw [List.flatMap_nil, List.append_nil]
    exact ⟨rfl, h⟩
  | cons operation rest ih =>
    have hfirst := h.perform operation
    have hrest := ih hfirst.2
    unfold Buffer.performAll answers appended
    dsimp only
    rw [hfirst.1, hrest.1, List.flatMap_cons, ← List.append_assoc]
    exact ⟨rfl, hrest.2⟩

theorem Holds.foldl_append (h : buffer.Holds content) (pieces : List Bytes)
    : (pieces.foldl Buffer.append buffer).Holds (content ++ pieces.flatten) := by
  induction pieces generalizing buffer content with
  | nil =>
    rw [List.flatten_nil, List.append_nil]
    exact h
  | cons piece pieces ih =>
    rw [List.foldl_cons, List.flatten_cons, ← List.append_assoc]
    exact ih (h.append piece)

end Buffer

theorem Run.holds_buffer (run : Run) : run.buffer.Holds run.output := by
  have houtput : run.output = run.segments.flatten := by
    unfold Run.output Run.segments
    rw [List.flatMap_def]
  rw [houtput]
  exact Buffer.holds_empty.foldl_append run.segments

namespace Buffer

/--
A buffer answers all operations as the byte string of what was appended to it before, and it stores no empty chunk,
and only one chunk after it was asked for its value. So the buffer of a render that succeeds is as long as the output.
-/
theorem answers_as_bytes
    : (∀ operations,
        (empty.performAll operations).1 = answers [] operations
          ∧ (empty.performAll operations).2.Holds (appended operations)
          ∧ ((empty.performAll operations).2.perform .value).2.chunks.size ≤ 1)
        ∧ ∀ (engine : Engine) (template : Bytes) (context : Context) (output : Bytes),
          (engine.render template context).answer = .ok output →
            (engine.render template context).buffer.value.1 = output
              ∧ (engine.render template context).buffer.size = output.length := by
  refine ⟨?_, ?_⟩
  . intro operations
    have hall := holds_empty.performAll operations
    exact ⟨hall.1, hall.2, size_chunks_value _⟩
  . intro engine template context output hanswer
    have houtput : (engine.render template context).output = output := by
      unfold Run.answer at hanswer
      split at hanswer
      . contradiction
      . injection hanswer
    have hholds := Run.holds_buffer (engine.render template context)
    rw [houtput] at hholds
    exact ⟨hholds.value.1, hholds.size⟩

/-- The comment makes an empty piece of output, which is not stored. -/
theorem answers_as_bytes_of_render
    : let engine : Engine := ⟨Html.escape, .ofTable [(Bytes.ofAscii "p", Bytes.ofAscii "[{{x}}]")]⟩
      let context : Context := fun name => if name = Bytes.ofAscii "x" then .variable (.text "<") else .flag true
      let template := Bytes.ofAscii "{{!c}}a{{#s}}{{>p}}{{/s}}"
      (engine.render template context).answer = .ok (Bytes.ofAscii "a[&lt;]")
        ∧ (engine.render template context).buffer.size = 7 := by
  intro engine context template
  have hanswer : (engine.render template context).answer = .ok (Bytes.ofAscii "a[&lt;]") := by
    have hfailure : (engine.render template context).failure = none := by decide +kernel
    have houtput : (engine.render template context).output = Bytes.ofAscii "a[&lt;]" := by decide +kernel
    unfold Run.answer
    rw [hfailure, houtput]
  exact ⟨hanswer, (answers_as_bytes.2 engine template context _ hanswer).2⟩

end Buffer

end Mustache
