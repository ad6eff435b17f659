import TagTemplate.Fault

/-!
# A place in a buffer and what follows it

A cursor moves over its buffer byte by byte and keeps the place it has come to.
-/

namespace TagTemplate

structure Cursor where
  position : Position
  rest : Bytes
  deriving DecidableEq

namespace Cursor

def start (buffer : Bytes) : Cursor :=
  ⟨Position.origin, buffer⟩

def peek (c : Cursor) : Option Byte :=
  c.rest.head?

/-- The cursor behind the first `n` bytes of the rest. -/
def skip (c : Cursor) (n : Nat) : Cursor :=
  ⟨c.position.advance (c.rest.take n), c.rest.drop n⟩

/-- Holds of the cursors over `buffer`: those that some of its first bytes lead to. -/
def Over (buffer : Bytes) (c : Cursor) : Prop :=
  ∃ before, buffer = before ++ c.rest ∧ c.position = Position.origin.advance before

theorem over_start (buffer : Bytes) : Over buffer (start buffer) :=
  ⟨[], rfl, rfl⟩

theorem Over.skip {buffer : Bytes} {c : Cursor} (h : Over buffer c) (n : Nat) :
    Over buffer (c.skip n) := by
  obtain ⟨before, hBuffer, hPosition⟩ := h
  refine ⟨before ++ c.rest.take n, ?_, ?_⟩
  · rw [Cursor.skip, List.append_assoc, List.take_append_drop, hBuffer]
  · rw [Cursor.skip, Position.advance_append, ← hPosition]

end Cursor

end TagTemplate
