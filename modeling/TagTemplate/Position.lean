import TagTemplate.Byte

/-!
# Places in a buffer

Offsets count bytes from zero, lines and columns count from one, and a newline byte ends its
line. A `Source` is the stretch of one buffer that a node covers.
-/

namespace TagTemplate

structure Position where
  offset : Nat
  line : Nat
  column : Nat
  deriving DecidableEq

namespace Position

def origin : Position := ⟨0, 1, 1⟩

def next (p : Position) (b : Byte) : Position :=
  if b = Byte.newline then ⟨p.offset + 1, p.line + 1, 1⟩
  else ⟨p.offset + 1, p.line, p.column + 1⟩

def advance (p : Position) (bytes : Bytes) : Position :=
  bytes.foldl next p

@[simp] theorem advance_nil (p : Position) : p.advance [] = p := rfl

@[simp] theorem advance_cons (p : Position) (b : Byte) (bytes : Bytes) :
    p.advance (b :: bytes) = (p.next b).advance bytes := rfl

theorem advance_append (p : Position) (front back : Bytes) :
    p.advance (front ++ back) = (p.advance front).advance back :=
  List.foldl_append

@[simp] theorem offset_next (p : Position) (b : Byte) : (p.next b).offset = p.offset + 1 := by
  unfold next
  split <;> rfl

theorem offset_advance (p : Position) (bytes : Bytes) :
    (p.advance bytes).offset = p.offset + bytes.length := by
  induction bytes generalizing p with
  | nil => rfl
  | cons b bytes ih =>
    rw [advance_cons, ih, offset_next, List.length_cons]
    omega

end Position

/-- The half-open stretch `start..stop` of a buffer with a line and a column: those of `start`
for a node, those of `stop` for an error. -/
structure Source where
  line : Nat
  column : Nat
  start : Nat
  stop : Nat
  deriving DecidableEq

/-- The stretch from `p` to `q`, placed by its start. -/
def Position.to (p q : Position) : Source :=
  ⟨p.line, p.column, p.offset, q.offset⟩

/-- The stretch from `p` to `q`, placed by its stop. -/
def Position.upTo (p q : Position) : Source :=
  ⟨q.line, q.column, p.offset, q.offset⟩

def Source.isEmpty (s : Source) : Bool :=
  s.stop ≤ s.start

end TagTemplate
