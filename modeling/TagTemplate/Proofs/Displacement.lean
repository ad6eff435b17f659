import Mathlib.Data.List.DropRight
import TagTemplate.Fault
import TagTemplate.Node.Basic

/-!
# Places behind a text

Where a text ends is determined by its length, by the number of its newlines and by the length of
its last line. When a text is put in front of a buffer, the stretches of the buffer move by these:
offsets by the length, lines by the number of newlines, and columns of the first line by the length
of the last line. Templates in bodies and strings keep their places, which belong to other buffers.
-/

namespace TagTemplate

/-- The bytes behind the last newline. -/
def lastLine (text : Bytes) : Bytes :=
  text.rtakeWhile (· ≠ Byte.newline)

theorem lastLine_concat_newline (text : Bytes) : lastLine (text ++ [Byte.newline]) = [] :=
  List.rtakeWhile_concat_neg _ _ _ (by decide)

theorem lastLine_concat_of_ne {b : Byte} (hb : b ≠ Byte.newline) (text : Bytes) :
    lastLine (text ++ [b]) = lastLine text ++ [b] :=
  List.rtakeWhile_concat_pos _ _ _ (by simpa using hb)

/-- A text without a newline goes on with the last line in front of it. -/
theorem lastLine_append (front back : Bytes) :
    lastLine (front ++ back) =
      if back.count Byte.newline = 0 then lastLine front ++ back else lastLine back := by
  -- The last byte decides: a newline starts the line anew, any other byte goes on with it.
  induction back using List.reverseRecOn with
  | nil => simp
  | append_singleton back b ih =>
    rw [← List.append_assoc]
    by_cases hb : b = Byte.newline
    · rw [hb, lastLine_concat_newline, lastLine_concat_newline, if_neg (by simp)]
    · have hCount : (back ++ [b]).count Byte.newline = back.count Byte.newline := by
        simp [hb]
      rw [lastLine_concat_of_ne hb, lastLine_concat_of_ne hb, ih, hCount]
      split
      · exact List.append_assoc _ _ _
      · rfl

namespace Position

/-- The place behind a text that stands at the start of a buffer. -/
def behind (text : Bytes) : Position :=
  ⟨text.length, 1 + text.count Byte.newline, 1 + (lastLine text).length⟩

theorem next_behind (text : Bytes) (b : Byte) : (behind text).next b = behind (text ++ [b]) := by
  unfold next
  split
  · rename_i hb
    subst hb
    simp [behind, lastLine_concat_newline, Nat.add_assoc]
  · rename_i hb
    simp [behind, lastLine_concat_of_ne hb, hb, Nat.add_assoc]

theorem advance_origin (text : Bytes) : origin.advance text = behind text := by
  induction text using List.reverseRecOn with
  | nil => rfl
  | append_singleton text b ih =>
    rw [advance_append, ih]
    exact next_behind text b

/-- The same place when `front` has been put in front of the buffer. -/
def shift (front : Bytes) (p : Position) : Position :=
  ⟨p.offset + front.length, p.line + front.count Byte.newline,
    if p.line = 1 then p.column + (lastLine front).length else p.column⟩

theorem shift_behind (front text : Bytes) : (behind text).shift front = behind (front ++ text) := by
  have hColumn : ((behind text).shift front).column = 1 + (lastLine (front ++ text)).length := by
    rw [lastLine_append]
    by_cases hText : text.count Byte.newline = 0
    · have hWhole : lastLine text = text := by
        have hAll := lastLine_append [] text
        rwa [if_pos hText] at hAll
      simp [shift, behind, hText, hWhole]
      omega
    · simp [shift, behind, hText]
  have hLine : (behind text).line + front.count Byte.newline =
      1 + (front ++ text).count Byte.newline := by
    simp only [behind, List.count_append]
    omega
  have hOffset : text.length + front.length = (front ++ text).length := by
    rw [List.length_append]
    omega
  exact congr (congr (congrArg mk hOffset) hLine) hColumn

end Position

/-- The same stretch when `front` has been put in front of the buffer. -/
def Source.shift (front : Bytes) (s : Source) : Source :=
  ⟨s.line + front.count Byte.newline,
    if s.line = 1 then s.column + (lastLine front).length else s.column,
    s.start + front.length, s.stop + front.length⟩

/-- The bytes of the buffer that the stretch covers. -/
def Source.slice (buffer : Bytes) (s : Source) : Bytes :=
  buffer.slice s.start s.stop

theorem Bytes.slice_append (front text rest : Bytes) :
    (front ++ (text ++ rest)).slice front.length (front ++ text).length = text := by
  rw [slice, ← List.append_assoc, List.take_left, List.drop_left]

theorem Position.shift_to (front : Bytes) (p q : Position) :
    (p.shift front).to (q.shift front) = (p.to q).shift front := rfl

@[simp] theorem Source.shift_nil (s : Source) : s.shift [] = s := by
  simp [shift, lastLine]

@[simp] theorem Source.isEmpty_shift (front : Bytes) (s : Source) :
    (s.shift front).isEmpty = s.isEmpty := by
  simp [isEmpty, shift]

def ParseError.shift (front : Bytes) (e : ParseError) : ParseError :=
  ⟨e.source.shift front, e.cause⟩

namespace Node

mutual

/-- The same node when `front` has been put in front of its buffer. -/
def shift (front : Bytes) : Node → Node
  | raw data s => raw data (s.shift front)
  | tag name parameters body s =>
    tag (name.shift front) (shiftEach front parameters) body (s.shift front)
  | identifier name s => identifier name (s.shift front)
  | int value s => int value (s.shift front)
  | double value s => double value (s.shift front)
  | string template s => string template (s.shift front)
  | expression operator left right s =>
    expression operator (left.shift front) (right.shift front) (s.shift front)

def shiftEach (front : Bytes) : List Node → List Node
  | [] => []
  | node :: nodes => node.shift front :: shiftEach front nodes

end

@[simp] theorem source_shift (front : Bytes) (node : Node) :
    (node.shift front).source = node.source.shift front := by
  cases node <;> rfl

theorem shift_withSource (front : Bytes) (s : Source) (node : Node) :
    (node.withSource s).shift front = (node.shift front).withSource (s.shift front) := by
  cases node <;> rfl

mutual

@[simp] theorem shift_nil : ∀ node : Node, node.shift [] = node
  | raw _ _ | identifier _ _ | int _ _ | double _ _ | string _ _ => by simp [shift]
  | tag name parameters _ _ => by simp [shift, shift_nil name, shiftEach_nil parameters]
  | expression _ left right _ => by simp [shift, shift_nil left, shift_nil right]

theorem shiftEach_nil : ∀ nodes : List Node, shiftEach [] nodes = nodes
  | [] => rfl
  | node :: nodes => by rw [shiftEach, shift_nil node, shiftEach_nil nodes]

end

end Node

end TagTemplate
