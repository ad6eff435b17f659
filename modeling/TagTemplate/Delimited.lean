import TagTemplate.Byte

/-!
# Text up to a delimiter

A passage runs to the first delimiter that no backslash precedes. A backslash in front of the
delimiter is dropped from its content, any other one is kept. With an opener, each opener in the
passage asks for one more delimiter before the one that ends it.
-/

namespace TagTemplate

/-- A passage as written, what it says, and what follows it. -/
structure Passage where
  written : Bytes
  content : Bytes
  rest : Bytes
  deriving DecidableEq

namespace Passage

/-- How many openers wait for their delimiter behind the byte `b`, if `depth` do before it. -/
def depthAfter (delimiter : Byte) (opener : Option Byte) (escaped : Bool) (depth : Nat)
    (b : Byte) : Nat :=
  if b = delimiter ∧ escaped = false then depth - 1
  else if opener = some b then depth + 1
  else depth

/-- What the byte `b` adds to the content. A backslash adds nothing until the byte after it is
known, so `b` adds the one before it, unless it is a delimiter. -/
def contribution (delimiter : Byte) (escaped : Bool) (b : Byte) : Bytes :=
  (if escaped = true ∧ b ≠ delimiter then [Byte.backslash] else []) ++
    (if b = Byte.backslash then [] else [b])

/-- The passage from here on, where `escaped` tells whether a backslash stands right before and
`depth` counts the openers that wait for their delimiter. -/
def scan (delimiter : Byte) (opener : Option Byte) : Bool → Nat → Bytes → Passage
  | escaped, _, [] => ⟨[], if escaped then [Byte.backslash] else [], []⟩
  | escaped, depth, b :: rest =>
    if b = delimiter ∧ escaped = false ∧ depth = 0 then ⟨[], [], b :: rest⟩
    else
      let tail := scan delimiter opener (b = Byte.backslash)
        (depthAfter delimiter opener escaped depth b) rest
      ⟨b :: tail.written, contribution delimiter escaped b ++ tail.content, tail.rest⟩

theorem written_append_rest (delimiter : Byte) (opener : Option Byte) (escaped : Bool)
    (depth : Nat) (bytes : Bytes) :
    let p := scan delimiter opener escaped depth bytes
    p.written ++ p.rest = bytes := by
  induction bytes generalizing escaped depth with
  | nil => rfl
  | cons b rest ih =>
    simp only [scan]
    split
    · rfl
    · exact congrArg (b :: ·) (ih _ _)

end Passage

/-- The passage at the front of `bytes`. -/
def delimited (delimiter : Byte) (opener : Option Byte) (bytes : Bytes) : Passage :=
  Passage.scan delimiter opener false 0 bytes

theorem delimited_written_append_rest (delimiter : Byte) (opener : Option Byte) (bytes : Bytes) :
    (delimited delimiter opener bytes).written ++ (delimited delimiter opener bytes).rest = bytes :=
  Passage.written_append_rest delimiter opener false 0 bytes

/-- Writes one backslash before each delimiter. -/
def escape (delimiter : Byte) (bytes : Bytes) : Bytes :=
  bytes.flatMap fun b => if b = delimiter then [Byte.backslash, b] else [b]

end TagTemplate
