import TagTemplate.Proofs.Locality

/-!
# Joining and cutting buffers

A buffer that is read to its end can be followed by any other that its last node does not reach
into. Reading both then gives the nodes of the one and those of the other, which have moved behind
it. In the same way a buffer can be cut in front of each of its nodes, and each node is what its own
stretch gives when it is read alone.
-/

namespace TagTemplate

namespace Template

open Scan

/-- Holds where the last of `nodes`, as which `front` has been read, does not reach into `back`. -/
def Seam (sigil : Byte) (front : Bytes) (nodes : List Node) (back : Bytes) : Prop :=
  match nodes.getLast? with
  | some (.raw _ _) =>
    back = [] ∨ back.head? = some sigil ∧ front.getLast? ≠ some Byte.backslash
  | some (.tag _ _ none _) =>
    back.head? ≠ some Byte.space ∧ back.head? ≠ some Byte.leftBrace
  | _ => True

section

variable {options : Options} {front back buffer : Bytes} {nodes : List Node} {c d : Cursor}

theorem behind_of_start {rest rest' : Bytes} :
    Cursor.Behind front (Cursor.start rest) ⟨Position.behind front, rest'⟩ :=
  ⟨[], rfl, congrArg Position.behind (List.append_nil front).symm⟩

theorem reads_start_append (front back : Bytes) :
    (Cursor.start (front ++ back)).Reads front ⟨Position.behind front, back⟩ :=
  ⟨rfl, (Position.advance_origin front).symm⟩

/-- The last byte of a buffer that ends in a raw passage is the last byte of its data. -/
theorem getLast?_of_raw {data : Bytes} {source : Source} {others : List Node}
    (h : Passes options (read options) (Cursor.start front) (others ++ [.raw data source])
      ⟨Position.behind front, []⟩) : data.getLast? = front.getLast? := by
  obtain ⟨c, hOthers, hLast⟩ := passes_append_iff.mp h
  cases hLast with
  | element hElement hDone =>
    cases hDone
    rcases gives_element_some_iff.mp hElement with hTag | ⟨hRest, -, hRaw⟩
    · obtain ⟨_, _, _, _, _, _, _, _, -, -, -, -, -, -, -, -, hNode⟩ := gives_tag_iff.mp hTag
      cases hNode
    · obtain ⟨_, hData, -, hNode⟩ := gives_raw_iff.mp hRaw
      cases hNode
      obtain ⟨text, hText⟩ := hOthers.reads
      have hFront : front = text ++ escape options.sigil.byte data := by
        have hAll := (hText.trans hData).rest
        rwa [List.append_nil] at hAll
      have hNonempty : escape options.sigil.byte data ≠ [] := by
        intro hNil
        apply hRest
        rw [hData.rest, hNil]
        rfl
      rw [hFront, List.getLast?_append_of_ne_nil _ hNonempty, getLast?_escape]

theorem endsBefore_of_seam
    (hPasses : Passes options (read options) (Cursor.start front) nodes
      ⟨Position.behind front, []⟩)
    (hSeam : Seam options.sigil.byte front nodes back) :
    ∀ node ∈ nodes.getLast?, node.EndsBefore options.sigil.byte back := by
  intro node hNode
  have hLast : nodes.getLast? = some node := hNode
  unfold Seam at hSeam
  rw [hLast] at hSeam
  cases node with
  | raw data source =>
    obtain ⟨others, rfl⟩ := List.getLast?_eq_some_iff.mp hLast
    rcases hSeam with hNil | ⟨hSigil, hBackslash⟩
    · exact Or.inl hNil
    · rw [← getLast?_of_raw hPasses] at hBackslash
      exact Or.inr ⟨hSigil, hBackslash⟩
  | tag _ _ content _ =>
    cases content with
    | none => exact hSeam
    | some => trivial
  | _ => trivial

theorem passes_of_seam (hFront : (read options front).result = .ok nodes)
    (hSeam : Seam options.sigil.byte front nodes back) :
    Passes options (read options) (Cursor.start (front ++ back)) nodes
      ⟨Position.behind front, back⟩ := by
  have hPasses := read_ok_iff_passes.mp hFront
  have hAlone := reads_start_append front []
  rw [List.append_nil] at hAlone
  exact hPasses.of_start hAlone (reads_start_append front back) (endsBefore_of_seam hPasses hSeam)

/-- Reading two buffers as one gives the nodes of the first and, moved behind it, what the second
gives: its nodes or its error. An error of a template nested in it keeps its place. -/
theorem read_append (hFront : (read options front).result = .ok nodes)
    (hSeam : Seam options.sigil.byte front nodes back) :
    (∀ others, (read options back).result = .ok others →
      (read options (front ++ back)).result = .ok (nodes ++ others.map (Node.shift front))) ∧
    (∀ e, OwnError options back e →
      (read options (front ++ back)).result = .error (e.shift front)) ∧
    (∀ e, NestedError options back e → (read options (front ++ back)).result = .error e) ∧
    ∀ e, (read options back).result = .error e ↔
      OwnError options back e ∨ NestedError options back e := by
  have hPasses := passes_of_seam hFront hSeam
  have hBehind : Cursor.Behind front (Cursor.start back) ⟨Position.behind front, back⟩ :=
    behind_of_start
  have hElements : (read options (front ++ back)).result =
      (elements options (read options) ⟨Position.behind front, back⟩).outcome.map (nodes ++ ·) := by
    rw [read_result, hPasses.elements]
  refine ⟨fun others hBack => ?_, fun e hOwn => ?_, fun e hNested => ?_, fun e => read_error_iff⟩
  · rw [read_result] at hBack
    rw [hElements, elements_behind_of_ok hBack hBehind rfl]
    rfl
  · rw [hElements, elements_behind_of_own hOwn hBehind rfl]
    rfl
  · rw [hElements, elements_behind_of_nested hNested hBehind rfl]
    rfl

/-- A tag on the second line, and a buffer that goes on behind it. -/
theorem read_append_second_line :
    (read Options.standard [0x78, 0x0A, 0x23, 0x61, 0x28, 0x29]).result =
        .ok [.raw [0x78, 0x0A] ⟨1, 1, 0, 2⟩,
          .tag (.identifier "a" ⟨2, 2, 3, 4⟩) [] none ⟨2, 1, 2, 6⟩] ∧
      (read Options.standard [0x79, 0x23, 0x62, 0x28, 0x63, 0x29]).result =
        .ok [.raw [0x79] ⟨1, 1, 0, 1⟩,
          .tag (.identifier "b" ⟨1, 3, 2, 3⟩) [.identifier "c" ⟨1, 5, 4, 5⟩] none ⟨1, 2, 1, 6⟩] ∧
      (read Options.standard
          ([0x78, 0x0A, 0x23, 0x61, 0x28, 0x29] ++ [0x79, 0x23, 0x62, 0x28, 0x63, 0x29])).result =
        .ok [.raw [0x78, 0x0A] ⟨1, 1, 0, 2⟩,
          .tag (.identifier "a" ⟨2, 2, 3, 4⟩) [] none ⟨2, 1, 2, 6⟩,
          .raw [0x79] ⟨2, 5, 6, 7⟩,
          .tag (.identifier "b" ⟨2, 7, 8, 9⟩) [.identifier "c" ⟨2, 9, 10, 11⟩] none
            ⟨2, 6, 7, 12⟩] := by
  have hFront : (read Options.standard [0x78, 0x0A, 0x23, 0x61, 0x28, 0x29]).result =
      .ok [.raw [0x78, 0x0A] ⟨1, 1, 0, 2⟩,
        .tag (.identifier "a" ⟨2, 2, 3, 4⟩) [] none ⟨2, 1, 2, 6⟩] := by
    with_unfolding_all rfl
  have hBack : (read Options.standard [0x79, 0x23, 0x62, 0x28, 0x63, 0x29]).result =
      .ok [.raw [0x79] ⟨1, 1, 0, 1⟩,
        .tag (.identifier "b" ⟨1, 3, 2, 3⟩) [.identifier "c" ⟨1, 5, 4, 5⟩] none ⟨1, 2, 1, 6⟩] := by
    with_unfolding_all rfl
  exact ⟨hFront, hBack, (read_append hFront ⟨by decide, by decide⟩).1 _ hBack⟩

end

section

variable {options : Options} {front text buffer : Bytes} {nodes before after : List Node}
  {node : Node} {c c' : Cursor}

theorem read_take (h : Passes options (read options) (Cursor.start buffer) nodes c)
    (hRead : (Cursor.start buffer).Reads front c) : (read options front).result = .ok nodes := by
  have hAlone := reads_start_append front []
  rw [List.append_nil] at hAlone
  exact read_ok_iff_passes.mpr (h.of_start hRead hAlone fun node _ => node.endsBefore_nil)

/-- An element that is read from its own text alone is the same, but for its place. -/
theorem read_element_alone (h : Gives (element options (read options)) c (some node) c')
    (hRead : c.Reads text c') (hPosition : c.position = Position.behind front) :
    ∃ moved, (read options text).result = .ok [moved] ∧ node = moved.shift front ∧
      moved.source = (Position.behind []).to (Position.behind text) := by
  -- First what follows the element is taken away, and then what stands in front of it.
  have hSame : c.Behind [] ⟨c.position, text⟩ := ⟨front, hPosition, hPosition⟩
  have hCut : Cursor.Reads ⟨c.position, text⟩ text ⟨c'.position, []⟩ :=
    ⟨(List.append_nil text).symm, hRead.position⟩
  have hAlone := gives_element_behind h hRead hSame hCut node.endsBefore_nil
  rw [Node.shift_nil] at hAlone
  have hMoved : Cursor.Behind front (Cursor.start text) ⟨c.position, text⟩ :=
    ⟨[], rfl, hPosition.trans (congrArg Position.behind (List.append_nil front).symm)⟩
  obtain ⟨moved?, d, hGives, hNode, hRest⟩ := translates_element.of_gives hMoved rfl hAlone
  cases moved? with
  | none => cases hNode
  | some moved =>
    have hPasses := Passes.element hGives (Passes.done d)
    have hResult : (read options text).result = .ok [moved] := by
      rw [read_result, elements_ok_iff_passes]
      exact ⟨d, hPasses, hRest⟩
    refine ⟨moved, hResult, Option.some.inj hNode, ?_⟩
    cases read_ok_iff_passes.mp hResult with
    | element hElement hDone =>
      cases hDone
      exact source_of_element hElement

/-- Every node is read again, at the origin, from the bytes that it covers, and the nodes before it
from the bytes in front of it. -/
theorem read_node_alone (h : (read options buffer).result = .ok (before ++ node :: after)) :
    (∃ moved, (read options (node.source.slice buffer)).result = .ok [moved] ∧
      node = moved.shift (buffer.take node.source.start) ∧
      moved.source = ⟨1, 1, 0, node.source.stop - node.source.start⟩) ∧
    (read options (buffer.take node.source.start)).result = .ok before ∧
    ∀ previous ∈ before.getLast?, previous.source.stop = node.source.start := by
  obtain ⟨c, hBefore, hNode⟩ := passes_append_iff.mp (read_ok_iff_passes.mp h)
  cases hNode with
  | @element _ c' _ _ _ hElement hAfter =>
    obtain ⟨front, hFront⟩ := hBefore.reads
    obtain ⟨text, hText⟩ := (advances_element options (read options)).reads hElement
    have hStart := hFront.position_of_start
    have hStop := hText.position_behind hStart
    have hBuffer : buffer = front ++ (text ++ c'.rest) := by
      rw [← hText.rest]
      exact hFront.rest
    have hSource := source_of_element hElement
    rw [hStart, hStop] at hSource
    have hOffset : node.source.start = front.length := by rw [hSource]; rfl
    have hTake : buffer.take node.source.start = front := by
      rw [hOffset, hBuffer, List.take_left]
    have hSlice : node.source.slice buffer = text := by
      rw [hSource, hBuffer]
      exact Bytes.slice_append front text c'.rest
    refine ⟨?_, ?_, ?_⟩
    · obtain ⟨moved, hResult, hMoved, hOrigin⟩ := read_element_alone hElement hText hStart
      rw [hSlice, hTake]
      refine ⟨moved, hResult, hMoved, ?_⟩
      have hLength : node.source.stop - node.source.start = text.length := by
        rw [hSource]
        change (front ++ text).length - front.length = text.length
        rw [List.length_append, Nat.add_sub_cancel_left]
      rw [hOrigin, hLength]
      rfl
    · rw [hTake]
      exact read_take hBefore hFront
    · intro previous hPrevious
      obtain ⟨others, rfl⟩ := List.getLast?_eq_some_iff.mp hPrevious
      obtain ⟨d, -, hLast⟩ := passes_append_iff.mp hBefore
      cases hLast with
      | element hPreviousElement hDone =>
        cases hDone
        rw [source_of_element hPreviousElement, source_of_element hElement]
        rfl

/-- A tag on the second line with the space behind it, between two other elements. -/
theorem read_node_alone_between :
    (read Options.standard
        [0x78, 0x0A, 0x23, 0x61, 0x28, 0x62, 0x29, 0x20, 0x23, 0x64, 0x28, 0x29]).result =
      .ok ([.raw [0x78, 0x0A] ⟨1, 1, 0, 2⟩] ++
        .tag (.identifier "a" ⟨2, 2, 3, 4⟩) [.identifier "b" ⟨2, 4, 5, 6⟩] none ⟨2, 1, 2, 8⟩ ::
          [.tag (.identifier "d" ⟨2, 8, 9, 10⟩) [] none ⟨2, 7, 8, 12⟩]) ∧
      (∃ moved, (read Options.standard [0x23, 0x61, 0x28, 0x62, 0x29, 0x20]).result = .ok [moved] ∧
        Node.tag (.identifier "a" ⟨2, 2, 3, 4⟩) [.identifier "b" ⟨2, 4, 5, 6⟩] none ⟨2, 1, 2, 8⟩ =
          moved.shift [0x78, 0x0A] ∧
        moved.source = ⟨1, 1, 0, 6⟩) ∧
      (read Options.standard [0x78, 0x0A]).result = .ok [.raw [0x78, 0x0A] ⟨1, 1, 0, 2⟩] := by
  have h : (read Options.standard
      [0x78, 0x0A, 0x23, 0x61, 0x28, 0x62, 0x29, 0x20, 0x23, 0x64, 0x28, 0x29]).result =
    .ok ([.raw [0x78, 0x0A] ⟨1, 1, 0, 2⟩] ++
      .tag (.identifier "a" ⟨2, 2, 3, 4⟩) [.identifier "b" ⟨2, 4, 5, 6⟩] none ⟨2, 1, 2, 8⟩ ::
        [.tag (.identifier "d" ⟨2, 8, 9, 10⟩) [] none ⟨2, 7, 8, 12⟩]) := by
    with_unfolding_all rfl
  obtain ⟨hNode, hBefore, -⟩ := read_node_alone h
  exact ⟨h, hNode, hBefore⟩

end

end Template

end TagTemplate
