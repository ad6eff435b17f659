import TagTemplate.Proofs.Element
import TagTemplate.Proofs.Translation

/-!
# Reading part of a buffer

A passing reads whole elements, one after the other, from one cursor to another. Reading a buffer
passes to its end, or to the element that fails. What a passing gives depends on the text between
its two cursors and, by one byte at most, on what follows: a raw passage ends at the end of the
buffer or at a sigil, and a tag without a body where neither a space nor a body follows.
-/

namespace TagTemplate

/-- Holds where the node that has been read can end in front of `rest`. -/
def Node.EndsBefore (sigil : Byte) : Node → Bytes → Prop
  | raw data _, rest => Passage.EndsBefore sigil data rest
  | tag _ _ none _, rest =>
    rest.head? ≠ some Byte.space ∧ rest.head? ≠ some Byte.leftBrace
  | _, _ => True

namespace Node

variable {sigil : Byte}

theorem endsBefore_nil (node : Node) : node.EndsBefore sigil [] := by
  cases node with
  | raw => exact Or.inl rfl
  | tag _ _ content _ =>
    cases content with
    | none => exact ⟨nofun, nofun⟩
    | some => trivial
  | _ => trivial

theorem EndsBefore.of_head? {node : Node} {rest rest' : Bytes} (h : node.EndsBefore sigil rest)
    (hHead : rest'.head? = rest.head?) : node.EndsBefore sigil rest' := by
  cases node with
  | raw data _ =>
    rcases h with hNil | ⟨hSigil, hLast⟩
    · rw [hNil, List.head?_nil, List.head?_eq_none_iff] at hHead
      exact Or.inl hHead
    · exact Or.inr ⟨hHead.trans hSigil, hLast⟩
  | tag _ _ content _ =>
    cases content with
    | none =>
      obtain ⟨hSpace, hBrace⟩ := h
      rw [← hHead] at hSpace hBrace
      exact ⟨hSpace, hBrace⟩
    | some => trivial
  | _ => trivial

end Node

namespace Template

open Scan

section

variable {options : Options} {nested : Bytes → Reading} {front text : Bytes} {c c' d d' : Cursor}
  {node : Node} {nodes : List Node}

theorem source_of_element (h : Gives (element options nested) c (some node) c') :
    node.source = c.position.to c'.position := by
  rcases gives_element_some_iff.mp h with hTag | ⟨-, -, hRaw⟩
  · obtain ⟨_, _, _, _, _, _, _, _, -, -, -, -, -, -, -, -, rfl⟩ := gives_tag_iff.mp hTag
    rfl
  · obtain ⟨_, -, -, rfl⟩ := gives_raw_iff.mp hRaw
    rfl

theorem endsBefore_of_element (h : Gives (element options nested) c (some node) c') :
    node.EndsBefore options.sigil.byte c'.rest := by
  rcases gives_element_some_iff.mp h with hTag | ⟨-, -, hRaw⟩
  · obtain ⟨_, _, _, _, _, _, _, content, -, -, -, -, -, -, hSpace, hContent, rfl⟩ :=
      gives_tag_iff.mp hTag
    rcases gives_body?_iff.mp hContent with ⟨hBrace, rfl, rfl⟩ | ⟨_, -, rfl⟩
    · exact ⟨hSpace, hBrace⟩
    · trivial
  · obtain ⟨_, -, hEnd, rfl⟩ := gives_raw_iff.mp hRaw
    exact hEnd

theorem gives_parameters_behind {list : List Node} (h : Gives (parameters nested) c list c')
    (hRead : c.Reads text c') (hBehind : c.Behind front d) (hRead' : d.Reads text d') :
    Gives (parameters nested) d (Node.shiftEach front list) d' := by
  obtain ⟨c₁, c₂, hOpen, hList, hClose⟩ := gives_parameters_iff.mp h
  obtain ⟨inner, hInner⟩ := (advances_parameterList nested).reads hList
  obtain rfl := hRead.text_eq (hOpen.trans (hInner.trans hClose))
  obtain ⟨d₁, hOpen', hRead'⟩ := Cursor.reads_append_iff.mp hRead'
  obtain ⟨d₂, hInner', hClose'⟩ := Cursor.reads_append_iff.mp hRead'
  apply gives_parameters_iff.mpr
  refine ⟨d₁, d₂, hOpen', ?_, hClose'⟩
  -- The list looks at the parenthesis that ends it and at nothing behind that.
  apply translates_parameterList.gives hList hInner (hBehind.reads hOpen hOpen') hInner'
  rw [hClose'.peek_eq, hClose.peek_eq]

theorem gives_tag_behind (h : Gives (tag options nested) c node c')
    (hRead : c.Reads text c') (hBehind : c.Behind front d) (hRead' : d.Reads text d')
    (hEnd : node.EndsBefore options.sigil.byte d'.rest) :
    Gives (tag options nested) d (node.shift front) d' := by
  obtain ⟨name, gap, c₁, c₂, c₃, c₄, list, content, hSigil, hName, hAlphanumeric, hList, hGap,
    hBlank, hSpace, hContent, rfl⟩ := gives_tag_iff.mp h
  obtain ⟨inner, hInner⟩ := (advances_parameters nested).reads hList
  obtain ⟨outer, hOuter⟩ := (advances_body? options nested).reads hContent
  obtain rfl := hRead.text_eq (hSigil.trans (hName.trans (hInner.trans (hGap.trans hOuter))))
  obtain ⟨d₁, hSigil', hRead'⟩ := Cursor.reads_append_iff.mp hRead'
  obtain ⟨d₂, hName', hRead'⟩ := Cursor.reads_append_iff.mp hRead'
  obtain ⟨d₃, hInner', hRead'⟩ := Cursor.reads_append_iff.mp hRead'
  obtain ⟨d₄, hGap', hOuter'⟩ := Cursor.reads_append_iff.mp hRead'
  have hBehind₁ := hBehind.reads hSigil hSigil'
  have hBehind₂ := hBehind₁.reads hName hName'
  have hList' := gives_parameters_behind hList hInner hBehind₂ hInner'
  have hStop := (hBehind.reads hRead (hSigil'.trans (hName'.trans
    (hInner'.trans (hGap'.trans hOuter'))))).position
  apply gives_tag_iff.mpr
  refine ⟨name, gap, d₁, d₂, d₃, d₄, Node.shiftEach front list, content, hSigil', hName',
    hAlphanumeric, hList', hGap', hBlank, ?_, ?_, ?_⟩
  · rcases gives_body?_iff.mp hContent with ⟨hBrace, rfl, rfl⟩ | ⟨template, hBody, rfl⟩
    · obtain rfl := hOuter.text_eq (Cursor.Reads.refl c')
      obtain rfl := Cursor.reads_nil_iff.mp hOuter'
      exact hEnd.1
    · obtain ⟨written, _, -, hBody, -⟩ := gives_body_iff.mp hBody
      obtain rfl := hOuter.text_eq hBody
      rw [hOuter'.peek_eq]
      decide
  · rcases gives_body?_iff.mp hContent with ⟨hBrace, rfl, rfl⟩ | ⟨template, hBody, rfl⟩
    · obtain rfl := hOuter.text_eq (Cursor.Reads.refl c')
      obtain rfl := Cursor.reads_nil_iff.mp hOuter'
      exact gives_body?_iff.mpr (Or.inl ⟨hEnd.2, rfl, rfl⟩)
    · obtain ⟨written, text, hText, hBody, hResult⟩ := gives_body_iff.mp hBody
      obtain rfl := hOuter.text_eq hBody
      exact gives_body?_iff.mpr (Or.inr ⟨template,
        gives_body_iff.mpr ⟨written, text, hText, hOuter', hResult⟩, rfl⟩)
  · rw [hBehind.position, hBehind₁.position, hBehind₂.position, hStop]
    rfl

theorem gives_raw_behind (h : Gives (raw options) c node c')
    (hRead : c.Reads text c') (hBehind : c.Behind front d) (hRead' : d.Reads text d')
    (hEnd : node.EndsBefore options.sigil.byte d'.rest) :
    Gives (raw options) d (node.shift front) d' := by
  obtain ⟨data, hData, -, rfl⟩ := gives_raw_iff.mp h
  obtain rfl := hRead.text_eq hData
  apply gives_raw_iff.mpr
  refine ⟨data, hRead', hEnd, ?_⟩
  rw [hBehind.position, (hBehind.reads hRead hRead').position]
  rfl

/-- An element is read again wherever its text stands and it can end. -/
theorem gives_element_behind (h : Gives (element options nested) c (some node) c')
    (hRead : c.Reads text c') (hBehind : c.Behind front d) (hRead' : d.Reads text d')
    (hEnd : node.EndsBefore options.sigil.byte d'.rest) :
    Gives (element options nested) d (some (node.shift front)) d' := by
  have hText : text ≠ [] := by
    rintro rfl
    obtain rfl := Cursor.reads_nil_iff.mp hRead
    exact Nat.lt_irrefl _ (length_lt_of_element h)
  obtain ⟨b, tail, rfl⟩ := List.exists_cons_of_ne_nil hText
  apply gives_element_some_iff.mpr
  rcases gives_element_some_iff.mp h with hTag | ⟨-, hSigil, hRaw⟩
  · exact Or.inl (gives_tag_behind hTag hRead hBehind hRead' hEnd)
  · right
    refine ⟨?_, ?_, gives_raw_behind hRaw hRead hBehind hRead' hEnd⟩
    · rw [hRead'.rest]
      exact List.cons_ne_nil b _
    · rwa [hRead'.peek_eq, ← hRead.peek_eq]

variable (options nested)

/-- Holds where the elements between two cursors give the nodes. -/
inductive Passes : Cursor → List Node → Cursor → Prop
  | done (c : Cursor) : Passes c [] c
  | element {c d e : Cursor} {node : Node} {nodes : List Node} :
      Gives (element options nested) c (some node) d → Passes d nodes e →
      Passes c (node :: nodes) e

variable {options nested}

theorem Passes.append {e : Cursor} {others : List Node} (h : Passes options nested c nodes d)
    (h' : Passes options nested d others e) : Passes options nested c (nodes ++ others) e := by
  induction h with
  | done => exact h'
  | element hElement _ ih => exact .element hElement (ih h')

theorem passes_append_iff {e : Cursor} {others : List Node} :
    Passes options nested c (nodes ++ others) e ↔
      ∃ d, Passes options nested c nodes d ∧ Passes options nested d others e := by
  constructor
  · intro h
    induction nodes generalizing c with
    | nil => exact ⟨c, .done c, h⟩
    | cons node nodes ih =>
      cases h with
      | element hElement hOthers =>
        obtain ⟨d, hNodes, hOthers⟩ := ih hOthers
        exact ⟨d, .element hElement hNodes, hOthers⟩
  · rintro ⟨d, h, h'⟩
    exact h.append h'

theorem Passes.reads (h : Passes options nested c nodes d) : ∃ text, c.Reads text d := by
  induction h with
  | done c => exact ⟨[], Cursor.Reads.refl c⟩
  | element hElement _ ih =>
    obtain ⟨first, hFirst⟩ := (advances_element options nested).reads hElement
    obtain ⟨others, hOthers⟩ := ih
    exact ⟨first ++ others, hFirst.trans hOthers⟩

theorem Passes.eq_nil (h : Passes options nested c nodes c) : nodes = [] := by
  cases h with
  | done => rfl
  | element hElement hOthers =>
    obtain ⟨text, hText⟩ := hOthers.reads
    have hLess := length_lt_of_element hElement
    rw [hText.length_eq] at hLess
    omega

theorem Passes.elements (h : Passes options nested c nodes d) :
    (elements options nested c).outcome = (elements options nested d).outcome.map (nodes ++ ·) := by
  induction h with
  | done c => cases h : (Template.elements options nested c).outcome <;> rfl
  | element hElement _ ih =>
    rw [elements_of_gives hElement, ih]
    cases (Template.elements options nested _).outcome <;> rfl

theorem elements_cursor_of_nil (h : c.rest = []) : (elements options nested c).cursor = c := by
  have hElement : Gives (element options nested) c none c := gives_element_none_iff.mpr ⟨h, rfl⟩
  obtain ⟨hOutcome, hCursor⟩ := locatedElement_outcome options nested c
  rw [hElement.1] at hOutcome
  rw [elements, hOutcome]
  exact hCursor.trans hElement.2

theorem elements_cursor_of_gives (h : Gives (element options nested) c (some node) c') :
    (elements options nested c).cursor = (elements options nested c').cursor := by
  obtain ⟨hOutcome, hCursor⟩ := locatedElement_outcome options nested c
  rw [h.1] at hOutcome
  rw [h.2] at hCursor
  rw [elements.eq_def options nested c]
  simp only [hOutcome, hCursor, Except.mapError, if_pos (length_lt_of_element h)]

theorem elements_cursor_of_fails {failure : Failure}
    (h : Fails (element options nested) c failure c') :
    (elements options nested c).cursor = c' := by
  obtain ⟨hOutcome, hCursor⟩ := locatedElement_outcome options nested c
  rw [h.1] at hOutcome
  rw [elements, hOutcome]
  exact hCursor.trans h.2

theorem Passes.elements_cursor (h : Passes options nested c nodes d) :
    (Template.elements options nested c).cursor = (Template.elements options nested d).cursor := by
  induction h with
  | done c => rfl
  | element hElement _ ih => rw [elements_cursor_of_gives hElement, ih]

/-- The elements from a cursor on are passed up to the end of the buffer, or up to one that fails
and stops them. -/
theorem elements_stops (options : Options) (nested : Bytes → Reading) (c : Cursor) :
    ∃ nodes d, Passes options nested c nodes d ∧
      (d.rest = [] ∧ (elements options nested c).outcome = .ok nodes ∧
          (elements options nested c).cursor = d ∨
        ∃ failure d', Fails (element options nested) d failure d' ∧
          (elements options nested c).outcome = .error (placed d.position d'.position failure) ∧
          (elements options nested c).cursor = d') := by
  -- Every element takes a byte, so what remains decreases up to the end or to a failure.
  induction hLength : c.rest.length using Nat.strongRecOn generalizing c with
  | ind n ih =>
    rcases gives_or_fails (element options nested) c with ⟨node?, hElement⟩ | ⟨failure, hElement⟩
    · cases node? with
      | none =>
        obtain ⟨hRest, -⟩ := gives_element_none_iff.mp hElement
        exact ⟨[], c, .done c,
          Or.inl ⟨hRest, elements_of_nil hRest, elements_cursor_of_nil hRest⟩⟩
      | some node =>
        have hLess := length_lt_of_element hElement
        obtain ⟨nodes, d, hPasses, hEnd⟩ := ih _ (hLength ▸ hLess) _ rfl
        refine ⟨node :: nodes, d, .element hElement hPasses, ?_⟩
        rw [elements_of_gives hElement, elements_cursor_of_gives hElement]
        rcases hEnd with ⟨hRest, hOutcome, hCursor⟩ | ⟨failure, d', hFails, hOutcome, hCursor⟩
        · exact Or.inl ⟨hRest, by rw [hOutcome]; rfl, hCursor⟩
        · exact Or.inr ⟨failure, d', hFails, by rw [hOutcome]; rfl, hCursor⟩
    · exact ⟨[], c, .done c, Or.inr
        ⟨failure, _, hElement, elements_of_fails hElement, elements_cursor_of_fails hElement⟩⟩

theorem elements_ok_iff_passes :
    (elements options nested c).outcome = .ok nodes ↔
      ∃ d, Passes options nested c nodes d ∧ d.rest = [] := by
  constructor
  · intro h
    obtain ⟨nodes', d, hPasses, ⟨hRest, hOutcome, -⟩ | ⟨_, _, -, hOutcome, -⟩⟩ :=
      elements_stops options nested c
    · rw [h] at hOutcome
      obtain rfl := Except.ok.inj hOutcome
      exact ⟨d, hPasses, hRest⟩
    · rw [h] at hOutcome
      cases hOutcome
  · rintro ⟨d, hPasses, hRest⟩
    rw [hPasses.elements, elements_of_nil hRest]
    exact congrArg Except.ok (List.append_nil nodes)

theorem elements_error_iff {e : ParseError} :
    (elements options nested c).outcome = .error e ↔
      ∃ nodes d failure d', Passes options nested c nodes d ∧
        Fails (element options nested) d failure d' ∧
        e = placed d.position d'.position failure := by
  constructor
  · intro h
    obtain ⟨nodes, d, hPasses, ⟨-, hOutcome, -⟩ | ⟨failure, d', hFails, hOutcome, -⟩⟩ :=
      elements_stops options nested c
    · rw [h] at hOutcome
      cases hOutcome
    · rw [h] at hOutcome
      exact ⟨nodes, d, failure, d', hPasses, hFails, Except.error.inj hOutcome⟩
  · rintro ⟨nodes, d, failure, d', hPasses, hFails, rfl⟩
    rw [hPasses.elements, elements_of_fails hFails]
    rfl

/-- A passing is repeated wherever its text stands and its last node can end. -/
theorem Passes.behind (h : Passes options nested c nodes c')
    (hRead : c.Reads text c') (hBehind : c.Behind front d) (hRead' : d.Reads text d')
    (hEnd : ∀ node ∈ nodes.getLast?, node.EndsBefore options.sigil.byte d'.rest) :
    Passes options nested d (nodes.map (Node.shift front)) d' := by
  induction h generalizing d text with
  | done c =>
    obtain rfl := hRead.text_eq (Cursor.Reads.refl c)
    obtain rfl := Cursor.reads_nil_iff.mp hRead'
    exact .done d'
  | @element c c₁ c' node nodes hElement hOthers ih =>
    obtain ⟨first, hFirst⟩ := (advances_element options nested).reads hElement
    obtain ⟨others, hRest⟩ := hOthers.reads
    obtain rfl := hRead.text_eq (hFirst.trans hRest)
    obtain ⟨d₁, hFirst', hRest'⟩ := Cursor.reads_append_iff.mp hRead'
    have hEndFirst : node.EndsBefore options.sigil.byte d₁.rest := by
      cases others with
      | nil =>
        -- Nothing follows the element, which is then the last one.
        obtain rfl := Cursor.reads_nil_iff.mp hRest
        obtain rfl := Cursor.reads_nil_iff.mp hRest'
        obtain rfl := hOthers.eq_nil
        exact hEnd node rfl
      | cons b others =>
        apply (endsBefore_of_element hElement).of_head?
        rw [hRest.rest, hRest'.rest]
        rfl
    have hEndOthers : ∀ node ∈ nodes.getLast?, node.EndsBefore options.sigil.byte d'.rest := by
      intro last hLast
      apply hEnd last
      cases nodes with
      | nil => cases hLast
      | cons next nodes => rwa [List.getLast?_cons_cons]
    have hNode := gives_element_behind hElement hFirst hBehind hFirst' hEndFirst
    exact .element hNode (ih hRest (hBehind.reads hFirst hFirst') hRest' hEndOthers)

theorem Passes.endsBefore (h : Passes options nested c nodes c') :
    ∀ node ∈ nodes.getLast?, node.EndsBefore options.sigil.byte c'.rest := by
  intro node hNode
  obtain ⟨others, rfl⟩ := List.getLast?_eq_some_iff.mp hNode
  obtain ⟨e, -, hLast⟩ := passes_append_iff.mp h
  cases hLast with
  | element hElement hDone =>
    cases hDone
    exact endsBefore_of_element hElement

theorem Passes.behind_rest (h : Passes options nested c nodes c') (hBehind : c.Behind front d)
    (hRest : d.rest = c.rest) :
    ∃ d', Passes options nested d (nodes.map (Node.shift front)) d' ∧ c'.Behind front d' ∧
      d'.rest = c'.rest := by
  obtain ⟨text, hRead⟩ := h.reads
  obtain ⟨d', hRead', hRest'⟩ := Cursor.exists_reads (hRest.trans hRead.rest)
  refine ⟨d', h.behind hRead hBehind hRead' ?_, hBehind.reads hRead hRead', hRest'⟩
  rw [hRest']
  exact h.endsBefore

/-- A passing from the start is repeated in each buffer that starts with its text. -/
theorem Passes.of_start {buffer buffer' : Bytes}
    (h : Passes options nested (Cursor.start buffer) nodes c)
    (hRead : (Cursor.start buffer).Reads text c) (hRead' : (Cursor.start buffer').Reads text d)
    (hEnd : ∀ node ∈ nodes.getLast?, node.EndsBefore options.sigil.byte d.rest) :
    Passes options nested (Cursor.start buffer') nodes d := by
  have hSame : (Cursor.start buffer).Behind [] (Cursor.start buffer') := ⟨[], rfl, rfl⟩
  have hBehind := h.behind hRead hSame hRead' hEnd
  rwa [List.map_congr_left fun node _ => Node.shift_nil node, List.map_id'] at hBehind

theorem fails_element_behind {failure : Failure} (h : Fails (element options nested) c failure c')
    (hBehind : c.Behind front d) (hRest : d.rest = c.rest) :
    ∃ d', Fails (element options nested) d failure d' ∧ c'.Behind front d' ∧ d'.rest = c'.rest := by
  obtain ⟨text, hRead⟩ := advances_element options nested c
  rw [h.2] at hRead
  obtain ⟨d', hRead', hRest'⟩ := Cursor.exists_reads (hRest.trans hRead.rest)
  refine ⟨d', ?_, hBehind.reads hRead hRead', hRest'⟩
  exact translates_element.fails h hRead hBehind hRead' (congrArg List.head? hRest')

/-- Reading on from a cursor is reading what follows it, up to the text that has come in front. -/
theorem elements_behind_of_ok (h : (elements options nested c).outcome = .ok nodes)
    (hBehind : c.Behind front d) (hRest : d.rest = c.rest) :
    (elements options nested d).outcome = .ok (nodes.map (Node.shift front)) := by
  obtain ⟨e, hPasses, hEnd⟩ := elements_ok_iff_passes.mp h
  obtain ⟨e', hPasses', -, hRest'⟩ := hPasses.behind_rest hBehind hRest
  exact elements_ok_iff_passes.mpr ⟨e', hPasses', hRest'.trans hEnd⟩

theorem elements_behind_of_fails {failure : Failure} (hPasses : Passes options nested c nodes c')
    {stop : Cursor} (hFails : Fails (element options nested) c' failure stop)
    (hBehind : c.Behind front d) (hRest : d.rest = c.rest) :
    (elements options nested d).outcome =
      .error (placed (c'.position.shift front) (stop.position.shift front) failure) := by
  obtain ⟨d', hPasses', hBehind', hRest'⟩ := hPasses.behind_rest hBehind hRest
  obtain ⟨stop', hFails', hStop, -⟩ := fails_element_behind hFails hBehind' hRest'
  rw [elements_error_iff, ← hBehind'.position, ← hStop.position]
  exact ⟨_, d', failure, stop', hPasses', hFails', rfl⟩

theorem elements_behind_cursor (nested : Bytes → Reading) (hBehind : c.Behind front d)
    (hRest : d.rest = c.rest) :
    (elements options nested c).cursor.Behind front (elements options nested d).cursor ∧
      (elements options nested d).cursor.rest = (elements options nested c).cursor.rest := by
  obtain ⟨nodes, e, hPasses, hEnd⟩ := elements_stops options nested c
  obtain ⟨e', hPasses', hBehind', hRest'⟩ := hPasses.behind_rest hBehind hRest
  rw [hPasses'.elements_cursor]
  rcases hEnd with ⟨hNil, -, hCursor⟩ | ⟨failure, stop, hFails, -, hCursor⟩
  · rw [hCursor, elements_cursor_of_nil (hRest'.trans hNil)]
    exact ⟨hBehind', hRest'⟩
  · obtain ⟨stop', hFails', hStop⟩ := fails_element_behind hFails hBehind' hRest'
    rw [hCursor, elements_cursor_of_fails hFails']
    exact hStop

end

section

variable (options : Options) (buffer : Bytes) (e : ParseError)

/-- Holds where reading the buffer ends at a fault that is found in the buffer itself. -/
def OwnError : Prop :=
  ∃ nodes c fault c', Passes options (read options) (Cursor.start buffer) nodes c ∧
    Fails (element options (read options)) c (.bare fault) c' ∧
    e = ⟨c.position.upTo c'.position, fault⟩

/-- Holds where reading the buffer ends with the error of a template that is nested in it. -/
def NestedError : Prop :=
  ∃ nodes c c', Passes options (read options) (Cursor.start buffer) nodes c ∧
    Fails (element options (read options)) c (.located e) c'

end

theorem read_error_iff {options : Options} {buffer : Bytes} {e : ParseError} :
    (read options buffer).result = .error e ↔
      OwnError options buffer e ∨ NestedError options buffer e := by
  rw [read_result, elements_error_iff]
  constructor
  · rintro ⟨nodes, c, failure, c', hPasses, hFails, rfl⟩
    cases failure with
    | bare fault => exact Or.inl ⟨nodes, c, fault, c', hPasses, hFails, rfl⟩
    | located e => exact Or.inr ⟨nodes, c, c', hPasses, hFails⟩
  · rintro (⟨nodes, c, fault, c', hPasses, hFails, rfl⟩ | ⟨nodes, c, c', hPasses, hFails⟩)
    · exact ⟨nodes, c, .bare fault, c', hPasses, hFails, rfl⟩
    · exact ⟨nodes, c, .located e, c', hPasses, hFails, rfl⟩

section

variable {options : Options} {front buffer : Bytes} {d : Cursor} {e : ParseError}

theorem elements_behind_of_own (h : OwnError options buffer e)
    (hBehind : (Cursor.start buffer).Behind front d) (hRest : d.rest = buffer) :
    (elements options (read options) d).outcome = .error (e.shift front) := by
  obtain ⟨nodes, c, fault, c', hPasses, hFails, rfl⟩ := h
  exact elements_behind_of_fails hPasses hFails hBehind hRest

theorem elements_behind_of_nested (h : NestedError options buffer e)
    (hBehind : (Cursor.start buffer).Behind front d) (hRest : d.rest = buffer) :
    (elements options (read options) d).outcome = .error e := by
  obtain ⟨nodes, c, c', hPasses, hFails⟩ := h
  exact elements_behind_of_fails hPasses hFails hBehind hRest

end

theorem read_ok_iff_passes {options : Options} {buffer : Bytes} {nodes : List Node} :
    (read options buffer).result = .ok nodes ↔
      Passes options (read options) (Cursor.start buffer) nodes ⟨Position.behind buffer, []⟩ := by
  rw [read_result, elements_ok_iff_passes]
  constructor
  · rintro ⟨c, hPasses, hRest⟩
    obtain ⟨text, hRead⟩ := hPasses.reads
    have hText : buffer = text := by
      have hBuffer := hRead.rest
      rwa [hRest, List.append_nil] at hBuffer
    rw [← hText] at hRead
    rw [← Position.advance_origin, ← (Cursor.reads_start buffer).skip_eq, hRead.skip_eq]
    exact hPasses
  · intro h
    exact ⟨_, h, rfl⟩

end Template

end TagTemplate
