import TagTemplate.Proofs.Locality

/-!
# Where nodes come from

Every node of a template, at every depth, was given by a scan over the buffer that it belongs to. A
string belongs to the text that its quotes enclose, and a body to the one between the braces behind
the parameters. So what holds of all that scans give in a buffer holds throughout what is read.
-/

namespace TagTemplate

namespace Cursor

variable {buffer text : Bytes} {c c' : Cursor}

theorem over_iff_reads : Over buffer c ↔ ∃ before, (start buffer).Reads before c :=
  ⟨fun ⟨before, hRest, hPosition⟩ => ⟨before, hRest, hPosition⟩,
    fun ⟨before, hRead⟩ => ⟨before, hRead.rest, hRead.position⟩⟩

theorem Over.reads (h : Over buffer c) (hRead : c.Reads text c') : Over buffer c' := by
  obtain ⟨before, hBefore⟩ := over_iff_reads.mp h
  exact over_iff_reads.mpr ⟨before ++ text, hBefore.trans hRead⟩

theorem Reads.take_offset (h : (start buffer).Reads text c) :
    buffer.take c.position.offset = text := by
  have hBuffer : buffer = text ++ c.rest := h.rest
  rw [h.position_of_start, hBuffer]
  exact List.take_left

theorem Reads.offset_add_length (h : (start buffer).Reads text c) :
    c.position.offset + c.rest.length = buffer.length := by
  have hLength : buffer.length = text.length + c.rest.length := h.length_eq
  rw [h.position_of_start, hLength]
  rfl

theorem Reads.offset_le (h : (start buffer).Reads text c) :
    c.position.offset ≤ buffer.length :=
  Nat.le.intro h.offset_add_length

theorem Over.position_eq (h : Over buffer c) :
    c.position = Position.behind (buffer.take c.position.offset) := by
  obtain ⟨before, hBefore⟩ := over_iff_reads.mp h
  rw [hBefore.take_offset]
  exact hBefore.position_of_start

theorem Over.rest_eq (h : Over buffer c) : c.rest = buffer.drop c.position.offset := by
  obtain ⟨before, hBefore⟩ := over_iff_reads.mp h
  have hBuffer : buffer = before ++ c.rest := hBefore.rest
  conv_rhs => rw [hBefore.position_of_start, hBuffer]
  exact List.drop_left.symm

theorem Over.slice (h : Over buffer c) (hRead : c.Reads text c') :
    buffer.slice c.position.offset c'.position.offset = text := by
  obtain ⟨before, hBefore⟩ := over_iff_reads.mp h
  have hBuffer : buffer = before ++ (text ++ c'.rest) := by
    rw [← hRead.rest]
    exact hBefore.rest
  have hStart := hBefore.position_of_start
  rw [hRead.position_behind hStart, hStart, hBuffer]
  exact Bytes.slice_append before text c'.rest

theorem Reads.offset_eq (h : c.Reads text c') :
    c'.position.offset = c.position.offset + text.length := by
  rw [h.position, Position.offset_advance]

end Cursor

@[simp] theorem Numeral.source_node (numeral : Numeral) (s : Source) :
    (numeral.node s).source = s := by
  cases numeral <;> rfl

namespace Template

open Scan

section

variable (options : Options) (P : Bytes → Node → Prop) (T : Bytes → List Node → Prop)

/-- Holds where the name and its parameters stand in front of a body that is cut out as `text` and
ends at `stop`. -/
def FollowedByBody (buffer : Bytes) (name : Node) (ps : List Node) (stop : Nat)
    (text : Bytes) : Prop :=
  ∃ (gap written : Bytes) (c c' c'' : Cursor), Cursor.Over buffer c ∧
    c.position.offset = name.source.stop ∧ Gives (parameters (read options)) c ps c' ∧
    c'.Reads (gap ++ (Byte.leftBrace :: written ++ [Byte.rightBrace])) c'' ∧ Blank gap ∧
    c''.position.offset = stop ∧ Enclosed Byte.rightBrace options.bodyOpener written text

mutual

/-- Holds where `P` holds of the node and of all nodes in it, and `T` of all templates in it, each
together with the buffer that it belongs to. -/
inductive Throughout : Bytes → Node → Prop
  | raw {buffer data : Bytes} {s : Source} :
      P buffer (.raw data s) → Throughout buffer (.raw data s)
  | tag {buffer : Bytes} {name : Node} {ps : List Node} {s : Source} :
      P buffer (.tag name ps none s) → Throughout buffer name → (∀ p ∈ ps, Throughout buffer p) →
      Throughout buffer (.tag name ps none s)
  | tagWithBody {buffer text : Bytes} {name : Node} {ps body : List Node} {s : Source} :
      P buffer (.tag name ps (some body) s) → Throughout buffer name →
      (∀ p ∈ ps, Throughout buffer p) → FollowedByBody options buffer name ps s.stop text →
      ThroughoutTemplate text body → Throughout buffer (.tag name ps (some body) s)
  | identifier {buffer : Bytes} {name : String} {s : Source} :
      P buffer (.identifier name s) → Throughout buffer (.identifier name s)
  | int {buffer : Bytes} {value : Int} {s : Source} :
      P buffer (.int value s) → Throughout buffer (.int value s)
  | double {buffer : Bytes} {value : Binary64} {s : Source} :
      P buffer (.double value s) → Throughout buffer (.double value s)
  | string {buffer written text : Bytes} {template : List Node} {s : Source} :
      P buffer (.string template s) →
      s.slice buffer = Byte.quote :: written ++ [Byte.quote] →
      Enclosed Byte.quote none written text →
      ThroughoutTemplate text template → Throughout buffer (.string template s)
  | expression {buffer : Bytes} {operator : Operator} {left right : Node} {s : Source} :
      P buffer (.expression operator left right s) → Throughout buffer left →
      Throughout buffer right → Throughout buffer (.expression operator left right s)

inductive ThroughoutTemplate : Bytes → List Node → Prop
  | intro {buffer : Bytes} {nodes : List Node} :
      (read options buffer).result = .ok nodes → T buffer nodes →
      (∀ node ∈ nodes, Throughout buffer node) → ThroughoutTemplate buffer nodes

end

/-- Holds of the nodes that a scan over the buffer gives. -/
inductive Given (buffer : Bytes) : Node → Prop
  | identifier {c c' : Cursor} {node : Node} : Cursor.Over buffer c →
      Gives Template.identifier c node c' → Given buffer node
  | parameter {c c' : Cursor} {node : Node} : Cursor.Over buffer c →
      Gives (Template.parameter (read options)) c (some node) c' → Given buffer node
  | tag {c c' : Cursor} {node : Node} : Cursor.Over buffer c →
      Gives (Template.tag options (read options)) c node c' → Given buffer node
  | raw {c c' : Cursor} {node : Node} : Cursor.Over buffer c →
      Gives (Template.raw options) c node c' → Given buffer node

end

section

variable {options : Options} {nested : Bytes → Reading} {buffer : Bytes} {c c' : Cursor}
  {node : Node}

/-- A parameter starts behind the spaces in front of it and ends where its scan does. -/
theorem source_of_parameter (h : Gives (parameter nested) c (some node) c') :
    ∃ gap d, c.Reads gap d ∧ Blank gap ∧ node.source = d.position.to c'.position ∧
      d.position.offset < c'.position.offset := by
  obtain ⟨gap, d, b, hGap, hBlank, hPeek, -, h⟩ := gives_parameter_some_iff.mp h
  refine ⟨gap, d, hGap, hBlank, ?_⟩
  rcases h with ⟨-, h⟩ | ⟨hDigit, h⟩ | ⟨-, h⟩
  · obtain ⟨written, _, _, -, hRead, -, rfl⟩ := gives_stringParameter_iff.mp h
    refine ⟨rfl, ?_⟩
    rw [hRead.offset_eq, List.length_append]
    exact Nat.lt_add_of_pos_right (Nat.add_pos_right _ Nat.one_pos)
  · obtain ⟨numeral, hNumber, rfl⟩ := gives_numberParameter_iff.mp h
    obtain ⟨run, hRead, -, hNext, -⟩ := gives_number_iff.mp hNumber
    refine ⟨Numeral.source_node numeral _, ?_⟩
    rw [hRead.offset_eq]
    apply Nat.lt_add_of_pos_right
    apply List.length_pos_iff.mpr
    rintro rfl
    obtain rfl := Cursor.reads_nil_iff.mp hRead
    simpa [hDigit] using hNext b hPeek
  · obtain ⟨word, gap', c₁, c₂, hWord, hRead, -, -, hGap', -, -, h⟩ :=
      gives_wordParameter_iff.mp h
    have hLength := List.length_pos_iff.mpr hWord
    have hOffset := (hRead.trans hGap').offset_eq
    rw [List.length_append] at hOffset
    rcases h with ⟨-, rfl, rfl⟩ | ⟨operator, right, c₃, hOperator, hRight, rfl⟩
    · exact ⟨rfl, by omega⟩
    · obtain ⟨others, hOthers⟩ :=
        (advances_parameter nested).reads (gives_operand_parameter_iff.mp hRight)
      have hOffset' := (hOperator.trans hOthers).offset_eq
      exact ⟨rfl, by omega⟩

theorem source_of_given (h : Given options buffer node) :
    ∃ c c' : Cursor, Cursor.Over buffer c ∧ node.source = c.position.to c'.position := by
  cases h with
  | @identifier c c' _ hOver h =>
    obtain ⟨_, -, -, -, rfl⟩ := gives_identifier_iff.mp h
    exact ⟨c, c', hOver, rfl⟩
  | @parameter c c' _ hOver h =>
    obtain ⟨_, d, hGap, -, hSource, -⟩ := source_of_parameter h
    exact ⟨d, c', hOver.reads hGap, hSource⟩
  | @tag c c' _ hOver h =>
    exact ⟨c, c', hOver, source_of_element (gives_element_some_iff.mpr (Or.inl h))⟩
  | @raw c c' _ hOver h =>
    obtain ⟨_, -, -, rfl⟩ := gives_raw_iff.mp h
    exact ⟨c, c', hOver, rfl⟩

end

section

variable {options : Options} {P : Bytes → Node → Prop} {T : Bytes → List Node → Prop}
  {buffer : Bytes} {c c' : Cursor} {node : Node} {n : Nat}
  (hP : ∀ buffer node, Given options buffer node → P buffer node)

include hP

theorem throughout_identifier (hOver : Cursor.Over buffer c)
    (h : Gives identifier c node c') : Throughout options P T buffer node := by
  have hNode := hP buffer node (.identifier hOver h)
  obtain ⟨word, -, -, -, rfl⟩ := gives_identifier_iff.mp h
  exact .identifier hNode

theorem throughout_raw (hOver : Cursor.Over buffer c) (h : Gives (raw options) c node c') :
    Throughout options P T buffer node := by
  have hNode := hP buffer node (.raw hOver h)
  obtain ⟨data, -, -, rfl⟩ := gives_raw_iff.mp h
  exact .raw hNode

variable (hNested : ∀ text template, text.length < n →
    (read options text).result = .ok template → ThroughoutTemplate options P T text template)

include hNested

theorem throughout_parameter (hLe : c.rest.length ≤ n) (hOver : Cursor.Over buffer c)
    (h : Gives (parameter (read options)) c (some node) c') :
    Throughout options P T buffer node := by
  -- Only the right operand is a parameter again, and it stands behind its operator.
  induction hLength : c.rest.length using Nat.strongRecOn generalizing c node with
  | ind m ih =>
    have hNode := hP buffer node (.parameter hOver h)
    obtain ⟨gap, d, b, hGap, -, hPeek, -, h⟩ := gives_parameter_some_iff.mp h
    have hOver' := hOver.reads hGap
    have hGapLength := hGap.length_eq
    rcases h with ⟨-, h⟩ | ⟨-, h⟩ | ⟨-, h⟩
    · obtain ⟨written, text, template, hText, hRead, hResult, rfl⟩ :=
        gives_stringParameter_iff.mp h
      have hLess : text.length < n := by
        have hTextLength := hText.length_lt Byte.quote
        have hReadLength := hRead.length_eq
        omega
      exact .string hNode (hOver'.slice hRead) hText (hNested text template hLess hResult)
    · obtain ⟨numeral, -, rfl⟩ := gives_numberParameter_iff.mp h
      cases numeral with
      | int value => exact .int hNode
      | double value => exact .double hNode
    · obtain ⟨word, gap', c₁, c₂, -, hWord, hAlphanumeric, hNext, hGap', -, -, h⟩ :=
        gives_wordParameter_iff.mp h
      rcases h with ⟨-, rfl, rfl⟩ | ⟨operator, right, c₃, hOperator, hRight, rfl⟩
      · exact .identifier hNode
      · have hLeft := gives_identifier_iff.mpr ⟨word, hWord, hAlphanumeric, hNext, rfl⟩
        have hFront := hWord.trans (hGap'.trans hOperator)
        have hFrontLength := hFront.length_eq
        simp only [List.length_append, List.length_singleton] at hFrontLength
        exact .expression hNode (throughout_identifier hP hOver' hLeft)
          (ih c₃.rest.length (by omega) (by omega) (hOver'.reads hFront)
            (gives_operand_parameter_iff.mp hRight) rfl)

theorem throughout_moreParameters {list : List Node} (hLe : c.rest.length ≤ n)
    (hOver : Cursor.Over buffer c) (h : Gives (moreParameters (read options)) c list c') :
    ∀ p ∈ list, Throughout options P T buffer p := by
  induction hLength : c.rest.length using Nat.strongRecOn generalizing c list with
  | ind m ih =>
    rcases gives_moreParameters_iff.mp h with
      ⟨-, rfl, -⟩ | ⟨next, more, d, d', hComma, hNext, hMore, rfl⟩
    · exact List.forall_mem_nil _
    · obtain ⟨text, hRead⟩ := (advances_parameter (read options)).reads hNext
      have hCommaLength := hComma.length_eq
      have hReadLength := hRead.length_eq
      rw [List.length_singleton] at hCommaLength
      have hOver' := hOver.reads hComma
      refine List.forall_mem_cons.mpr ⟨?_, ?_⟩
      · exact throughout_parameter hP hNested (by omega) hOver' hNext
      · exact ih d'.rest.length (by omega) (by omega) (hOver'.reads hRead) hMore rfl

theorem throughout_parameters {list : List Node} (hLe : c.rest.length ≤ n)
    (hOver : Cursor.Over buffer c) (h : Gives (parameters (read options)) c list c') :
    ∀ p ∈ list, Throughout options P T buffer p := by
  obtain ⟨d, d', hOpen, hList, -⟩ := gives_parameters_iff.mp h
  have hOver' := hOver.reads hOpen
  have hOpenLength := hOpen.length_eq
  rcases gives_parameterList_iff.mp hList with ⟨-, rfl⟩ | ⟨first, more, e, hFirst, hMore, rfl⟩
  · exact List.forall_mem_nil _
  · obtain ⟨text, hRead⟩ := (advances_parameter (read options)).reads hFirst
    have hReadLength := hRead.length_eq
    refine List.forall_mem_cons.mpr ⟨?_, ?_⟩
    · exact throughout_parameter hP hNested (by omega) hOver' hFirst
    · exact throughout_moreParameters hP hNested (by omega) (hOver'.reads hRead) hMore

omit hP in
theorem throughout_body {template : List Node} (hLe : c.rest.length ≤ n)
    (h : Gives (body options (read options)) c template c') :
    ∃ written text, c.Reads (Byte.leftBrace :: written ++ [Byte.rightBrace]) c' ∧
      Enclosed Byte.rightBrace options.bodyOpener written text ∧
      ThroughoutTemplate options P T text template := by
  obtain ⟨written, text, hText, hRead, hResult⟩ := gives_body_iff.mp h
  have hLess : text.length < n := by
    have hTextLength := hText.length_lt Byte.leftBrace
    have hReadLength := hRead.length_eq
    omega
  exact ⟨written, text, hRead, hText, hNested text template hLess hResult⟩

theorem throughout_tag (hLe : c.rest.length ≤ n) (hOver : Cursor.Over buffer c)
    (h : Gives (tag options (read options)) c node c') : Throughout options P T buffer node := by
  have hNode := hP buffer node (.tag hOver h)
  obtain ⟨name, gap, c₁, c₂, c₃, c₄, ps, content, hSigil, hName, hAlphanumeric, hParameters, hGap,
    hBlank, -, hContent, rfl⟩ := gives_tag_iff.mp h
  obtain ⟨list, hList⟩ := (advances_parameters (read options)).reads hParameters
  have hOver₁ := hOver.reads hSigil
  have hOver₂ := hOver₁.reads hName
  have hLe₂ := (hSigil.trans hName).length_eq
  have hLe₄ := (hSigil.trans (hName.trans (hList.trans hGap))).length_eq
  obtain ⟨_, _, hOpen, -⟩ := gives_parameters_iff.mp hParameters
  have hNext := Cursor.stops_of_peek (p := Byte.isAlphanumeric) hOpen.peek_eq rfl
  have hIdentifier := throughout_identifier (T := T) hP hOver₁
    (gives_identifier_iff.mpr ⟨name, hName, hAlphanumeric, hNext, rfl⟩)
  have hEach := throughout_parameters hP hNested (by omega) hOver₂ hParameters
  rcases gives_body?_iff.mp hContent with ⟨-, rfl, rfl⟩ | ⟨template, hBody, rfl⟩
  · exact .tag hNode hIdentifier hEach
  · obtain ⟨written, text, hRead, hText, hTemplate⟩ := throughout_body hNested (by omega) hBody
    refine .tagWithBody hNode hIdentifier hEach ?_ hTemplate
    exact ⟨gap, written, c₂, c₃, c', hOver₂, rfl, hParameters, hGap.trans hRead, hBlank, rfl, hText⟩

theorem throughout_element (hLe : c.rest.length ≤ n) (hOver : Cursor.Over buffer c)
    (h : Gives (element options (read options)) c (some node) c') :
    Throughout options P T buffer node := by
  rcases gives_element_some_iff.mp h with hTag | ⟨-, -, hRaw⟩
  · exact throughout_tag hP hNested hLe hOver hTag
  · exact throughout_raw hP hOver hRaw

theorem throughout_passes {nodes : List Node} (hLe : c.rest.length ≤ n)
    (hOver : Cursor.Over buffer c) (h : Passes options (read options) c nodes c') :
    ∀ node ∈ nodes, Throughout options P T buffer node := by
  induction h with
  | done => exact List.forall_mem_nil _
  | element hElement _ ih =>
    obtain ⟨text, hRead⟩ := (advances_element options (read options)).reads hElement
    have hReadLength := hRead.length_eq
    refine List.forall_mem_cons.mpr ⟨?_, ?_⟩
    · exact throughout_element hP hNested hLe hOver hElement
    · exact ih (by omega) (hOver.reads hRead)

omit hNested in
/-- What holds of all nodes that scans give, and of all templates that are read, holds throughout
what is read. -/
theorem throughout_read {nodes : List Node}
    (hT : ∀ buffer nodes, (read options buffer).result = .ok nodes → T buffer nodes)
    (h : (read options buffer).result = .ok nodes) :
    ThroughoutTemplate options P T buffer nodes := by
  induction hLength : buffer.length using Nat.strongRecOn generalizing buffer nodes with
  | ind n ih =>
    refine .intro h (hT buffer nodes h) ?_
    refine throughout_passes hP ?_ hLength.le (Cursor.over_start buffer) (read_ok_iff_passes.mp h)
    intro text template hLess hResult
    exact ih text.length hLess hResult rfl

end

end Template

end TagTemplate
