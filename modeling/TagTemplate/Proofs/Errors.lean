import TagTemplate.Proofs.Concatenation
import TagTemplate.Proofs.Interruption
import TagTemplate.Proofs.Provenance

/-!
# What an error tells of its buffer

A buffer is read up to one element that fails. An error of the buffer itself covers that element
from its sigil to the place where the fault is found, and the bytes there bear the fault out. Any
other error is that of a text which has been cut out of the failing element. Unless it stands at the
very end of the buffer, an error stays the same whatever is appended.
-/

namespace TagTemplate

namespace Template

open Scan

section

variable {options : Options} {nested : Bytes → Reading} {nodes nodes' : List Node}
  {failure failure' : Failure} {c d d' e e' : Cursor}

/-- There is one element that fails. -/
theorem Passes.eq_of_fails (h : Passes options nested c nodes d)
    (hFails : Fails (Template.element options nested) d failure e)
    (h' : Passes options nested c nodes' d')
    (hFails' : Fails (Template.element options nested) d' failure' e') :
    nodes = nodes' ∧ d = d' ∧ failure = failure' ∧ e = e' := by
  induction h generalizing nodes' with
  | done =>
    cases h' with
    | done => exact ⟨rfl, rfl, hFails.eq hFails'⟩
    | element hElement _ => exact absurd hElement hFails.not_gives
  | element hElement _ ih =>
    cases h' with
    | done => exact absurd hElement hFails'.not_gives
    | element hElement' hOthers' =>
      obtain ⟨hNode, rfl⟩ := hElement.eq hElement'
      obtain rfl := Option.some.inj hNode
      obtain ⟨rfl, hEnd⟩ := ih hFails hOthers'
      exact ⟨rfl, hEnd⟩

end

section

variable (options : Options) (buffer : Bytes)

/-- Holds where the element behind `nodes`, at `c`, is the one of the buffer that fails. -/
structure StopsAt (nodes : List Node) (c : Cursor) (failure : Failure) (c' : Cursor) : Prop where
  passes : Passes options (read options) (Cursor.start buffer) nodes c
  fails : Fails (element options (read options)) c failure c'

/-- Holds where the text is cut out of a tag of the buffer, right in front of the offset `stop`. -/
def CutOut (text : Bytes) (stop : Nat) : Prop :=
  ∃ nodes c d, Passes options (read options) (Cursor.start buffer) nodes c ∧
    Cuts options (read options) c text d ∧ d.position.offset = stop

/-- Holds where the error covers the front of the element behind `nodes`, and these are what the
buffer in front of it is read as. -/
structure Brackets (e : ParseError) (nodes : List Node) : Prop where
  lt : e.source.start < e.source.stop
  le : e.source.stop ≤ buffer.length
  sigil : buffer[e.source.start]? = some options.sigil.byte
  before : (read options (buffer.take e.source.start)).result = .ok nodes
  stops : ∃ c c', StopsAt options buffer nodes c (.bare e.cause) c' ∧
    c.position.offset = e.source.start ∧ c'.position.offset = e.source.stop

/-- Holds where the error is the one of a text that is cut out of the element behind `nodes`. What
stands in front of that element is read, and so is every other text that is cut out. -/
structure Inherits (e : ParseError) (nodes : List Node) (text : Bytes) (stop : Nat) : Prop where
  error : (read options text).result = .error e
  stops : ∃ c c', StopsAt options buffer nodes c (.located e) c' ∧
    Cuts options (read options) c text c' ∧ c'.position.offset = stop ∧
    (read options (buffer.take c.position.offset)).result = .ok nodes
  others : ∀ text' stop', CutOut options buffer text' stop' → stop' ≠ stop →
    ∃ template, (read options text').result = .ok template

end

section

variable {options : Options} {buffer text : Bytes} {nodes nodes' : List Node} {e : ParseError}
  {failure failure' : Failure} {c c' d d' : Cursor}

theorem StopsAt.eq (h : StopsAt options buffer nodes c failure c')
    (h' : StopsAt options buffer nodes' d failure' d') :
    nodes = nodes' ∧ c = d ∧ failure = failure' ∧ c' = d' :=
  h.passes.eq_of_fails h.fails h'.passes h'.fails

theorem StopsAt.breaksOff (h : StopsAt options buffer nodes c failure c') :
    BreaksOff options (read options) c c' failure := by
  obtain ⟨hSigil, hFails⟩ := fails_element_iff.mp h.fails
  exact breaksOff_of_tag hSigil hFails

/-- What is in front of the failing element, and what is taken of it. -/
theorem StopsAt.reads (h : StopsAt options buffer nodes c failure c') :
    ∃ front taken, (Cursor.start buffer).Reads front c ∧
      c.Reads (options.sigil.byte :: taken) c' := by
  obtain ⟨front, hFront⟩ := h.passes.reads
  obtain ⟨taken, hTaken⟩ := h.breaksOff.reads
  exact ⟨front, taken, hFront, hTaken⟩

theorem StopsAt.offset_add_length (h : StopsAt options buffer nodes c failure c') :
    c'.position.offset + c'.rest.length = buffer.length := by
  obtain ⟨front, taken, hFront, hTaken⟩ := h.reads
  exact (hFront.trans hTaken).offset_add_length

theorem StopsAt.read_take (h : StopsAt options buffer nodes c failure c') :
    (read options (buffer.take c.position.offset)).result = .ok nodes := by
  obtain ⟨front, hFront⟩ := h.passes.reads
  rw [hFront.take_offset]
  exact Template.read_take h.passes hFront

theorem ownError_iff :
    OwnError options buffer e ↔ ∃ nodes c c', StopsAt options buffer nodes c (.bare e.cause) c' ∧
      e.source = c.position.upTo c'.position := by
  constructor
  · rintro ⟨nodes, c, fault, c', hPasses, hFails, rfl⟩
    exact ⟨nodes, c, c', ⟨hPasses, hFails⟩, rfl⟩
  · rintro ⟨nodes, c, c', h, hSource⟩
    refine ⟨nodes, c, e.cause, c', h.passes, h.fails, ?_⟩
    rw [← hSource]

theorem nestedError_iff :
    NestedError options buffer e ↔
      ∃ nodes c c', StopsAt options buffer nodes c (.located e) c' := by
  constructor
  · rintro ⟨nodes, c, c', hPasses, hFails⟩
    exact ⟨nodes, c, c', hPasses, hFails⟩
  · rintro ⟨nodes, c, c', h⟩
    exact ⟨nodes, c, c', h.passes, h.fails⟩

theorem OwnError.not_nested (h : OwnError options buffer e) : ¬NestedError options buffer e := by
  intro h'
  obtain ⟨nodes, c, c', hStops, -⟩ := ownError_iff.mp h
  obtain ⟨nodes', d, d', hStops'⟩ := nestedError_iff.mp h'
  obtain ⟨-, -, hFailure, -⟩ := hStops.eq hStops'
  cases hFailure

theorem StopsAt.brackets (h : StopsAt options buffer nodes c (.bare e.cause) c')
    (hSource : e.source = c.position.upTo c'.position) : Brackets options buffer e nodes := by
  obtain ⟨front, taken, hFront, hTaken⟩ := h.reads
  have hStart : e.source.start = c.position.offset := congrArg Source.start hSource
  have hStop : e.source.stop = c'.position.offset := congrArg Source.stop hSource
  have hTakenLength := hTaken.offset_eq
  have hLength := h.offset_add_length
  rw [List.length_cons] at hTakenLength
  refine ⟨by omega, by omega, ?_, ?_, c, c', h, hStart.symm, hStop.symm⟩
  · have hBuffer : buffer = front ++ c.rest := hFront.rest
    rw [hStart, hFront.position_of_start, hBuffer, hTaken.rest]
    simp [Position.behind]
  · rw [hStart]
    exact h.read_take

theorem StopsAt.inherits (h : StopsAt options buffer nodes c (.located e) c') :
    ∃ text stop, Inherits options buffer e nodes text stop := by
  obtain ⟨text, hCuts, hError⟩ := h.breaksOff
  refine ⟨text, c'.position.offset, hError, ⟨c, c', h, hCuts, rfl, h.read_take⟩, ?_⟩
  rintro text' stop' ⟨nodes', d, d', hPasses', hCuts', rfl⟩ hStop
  cases hResult : (read options text').result with
  | ok template => exact ⟨template, rfl⟩
  | error e' =>
    -- This text would end the reading as well, and so right behind itself.
    obtain ⟨-, -, -, rfl⟩ := h.eq ⟨hPasses', fails_element_of_cuts hCuts' hResult⟩
    exact absurd rfl hStop

/-- A buffer that is not read has one error, which either brackets the failing element of the buffer
itself or is inherited from a text that is cut out of it. -/
theorem error_of_not_ok (h : ∀ nodes, (read options buffer).result ≠ .ok nodes) :
    ∃ e, (read options buffer).result = .error e ∧
      (OwnError options buffer e ∧ ¬NestedError options buffer e ∧
          (∃ nodes, Brackets options buffer e nodes) ∨
        NestedError options buffer e ∧ ¬OwnError options buffer e ∧
          ∃ nodes text stop, Inherits options buffer e nodes text stop) := by
  cases hResult : (read options buffer).result with
  | ok nodes => exact absurd hResult (h nodes)
  | error e =>
    refine ⟨e, rfl, ?_⟩
    rcases read_error_iff.mp hResult with hOwn | hNested
    · obtain ⟨nodes, c, c', hStops, hSource⟩ := ownError_iff.mp hOwn
      exact Or.inl ⟨hOwn, hOwn.not_nested, nodes, hStops.brackets hSource⟩
    · obtain ⟨nodes, c, c', hStops⟩ := nestedError_iff.mp hNested
      obtain ⟨text, stop, hInherits⟩ := hStops.inherits
      exact Or.inr ⟨hNested, fun hOwn => hOwn.not_nested hNested, nodes, text, stop, hInherits⟩

/-- A second string in which a tag breaks off. -/
theorem error_of_not_ok_string :
    let buffer : Bytes :=
      [0x23, 0x61, 0x28, 0x22, 0x78, 0x22, 0x2C, 0x22, 0x23, 0x62, 0x28, 0x22, 0x29]
    let e : ParseError := ⟨⟨1, 4, 0, 3⟩, .endOfInput⟩
    (∀ nodes, (read Options.standard buffer).result ≠ .ok nodes) ∧
      NestedError Options.standard buffer e ∧
      ∃ nodes text stop, Inherits Options.standard buffer e nodes text stop := by
  have hFails : Fails (element Options.standard (read Options.standard))
      (Cursor.start
        [0x23, 0x61, 0x28, 0x22, 0x78, 0x22, 0x2C, 0x22, 0x23, 0x62, 0x28, 0x22, 0x29])
      (.located ⟨⟨1, 4, 0, 3⟩, .endOfInput⟩) ⟨⟨12, 1, 13⟩, [0x29]⟩ :=
    ⟨by with_unfolding_all rfl, by with_unfolding_all rfl⟩
  intro buffer e
  have hNested : NestedError Options.standard buffer e :=
    nestedError_iff.mpr ⟨[], _, _, .done _, hFails⟩
  have hResult : (read Options.standard buffer).result = .error e :=
    read_error_iff.mpr (Or.inr hNested)
  have hNotOk : ∀ nodes, (read Options.standard buffer).result ≠ .ok nodes := by
    intro nodes hOk
    cases hResult.symm.trans hOk
  refine ⟨hNotOk, hNested, ?_⟩
  obtain ⟨e', hResult', hEither⟩ := error_of_not_ok hNotOk
  obtain rfl : e = e' := Except.error.inj (hResult.symm.trans hResult')
  rcases hEither with ⟨hOwn, -⟩ | ⟨-, -, hInherits⟩
  · exact absurd hNested hOwn.not_nested
  · exact hInherits

theorem OwnError.stop_le (h : OwnError options buffer e) : e.source.stop ≤ buffer.length := by
  obtain ⟨nodes, c, c', hStops, hSource⟩ := ownError_iff.mp h
  exact (hStops.brackets hSource).le

theorem OwnError.explains (h : OwnError options buffer e) :
    ∃ before taken rest, buffer = before ++ (taken ++ rest) ∧ e.source.start = before.length ∧
      e.source.stop = (before ++ taken).length ∧ e.cause.Explains taken rest := by
  obtain ⟨nodes, c, c', hStops, hSource⟩ := ownError_iff.mp h
  obtain ⟨taken, hTaken, hExplains⟩ := hStops.breaksOff
  obtain ⟨front, hFront⟩ := hStops.passes.reads
  refine ⟨front, _, c'.rest, ?_, ?_, ?_, hExplains⟩
  · rw [← hTaken.rest]
    exact hFront.rest
  · rw [hSource]
    exact congrArg Position.offset hFront.position_of_start
  · rw [hSource]
    exact congrArg Position.offset (hFront.trans hTaken).position_of_start

theorem OwnError.cause_at_end (h : OwnError options buffer e)
    (hEnd : e.source.stop = buffer.length) :
    e.cause = .endOfInput ∨ ∃ run type, e.cause = .invalidNumber run type := by
  obtain ⟨before, taken, rest, hBuffer, -, hStop, hExplains⟩ := h.explains
  have hRest : rest = [] := by
    have hLength := congrArg List.length hBuffer
    simp only [List.length_append] at hLength hStop
    exact List.length_eq_zero_iff.mp (by omega)
  rw [hRest] at hExplains
  exact hExplains.at_end

/-- The bytes around the place where an error of the buffer itself stops bear its fault out. No such
error asks for a sigil, a comma, a quote or a brace, or names the end of the buffer as the byte that
it has found, and a right operand whose first byte is there is never absent. -/
theorem explains_of_ownError (h : OwnError options buffer e) :
    (∃ before taken rest, buffer = before ++ (taken ++ rest) ∧ e.source.start = before.length ∧
        e.source.stop = (before ++ taken).length ∧ e.cause.Explains taken rest) ∧
      (e.source.stop = buffer.length →
        e.cause = .endOfInput ∨ ∃ run type, e.cause = .invalidNumber run type) ∧
      (∀ b actual what, e.cause = .unexpectedByte (some b) actual what →
        b ∉ [options.sigil.byte, Byte.comma, Byte.quote, Byte.leftBrace, Byte.rightBrace]) ∧
      (∀ expected what, e.cause ≠ .unexpectedByte expected none what) ∧
      ∀ c c', (∀ b, c.peek = some b → startsParameter b = true) →
        ¬Gives (parameter (read options)) c none c' := by
  obtain ⟨before, taken, rest, hBuffer, hStart, hStop, hExplains⟩ := h.explains
  refine ⟨⟨before, taken, rest, hBuffer, hStart, hStop, hExplains⟩, h.cause_at_end, ?_, ?_, ?_⟩
  · intro b actual what hCause
    rw [hCause] at hExplains
    have hb := hExplains.parenthesis
    have hReserved : b.isReserved = true := by
      rcases hb with rfl | rfl <;> rfl
    have hOther : b ∉ [Byte.comma, Byte.quote, Byte.leftBrace, Byte.rightBrace] := by
      rcases hb with rfl | rfl <;> decide
    exact List.not_mem_cons_of_ne_of_not_mem (options.sigil.byte_ne hReserved).symm hOther
  · intro expected what hCause
    rw [hCause] at hExplains
    obtain ⟨⟨_, -, hActual⟩, -⟩ := hExplains
    cases hActual
  · intro c c' hStart
    exact not_gives_parameter_none hStart

/-- A parenthesis that closes a list behind an operator. -/
theorem explains_of_ownError_operand :
    let buffer : Bytes := [0x23, 0x61, 0x28, 0x62, 0x20, 0x2B, 0x20, 0x29]
    let e : ParseError := ⟨⟨1, 8, 0, 7⟩, .missingOperand⟩
    OwnError Options.standard buffer e ∧
      ∃ before taken rest, buffer = before ++ (taken ++ rest) ∧ e.source.start = before.length ∧
        e.source.stop = (before ++ taken).length ∧ e.cause.Explains taken rest := by
  have hFails : Fails (element Options.standard (read Options.standard))
      (Cursor.start [0x23, 0x61, 0x28, 0x62, 0x20, 0x2B, 0x20, 0x29]) (.bare .missingOperand)
      ⟨⟨7, 1, 8⟩, [0x29]⟩ :=
    ⟨by with_unfolding_all rfl, by with_unfolding_all rfl⟩
  intro buffer e
  have hOwn : OwnError Options.standard buffer e :=
    ownError_iff.mpr ⟨[], _, _, ⟨.done _, hFails⟩, rfl⟩
  exact ⟨hOwn, (explains_of_ownError hOwn).1⟩

/-- A reading that has stopped stops again when the buffer goes on, if it has seen why. -/
theorem StopsAt.append (h : StopsAt options buffer nodes c failure c')
    (hFinal : c'.rest ≠ [] ∨ ∃ error, failure = .located error) (back : Bytes) :
    ∃ d d', StopsAt options (buffer ++ back) nodes d failure d' ∧ d.position = c.position ∧
      d'.position = c'.position := by
  obtain ⟨front, taken, hFront, hTaken⟩ := h.reads
  have hBuffer : buffer = front ++ c.rest := hFront.rest
  have hStart : (Cursor.start (buffer ++ back)).rest = front ++ (c.rest ++ back) := by
    rw [← List.append_assoc, ← hBuffer]
    rfl
  obtain ⟨d, hFront', hRest⟩ := Cursor.exists_reads hStart
  have hTag : d.rest = options.sigil.byte :: taken ++ (c'.rest ++ back) := by
    rw [hRest, hTaken.rest, List.append_assoc]
  obtain ⟨d', hTaken', hRest'⟩ := Cursor.exists_reads hTag
  have hBehind : c.Behind [] d := by
    refine ⟨front, hFront.position_of_start, hFront'.position_of_start⟩
  have hPasses : Passes options (read options) (Cursor.start (buffer ++ back)) nodes d := by
    refine h.passes.of_start hFront hFront' fun node hNode => ?_
    apply (h.passes.endsBefore node hNode).of_head?
    rw [hTag, hTaken.rest]
    rfl
  refine ⟨d, d', ⟨hPasses, ?_⟩, ?_, ?_⟩
  · rcases hFinal with hNonempty | ⟨error, rfl⟩
    · apply translates_element.fails h.fails hTaken hBehind hTaken'
      rw [Cursor.peek, hRest', List.head?_append_of_ne_nil _ hNonempty, Cursor.peek]
    · -- The text is cut out again, whatever stands behind it now.
      obtain ⟨text, hCuts, hError⟩ := h.breaksOff
      exact fails_element_of_cuts (hCuts.behind hTaken hBehind hTaken') hError
  · rw [hFront.position_of_start, hFront'.position_of_start]
  · rw [hTaken.position, hTaken'.position, hFront.position_of_start, hFront'.position_of_start]

theorem NestedError.append (h : NestedError options buffer e) (back : Bytes) :
    NestedError options (buffer ++ back) e := by
  obtain ⟨nodes, c, c', hStops⟩ := nestedError_iff.mp h
  obtain ⟨d, d', hStops', -⟩ := hStops.append (Or.inr ⟨e, rfl⟩) back
  exact nestedError_iff.mpr ⟨nodes, d, d', hStops'⟩

theorem OwnError.append (h : OwnError options buffer e) (hStop : e.source.stop < buffer.length)
    (back : Bytes) : OwnError options (buffer ++ back) e := by
  obtain ⟨nodes, c, c', hStops, hSource⟩ := ownError_iff.mp h
  have hRest : c'.rest ≠ [] := by
    have hLength := hStops.offset_add_length
    have hSourceStop : e.source.stop = c'.position.offset := congrArg Source.stop hSource
    exact List.ne_nil_of_length_pos (by omega)
  obtain ⟨d, d', hStops', hStart', hStop'⟩ := hStops.append (Or.inl hRest) back
  refine ownError_iff.mpr ⟨nodes, d, d', hStops', ?_⟩
  rw [hSource, hStart', hStop']

/-- What is appended changes an error only if it is one of the buffer itself that stops at the end
of the buffer. -/
theorem read_append_of_error (h : (read options buffer).result = .error e) :
    (NestedError options buffer e ∨ OwnError options buffer e ∧ e.source.stop < buffer.length →
        ∀ back, (read options (buffer ++ back)).result = .error e) ∧
      ∀ back, (read options (buffer ++ back)).result ≠ .error e →
        OwnError options buffer e ∧ e.source.stop = buffer.length ∧
          (e.cause = .endOfInput ∨ ∃ run type, e.cause = .invalidNumber run type) := by
  have hFinal (hError : NestedError options buffer e ∨
      OwnError options buffer e ∧ e.source.stop < buffer.length) (back : Bytes) :
      (read options (buffer ++ back)).result = .error e := by
    apply read_error_iff.mpr
    rcases hError with hNested | ⟨hOwn, hStop⟩
    · exact Or.inr (hNested.append back)
    · exact Or.inl (hOwn.append hStop back)
  refine ⟨hFinal, ?_⟩
  intro back hChanged
  have hOwn : OwnError options buffer e := by
    apply (read_error_iff.mp h).resolve_right
    intro hNested
    exact hChanged (hFinal (Or.inl hNested) back)
  have hLe : e.source.stop ≤ buffer.length := hOwn.stop_le
  have hNotLess : ¬e.source.stop < buffer.length :=
    fun hLess => hChanged (hFinal (Or.inr ⟨hOwn, hLess⟩) back)
  have hEnd : e.source.stop = buffer.length := by omega
  exact ⟨hOwn, hEnd, hOwn.cause_at_end hEnd⟩

/-- A string with an error at the end of its buffer. -/
theorem read_append_of_error_string :
    let buffer : Bytes := [0x23, 0x61, 0x28, 0x22, 0x23, 0x62, 0x28, 0x22]
    let e : ParseError := ⟨⟨1, 4, 0, 3⟩, .endOfInput⟩
    (read Options.standard buffer).result = .error e ∧ NestedError Options.standard buffer e ∧
      ∀ back, (read Options.standard (buffer ++ back)).result = .error e := by
  have hFails : Fails (element Options.standard (read Options.standard))
      (Cursor.start [0x23, 0x61, 0x28, 0x22, 0x23, 0x62, 0x28, 0x22])
      (.located ⟨⟨1, 4, 0, 3⟩, .endOfInput⟩) ⟨⟨8, 1, 9⟩, []⟩ :=
    ⟨by with_unfolding_all rfl, by with_unfolding_all rfl⟩
  intro buffer e
  have hNested : NestedError Options.standard buffer e :=
    nestedError_iff.mpr ⟨[], _, _, .done _, hFails⟩
  have hResult : (read Options.standard buffer).result = .error e :=
    read_error_iff.mpr (Or.inr hNested)
  exact ⟨hResult, hNested, (read_append_of_error hResult).1 (Or.inl hNested)⟩

end

end Template

end TagTemplate
