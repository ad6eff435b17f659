import TagTemplate.Proofs.Grammar

/-!
# What is read has a derivation

Each scan that gives a node has taken a text that derives its tree, provided that what the nested
texts give is derived as well. These are shorter than the buffer.
-/

namespace TagTemplate

namespace Grammar

section

open Scan Node

variable {options : Options} {nested : Bytes → Reading} {c c' : Cursor}

/-- Holds where what `nested` reads in the texts below a length has a derivation. -/
def SoundBelow (options : Options) (n : Nat) (nested : Bytes → Reading) : Prop :=
  ∀ text nodes, text.length < n → (nested text).result = .ok nodes →
    Elements options.sigil.byte options.BodyText text (trees nodes)

theorem SoundBelow.mono {m n : Nat} (h : SoundBelow options n nested) (hLe : m ≤ n) :
    SoundBelow options m nested :=
  fun text nodes hLess => h text nodes (by omega)

theorem string_sound {start : Position} {node : Node}
    (hNested : SoundBelow options c.rest.length nested)
    (h : Gives (Template.stringParameter nested start) c node c') :
    ∃ run text ts, c.Reads (Byte.quote :: run ++ [Byte.quote]) c' ∧ Quoted Byte.quote run text ∧
      Elements options.sigil.byte options.BodyText text ts ∧ node.tree = .string ts := by
  obtain ⟨run, text, nodes, hText, hRead, hResult, rfl⟩ := Template.gives_stringParameter_iff.mp h
  have hLess : text.length < c.rest.length := by
    rw [hRead.length_eq]
    exact Nat.lt_add_right _ (hText.length_lt Byte.quote)
  rw [enclosed_none (by decide)] at hText
  exact ⟨run, text, trees nodes, hRead, hText, hNested text nodes hLess hResult, rfl⟩

theorem number_sound {start : Position} {node : Node} {b : Byte}
    (h : Gives (Template.numberParameter start) c node c') (hPeek : c.peek = some b)
    (hDigit : b.isDigit = true) :
    ∃ run numeral, c.Reads run c' ∧ Numeral.Literal run numeral ∧ node.tree = numeral.tree := by
  obtain ⟨numeral, hNumber, rfl⟩ := Template.gives_numberParameter_iff.mp h
  obtain ⟨run, hRead, hBytes, -, hNumeral⟩ := Template.gives_number_iff.mp hNumber
  have hFirst : ∀ b', run.head? = some b' → b'.isDigit = true := by
    intro b' hb'
    obtain ⟨rest, rfl⟩ := List.head?_eq_some_iff.mp hb'
    rw [hRead.peek_eq] at hPeek
    exact Option.some.inj hPeek ▸ hDigit
  have hLiteral := (Numeral.ofRun_eq_ok_iff hBytes hFirst).mp hNumeral
  exact ⟨run, numeral, hRead, hLiteral, Numeral.tree_node _ numeral⟩

/-- A word is derived once the operand behind its operator is. -/
theorem word_sound {start : Position} {node : Node} {b : Byte}
    (h : Gives (Template.wordParameter (Template.parameter nested) start b) c node c')
    (hPeek : c.peek = some b) (hDigit : b.isDigit = false)
    (hOperand : ∀ d right, d.rest.length < c.rest.length →
      Gives (Template.parameter nested) d (some right) c' →
      ∃ run, d.Reads run c' ∧ Parameter options.sigil.byte options.BodyText run right.tree) :
    ∃ word gap run, Word word ∧ Blank gap ∧ c.Reads (word ++ gap ++ run) c' ∧
      (run = [] ∧ node.tree = .identifier word.ascii ∨
        ∃ operator right p, run = Operator.byte operator :: right ∧
          Parameter options.sigil.byte options.BodyText right p ∧
          node.tree = .expression operator (.identifier word.ascii) p) := by
  have hLetter : b.isLetter = true := by
    have hAlphanumeric := Template.isAlphanumeric_of_wordParameter h hPeek
    rwa [Byte.isAlphanumeric, hDigit, Bool.false_or] at hAlphanumeric
  obtain ⟨word, gap, c₁, c₂, hNonempty, hReadWord, hAlphanumeric, -, hReadGap, hGap, -, h⟩ :=
    Template.gives_wordParameter_iff.mp h
  have hWord : Word word := by
    obtain ⟨b', rest, rfl⟩ := List.exists_cons_of_ne_nil hNonempty
    rw [hReadWord.peek_eq] at hPeek
    exact ⟨hAlphanumeric, b', rfl, Option.some.inj hPeek ▸ hLetter⟩
  have hFront := hReadWord.trans hReadGap
  rcases h with ⟨-, rfl, rfl⟩ | ⟨operator, right, c₃, hOperator, hRight, rfl⟩
  · refine ⟨word, gap, [], hWord, hGap, ?_, Or.inl ⟨rfl, rfl⟩⟩
    rwa [List.append_nil]
  · have hLess : c₃.rest.length < c.rest.length := by
      have hFrontLength := hFront.length_eq
      have hOperatorLength := hOperator.length_eq
      rw [List.length_singleton] at hOperatorLength
      omega
    obtain ⟨run, hRun, hParameter⟩ :=
      hOperand c₃ right hLess (Template.gives_operand_parameter_iff.mp hRight)
    exact ⟨word, gap, operator.byte :: run, hWord, hGap, hFront.trans (hOperator.trans hRun),
      Or.inr ⟨operator, run, right.tree, rfl, hParameter, rfl⟩⟩

theorem parameter_sound {node : Node} (hNested : SoundBelow options c.rest.length nested)
    (h : Gives (Template.parameter nested) c (some node) c') :
    ∃ run, c.Reads run c' ∧ Parameter options.sigil.byte options.BodyText run node.tree := by
  -- Only a right operand is a parameter again, and it stands behind its operator.
  induction hLength : c.rest.length using Nat.strongRecOn generalizing c node with
  | ind n ih =>
    obtain ⟨gap, d, b, hRead, hGap, hPeek, -, h⟩ := Template.gives_parameter_some_iff.mp h
    have hLe := hRead.length_eq
    rcases h with ⟨-, h⟩ | ⟨hDigit, h⟩ | ⟨hDigit, h⟩
    · obtain ⟨run, text, ts, hRun, hText, hElements, hTree⟩ :=
        string_sound (hNested.mono (by omega)) h
      rw [hTree]
      refine ⟨gap ++ Byte.quote :: run ++ [Byte.quote], ?_, .string hGap hText hElements⟩
      rw [List.append_assoc]
      exact hRead.trans hRun
    · obtain ⟨run, numeral, hRun, hLiteral, hTree⟩ := number_sound h hPeek hDigit
      rw [hTree]
      exact ⟨gap ++ run, hRead.trans hRun, .number hGap hLiteral⟩
    · have hOperand : ∀ d' right, d'.rest.length < d.rest.length →
          Gives (Template.parameter nested) d' (some right) c' →
          ∃ run, d'.Reads run c' ∧
            Parameter options.sigil.byte options.BodyText run right.tree := by
        intro d' right hLess hRight
        exact ih d'.rest.length (by omega) (hNested.mono (by omega)) hRight rfl
      obtain ⟨word, gap', run, hWord, hGap', hRun, hNode⟩ := word_sound h hPeek hDigit hOperand
      refine ⟨gap ++ (word ++ gap' ++ run), hRead.trans hRun, ?_⟩
      rw [← List.append_assoc, ← List.append_assoc]
      rcases hNode with ⟨rfl, hTree⟩ | ⟨operator, right, p, rfl, hRight, hTree⟩
      · rw [hTree, List.append_nil]
        exact .identifier hGap hWord hGap'
      · rw [hTree]
        exact .expression hGap hWord hGap' hRight

theorem moreParameters_sound {nodes : List Node}
    (hNested : SoundBelow options c.rest.length nested)
    (h : Gives (Template.moreParameters nested) c nodes c') :
    (nodes = [] ∧ c' = c) ∨ ∃ list, c.Reads (Byte.comma :: list) c' ∧
      ParameterList options.sigil.byte options.BodyText list (trees nodes) := by
  induction hLength : c.rest.length using Nat.strongRecOn generalizing c nodes with
  | ind n ih =>
    rcases Template.gives_moreParameters_iff.mp h with
      ⟨-, rfl, rfl⟩ | ⟨next, more, d, d', hComma, hNext, hMore, rfl⟩
    · exact Or.inl ⟨rfl, rfl⟩
    · right
      have hLess : d.rest.length < c.rest.length := by
        rw [hComma.length_eq, List.length_singleton]
        omega
      obtain ⟨run, hRun, hParameter⟩ := parameter_sound (hNested.mono hLess.le) hNext
      have hRunLength := hRun.length_eq
      have hLater := ih d'.rest.length (by omega) (hNested.mono (by omega)) hMore rfl
      rcases hLater with ⟨rfl, rfl⟩ | ⟨list, hList, hParameters⟩
      · exact ⟨run, hComma.trans hRun, .last hParameter⟩
      · exact ⟨run ++ Byte.comma :: list, hComma.trans (hRun.trans hList),
          .more hParameter hParameters⟩

theorem parameterList_sound {nodes : List Node}
    (hNested : SoundBelow options c.rest.length nested)
    (h : Gives (Template.parameterList nested) c nodes c') :
    ∃ list, c.Reads list c' ∧
      Parameters options.sigil.byte options.BodyText list (trees nodes) := by
  rcases Template.gives_parameterList_iff.mp h with
    ⟨hNone, rfl⟩ | ⟨first, more, d, hFirst, hMore, rfl⟩
  · obtain ⟨gap, hRead, hGap, -⟩ := Template.gives_parameter_none_iff.mp hNone
    exact ⟨gap, hRead, .none hGap⟩
  · obtain ⟨run, hRun, hParameter⟩ := parameter_sound hNested hFirst
    have hRunLength := hRun.length_eq
    rcases moreParameters_sound (hNested.mono (by omega)) hMore with
      ⟨rfl, rfl⟩ | ⟨list, hList, hParameters⟩
    · exact ⟨run, hRun, .some (.last hParameter)⟩
    · exact ⟨run ++ Byte.comma :: list, hRun.trans hList, .some (.more hParameter hParameters)⟩

theorem body_sound {nodes : List Node} (hNested : SoundBelow options c.rest.length nested)
    (h : Gives (Template.body options nested) c nodes c') :
    ∃ run text, c.Reads (Byte.leftBrace :: run ++ [Byte.rightBrace]) c' ∧
      options.BodyText run text ∧
      Elements options.sigil.byte options.BodyText text (trees nodes) := by
  obtain ⟨run, text, hText, hRead, hResult⟩ := Template.gives_body_iff.mp h
  have hLess : text.length < c.rest.length := by
    rw [hRead.length_eq]
    exact Nat.lt_add_right _ (hText.length_lt Byte.leftBrace)
  exact ⟨run, text, hRead, hText, hNested text nodes hLess hResult⟩

/-- A tag derives its tree in front of all that it can stand before. -/
theorem tag_sound {node : Node} (hNested : SoundBelow options c.rest.length nested)
    (h : Gives (Template.tag options nested) c node c') {ts : List Tree}
    (hRest : Elements options.sigil.byte options.BodyText c'.rest ts) :
    Elements options.sigil.byte options.BodyText c.rest (node.tree :: ts) := by
  obtain ⟨name, gap, c₁, c₂, c₃, c₄, ps, content, hSigil, hName, hAlphanumeric, hParameters, hGap,
    hBlank, hSpace, hContent, rfl⟩ := Template.gives_tag_iff.mp h
  obtain ⟨d, d', hOpen, hList, hClose⟩ := Template.gives_parameters_iff.mp hParameters
  have hFront := (hSigil.trans hName).trans hOpen
  have hFrontLength := hFront.length_eq
  obtain ⟨list, hRead, hDerived⟩ := parameterList_sound (hNested.mono (by omega)) hList
  have hHead := (hFront.trans hRead).trans (hClose.trans hGap)
  have hHeadLength := hHead.length_eq
  rcases Template.gives_body?_iff.mp hContent with ⟨hBrace, rfl, rfl⟩ | ⟨nodes, hBody, rfl⟩
  · have hTag := Elements.tag hAlphanumeric hDerived hBlank hSpace hBrace hRest
    rw [hHead.rest]
    simpa [tree, bodyTrees] using hTag
  · obtain ⟨run, text, hReadBody, hText, hElements⟩ := body_sound (hNested.mono (by omega)) hBody
    have hTag := Elements.tagWithBody hAlphanumeric hDerived hBlank hText hElements hRest
    rw [hHead.rest, hReadBody.rest]
    simpa [tree, bodyTrees] using hTag

theorem raw_sound {node : Node} (hNonempty : c.rest ≠ [])
    (hSigil : c.peek ≠ some options.sigil.byte) (h : Gives (Template.raw options) c node c')
    {ts : List Tree} (hRest : Elements options.sigil.byte options.BodyText c'.rest ts) :
    Elements options.sigil.byte options.BodyText c.rest (node.tree :: ts) := by
  have hDelimiter := options.sigil.byte_ne_backslash
  obtain ⟨data, hRead, hEnd, rfl⟩ := Template.gives_raw_iff.mp h
  have hRun : escape options.sigil.byte data ≠ [] := by
    intro hNil
    rw [hNil] at hRead
    obtain rfl := Cursor.reads_nil_iff.mp hRead
    exact hEnd.elim hNonempty fun hHead => hSigil hHead.1
  have hHead := head?_escape_ne hDelimiter data
  have hEnd' : Passage.EndsBefore options.sigil.byte (escape options.sigil.byte data) c'.rest := by
    rwa [Passage.EndsBefore, getLast?_escape]
  have hRaw := Elements.raw hRun hHead (guarded_escape hDelimiter data) hEnd' hRest
  rw [unescape_escape hDelimiter] at hRaw
  rwa [hRead.rest]

theorem elements_sound {nodes : List Node} (hNested : SoundBelow options c.rest.length nested)
    (h : (Template.elements options nested c).outcome = .ok nodes) :
    Elements options.sigil.byte options.BodyText c.rest (trees nodes) := by
  induction hLength : c.rest.length using Nat.strongRecOn generalizing c nodes with
  | ind n ih =>
    rcases Template.elements_ok_iff.mp h with ⟨hRest, rfl⟩ | ⟨node, others, d, hNode, hOthers, rfl⟩
    · rw [hRest]
      exact .nil
    · have hLess := Template.length_lt_of_element hNode
      have hRest := ih d.rest.length (by omega) (hNested.mono hLess.le) hOthers rfl
      rcases Template.gives_element_some_iff.mp hNode with hTag | ⟨hNonempty, hSigil, hRaw⟩
      · exact tag_sound hNested hTag hRest
      · exact raw_sound hNonempty hSigil hRaw hRest

theorem read_sound {buffer : Bytes} {nodes : List Node}
    (h : (Template.read options buffer).result = .ok nodes) :
    Elements options.sigil.byte options.BodyText buffer (trees nodes) := by
  induction hLength : buffer.length using Nat.strongRecOn generalizing buffer nodes with
  | ind n ih =>
    have hNested : SoundBelow options (Cursor.start buffer).rest.length (Template.read options) :=
      fun text nodes hLess hText => ih text.length (hLength ▸ hLess) hText rfl
    rw [Template.read_result] at h
    exact elements_sound hNested h

end

end Grammar

end TagTemplate
