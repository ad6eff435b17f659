import TagTemplate.Proofs.Soundness

/-!
# What has a derivation is read

A scan that starts in front of a derived text takes exactly that text, since what follows it stops
every longest match at its end. So a buffer is read exactly if it has a derivation, and its trees
are the ones that are derived.
-/

namespace TagTemplate

namespace Grammar

open Scan Node

section

variable {options : Options} {nested : Bytes → Reading} {c c' : Cursor}

/-- Holds of what can follow a parameter. -/
def Closes (next : Option Byte) : Prop :=
  next = some Byte.comma ∨ next = some Byte.rightParenthesis

theorem Closes.stops {next : Option Byte} (h : Closes next) {p : Byte → Bool}
    (hComma : p Byte.comma = false) (hParenthesis : p Byte.rightParenthesis = false) :
    ∀ b, next = some b → p b = false := by
  rintro b rfl
  rcases h with h | h
  · exact Option.some.inj h ▸ hComma
  · exact Option.some.inj h ▸ hParenthesis

/-- A gap behind a word does not prolong it. -/
theorem word_stops {gap : Bytes} (hGap : Blank gap) (hRead : c.Reads gap c')
    (hNext : ∀ b, c'.peek = some b → b.isAlphanumeric = false) :
    ∀ b, c.peek = some b → b.isAlphanumeric = false := by
  rcases hGap.peek_of_reads hRead with hPeek | hPeek
  · exact Cursor.stops_of_peek hPeek rfl
  · rwa [hPeek]

theorem string_complete {gap run text : Bytes} {nodes : List Node} (hGap : Blank gap)
    (hText : Quoted Byte.quote run text) (hNodes : (nested text).result = .ok nodes)
    (hRead : c.Reads (gap ++ Byte.quote :: run ++ [Byte.quote]) c') :
    ∃ node, Gives (Template.parameter nested) c (some node) c' ∧
      node.tree = .string (trees nodes) := by
  rw [← enclosed_none (by decide)] at hText
  rw [List.append_assoc] at hRead
  obtain ⟨d, hReadGap, hReadString⟩ := Cursor.reads_append_iff.mp hRead
  have hString : Gives (Template.stringParameter nested d.position) d
      (.string nodes (d.position.to c'.position)) c' :=
    Template.gives_stringParameter_iff.mpr ⟨run, text, nodes, hText, hReadString, hNodes, rfl⟩
  refine ⟨.string nodes (d.position.to c'.position), ?_, rfl⟩
  exact Template.gives_parameter_some_iff.mpr ⟨gap, d, Byte.quote, hReadGap, hGap,
    hReadString.peek_eq, by decide, Or.inl ⟨rfl, hString⟩⟩

theorem number_complete {gap run : Bytes} {numeral : Numeral} (hGap : Blank gap)
    (hLiteral : Numeral.Literal run numeral) (hRead : c.Reads (gap ++ run) c')
    (hClose : Closes c'.peek) :
    ∃ node, Gives (Template.parameter nested) c (some node) c' ∧ node.tree = numeral.tree := by
  obtain ⟨d, hReadGap, hReadRun⟩ := Cursor.reads_append_iff.mp hRead
  have hNumber : Gives Template.number d numeral c' :=
    Template.gives_number_iff.mpr ⟨run, hReadRun, hLiteral.isDigit_or,
      hClose.stops rfl rfl, Numeral.ofRun_of_literal hLiteral⟩
  obtain ⟨b, rest, rfl, hDigit⟩ := hLiteral.head
  have hSpace : b ≠ Byte.space := by
    rintro rfl
    cases hDigit
  refine ⟨numeral.node (d.position.to c'.position), ?_, Numeral.tree_node _ numeral⟩
  exact Template.gives_parameter_some_iff.mpr ⟨gap, d, b, hReadGap, hGap, hReadRun.peek_eq, hSpace,
    Or.inr (Or.inl ⟨hDigit, Template.gives_numberParameter_iff.mpr ⟨numeral, hNumber, rfl⟩⟩)⟩

theorem parameter_of_word {gap word : Bytes} {d : Cursor} {node : Node} (hGap : Blank gap)
    (hReadGap : c.Reads gap d) (hWord : Word word) {c₁ : Cursor} (hReadWord : d.Reads word c₁)
    (h : ∀ b, Gives (Template.wordParameter (Template.parameter nested) d.position b) d node c') :
    Gives (Template.parameter nested) c (some node) c' := by
  obtain ⟨b, hHead, hLetter⟩ := hWord.letter
  obtain ⟨rest, rfl⟩ := List.head?_eq_some_iff.mp hHead
  have hSpace : b ≠ Byte.space := by
    rintro rfl
    cases hLetter
  exact Template.gives_parameter_some_iff.mpr ⟨gap, d, b, hReadGap, hGap, hReadWord.peek_eq, hSpace,
    Or.inr (Or.inr ⟨Byte.isDigit_of_isLetter hLetter, h b⟩)⟩

theorem identifier_complete {gap word gap' : Bytes} (hGap : Blank gap) (hWord : Word word)
    (hGap' : Blank gap') (hRead : c.Reads (gap ++ word ++ gap') c') (hClose : Closes c'.peek) :
    ∃ node, Gives (Template.parameter nested) c (some node) c' ∧
      node.tree = .identifier word.ascii := by
  obtain ⟨c₁, hRead, hReadGap'⟩ := Cursor.reads_append_iff.mp hRead
  obtain ⟨d, hReadGap, hReadWord⟩ := Cursor.reads_append_iff.mp hRead
  have hStops := word_stops hGap' hReadGap' (hClose.stops rfl rfl)
  have hSpace : c'.peek ≠ some Byte.space := by
    rcases hClose with hPeek | hPeek <;> rw [hPeek] <;> decide
  have hOperator : c'.peek.bind Operator.ofByte? = none := by
    rcases hClose with hPeek | hPeek <;> rw [hPeek] <;> rfl
  refine ⟨.identifier word.ascii (d.position.to c'.position), ?_, rfl⟩
  refine parameter_of_word hGap hReadGap hWord hReadWord fun b => ?_
  exact Template.gives_wordParameter_iff.mpr ⟨word, gap', c₁, c', hWord.ne_nil, hReadWord,
    hWord.alphanumeric, hStops, hReadGap', hGap', hSpace, Or.inl ⟨hOperator, rfl, rfl⟩⟩

theorem expression_complete {gap word gap' : Bytes} {operator : Operator} {right : Node}
    {c₃ : Cursor} (hGap : Blank gap) (hWord : Word word) (hGap' : Blank gap')
    (hRead : c.Reads (gap ++ word ++ gap' ++ [operator.byte]) c₃)
    (hRight : Gives (Template.parameter nested) c₃ (some right) c') :
    ∃ node, Gives (Template.parameter nested) c (some node) c' ∧
      node.tree = .expression operator (.identifier word.ascii) right.tree := by
  obtain ⟨c₂, hRead, hReadOperator⟩ := Cursor.reads_append_iff.mp hRead
  obtain ⟨c₁, hRead, hReadGap'⟩ := Cursor.reads_append_iff.mp hRead
  obtain ⟨d, hReadGap, hReadWord⟩ := Cursor.reads_append_iff.mp hRead
  have hNext : ∀ b, c₂.peek = some b → b.isAlphanumeric = false :=
    Cursor.stops_of_peek hReadOperator.peek_eq (by cases operator <;> rfl)
  have hStops := word_stops hGap' hReadGap' hNext
  have hSpace : c₂.peek ≠ some Byte.space := by
    rw [hReadOperator.peek_eq]
    cases operator <;> decide
  refine ⟨.expression operator (.identifier word.ascii (d.position.to c₁.position)) right
    (d.position.to c'.position), ?_, rfl⟩
  refine parameter_of_word hGap hReadGap hWord hReadWord fun b => ?_
  exact Template.gives_wordParameter_iff.mpr ⟨word, gap', c₁, c₂, hWord.ne_nil, hReadWord,
    hWord.alphanumeric, hStops, hReadGap', hGap', hSpace, Or.inr ⟨operator, right, c₃,
      hReadOperator, Template.gives_operand_parameter_iff.mpr hRight, rfl⟩⟩

theorem raw_complete {run rest : Bytes} (hRun : run ≠ [])
    (hHead : run.head? ≠ some options.sigil.byte) (hGuarded : Guarded options.sigil.byte run)
    (hEnd : Passage.EndsBefore options.sigil.byte run rest) (hRead : c.Reads run c')
    (hRest : c'.rest = rest) :
    ∃ node, Gives (Template.element options nested) c (some node) c' ∧
      node.tree = .raw (unescape options.sigil.byte run) := by
  have hDelimiter := options.sigil.byte_ne_backslash
  have hEscape := escape_unescape hDelimiter run hGuarded
  have hNonempty : c.rest ≠ [] := by
    rw [hRead.rest]
    exact List.append_ne_nil_of_left_ne_nil hRun _
  have hSigil : c.peek ≠ some options.sigil.byte := by
    rwa [Cursor.peek, hRead.rest, List.head?_append_of_ne_nil _ hRun]
  have hRaw : Gives (Template.raw options) c
      (.raw (unescape options.sigil.byte run) (c.position.to c'.position)) c' := by
    refine Template.gives_raw_iff.mpr ⟨_, hEscape.symm ▸ hRead, ?_, rfl⟩
    rwa [Passage.EndsBefore, ← getLast?_escape, hEscape, hRest]
  exact ⟨_, Template.gives_element_some_iff.mpr (Or.inr ⟨hNonempty, hSigil, hRaw⟩), rfl⟩

/-- A tag up to the place where a body can open, and what is found there. -/
theorem tag_complete {name list gap : Bytes} {ps : List Tree} {body : Option (List Tree)}
    {c₁ : Cursor} (hName : Template.Alphanumeric name) (hGap : Blank gap)
    (hHead : c.Reads (options.sigil.byte :: name ++ Byte.leftParenthesis :: list ++
      Byte.rightParenthesis :: gap) c₁)
    (hList : ∀ d d' : Cursor, d.Reads list d' → d'.peek = some Byte.rightParenthesis →
      ∃ nodes, Gives (Template.parameterList nested) d nodes d' ∧ trees nodes = ps)
    (hSpace : c₁.peek ≠ some Byte.space)
    (hBody : ∃ content, Gives (Template.body? options nested) c₁ content c' ∧
      bodyTrees content = body) :
    ∃ node, Gives (Template.element options nested) c (some node) c' ∧
      node.tree = .tag (.identifier name.ascii) ps body := by
  obtain ⟨d', hFront, hBack⟩ := Cursor.reads_append_iff.mp hHead
  obtain ⟨c₄, hClose, hReadGap⟩ := Cursor.reads_cons_iff.mp hBack
  obtain ⟨c₃, hFront, hBack⟩ := Cursor.reads_append_iff.mp hFront
  obtain ⟨d, hOpen, hReadList⟩ := Cursor.reads_cons_iff.mp hBack
  obtain ⟨c₂, hSigil, hReadName⟩ := Cursor.reads_cons_iff.mp hFront
  obtain ⟨nodes, hNodes, rfl⟩ := hList d d' hReadList hClose.peek_eq
  obtain ⟨content, hContent, rfl⟩ := hBody
  have hParameters : Gives (Template.parameters nested) c₃ nodes c₄ :=
    Template.gives_parameters_iff.mpr ⟨d, d', hOpen, hNodes, hClose⟩
  have hTag : Gives (Template.tag options nested) c
      (.tag (.identifier name.ascii (c₂.position.to c₃.position)) nodes content
        (c.position.to c'.position)) c' :=
    Template.gives_tag_iff.mpr ⟨name, gap, c₂, c₃, c₄, c₁, nodes, content, hSigil, hReadName, hName,
      hParameters, hReadGap, hGap, hSpace, hContent, rfl⟩
  exact ⟨_, Template.gives_element_some_iff.mpr (Or.inl hTag), rfl⟩

theorem elements_cons_complete {node : Node} {ts : List Tree}
    (hNode : Gives (Template.element options nested) c (some node) c')
    (hOthers : ∃ nodes, (Template.elements options nested c').outcome = .ok nodes ∧
      trees nodes = ts) :
    ∃ nodes, (Template.elements options nested c).outcome = .ok nodes ∧
      trees nodes = node.tree :: ts := by
  obtain ⟨others, hOthers, rfl⟩ := hOthers
  exact ⟨node :: others,
    Template.elements_ok_iff.mpr (Or.inr ⟨node, others, c', hNode, hOthers, rfl⟩), rfl⟩

end

/-! The recursion is on derivations. A text that is cut out has one of its own, so it is read from
its own start, and no measure on the buffers is needed. -/

mutual

theorem elements_complete {options : Options} : ∀ {buffer : Bytes} {ts : List Tree},
    Elements options.sigil.byte options.BodyText buffer ts → ∀ c : Cursor, c.rest = buffer →
    ∃ nodes, (Template.elements options (Template.read options) c).outcome = .ok nodes ∧
      trees nodes = ts
  | _, _, .nil, c, hRest => ⟨[], Template.elements_of_nil hRest, rfl⟩
  | _, _, .raw hRun hHead hGuarded hEnd hElements, c, hRest => by
    obtain ⟨c', hRead, hRest'⟩ := Cursor.exists_reads hRest
    obtain ⟨node, hNode, hTree⟩ := raw_complete hRun hHead hGuarded hEnd hRead hRest'
    rw [← hTree]
    exact elements_cons_complete hNode (elements_complete hElements c' hRest')
  | _, _, .tag hName hParameters hGap hSpace hBrace hElements, c, hRest => by
    obtain ⟨c', hHead, hRest'⟩ := Cursor.exists_reads hRest
    rw [← hRest'] at hSpace hBrace
    have hNone : Gives (Template.body? options (Template.read options)) c' none c' :=
      Template.gives_body?_iff.mpr (Or.inl ⟨hBrace, rfl, rfl⟩)
    obtain ⟨node, hNode, hTree⟩ := tag_complete hName hGap hHead
      (fun d d' => parameters_complete hParameters) hSpace ⟨none, hNone, bodyTrees.eq_1⟩
    rw [← hTree]
    exact elements_cons_complete hNode (elements_complete hElements c' hRest')
  | _, _, .tagWithBody hName hParameters hGap hText hBody hElements, c, hRest => by
    rw [List.append_assoc] at hRest
    obtain ⟨c₁, hHead, hRest₁⟩ := Cursor.exists_reads hRest
    rw [List.append_cons] at hRest₁
    obtain ⟨c', hReadBody, hRest'⟩ := Cursor.exists_reads hRest₁
    obtain ⟨nodes, hNodes, hTrees⟩ := elements_complete hBody (Cursor.start _) rfl
    rw [← Template.read_result] at hNodes
    have hSome : Gives (Template.body? options (Template.read options)) c₁ (some nodes) c' :=
      Template.gives_body?_iff.mpr (Or.inr ⟨nodes,
        Template.gives_body_iff.mpr ⟨_, _, hText, hReadBody, hNodes⟩, rfl⟩)
    have hSpace : c₁.peek ≠ some Byte.space := by
      rw [hReadBody.peek_eq]
      decide
    obtain ⟨node, hNode, hTree⟩ := tag_complete hName hGap hHead
      (fun d d' => parameters_complete hParameters) hSpace ⟨some nodes, hSome, congrArg some hTrees⟩
    rw [← hTree]
    exact elements_cons_complete hNode (elements_complete hElements c' hRest')
termination_by structural _ _ h => h

theorem parameters_complete {options : Options} : ∀ {list : Bytes} {ps : List Tree},
    Parameters options.sigil.byte options.BodyText list ps → ∀ {c c' : Cursor}, c.Reads list c' →
    c'.peek = some Byte.rightParenthesis →
    ∃ nodes, Gives (Template.parameterList (Template.read options)) c nodes c' ∧ trees nodes = ps
  | _, _, .none hGap, _, _, hRead, hClose =>
    ⟨[], Template.gives_parameterList_iff.mpr (Or.inl ⟨Template.gives_parameter_none_iff.mpr
      ⟨_, hRead, hGap, hClose⟩, rfl⟩), rfl⟩
  | _, _, .some hList, c, c', hRead, hClose => by
    obtain ⟨first, more, d, hFirst, hMore, hTrees⟩ := parameterList_complete hList hRead hClose
    exact ⟨first :: more, Template.gives_parameterList_iff.mpr
      (Or.inr ⟨first, more, d, hFirst, hMore, rfl⟩), hTrees⟩
termination_by structural _ _ h => h

theorem parameterList_complete {options : Options} : ∀ {list : Bytes} {ps : List Tree},
    ParameterList options.sigil.byte options.BodyText list ps → ∀ {c c' : Cursor},
    c.Reads list c' → c'.peek = some Byte.rightParenthesis →
    ∃ first more d, Gives (Template.parameter (Template.read options)) c (some first) d ∧
      Gives (Template.moreParameters (Template.read options)) d more c' ∧
      trees (first :: more) = ps
  | _, _, .last hParameter, c, c', hRead, hClose => by
    obtain ⟨node, hNode, rfl⟩ := parameter_complete hParameter hRead (Or.inr hClose)
    have hComma : c'.peek ≠ some Byte.comma := by
      rw [hClose]
      decide
    exact ⟨node, [], c', hNode,
      Template.gives_moreParameters_iff.mpr (Or.inl ⟨hComma, rfl, rfl⟩), rfl⟩
  | _, _, .more hParameter hList, c, c', hRead, hClose => by
    obtain ⟨d, hReadRun, hReadList⟩ := Cursor.reads_append_iff.mp hRead
    obtain ⟨d', hComma, hReadList⟩ := Cursor.reads_cons_iff.mp hReadList
    obtain ⟨node, hNode, rfl⟩ := parameter_complete hParameter hReadRun (Or.inl hComma.peek_eq)
    obtain ⟨next, more, e, hNext, hMore, rfl⟩ := parameterList_complete hList hReadList hClose
    exact ⟨node, next :: more, d, hNode, Template.gives_moreParameters_iff.mpr
      (Or.inr ⟨next, more, d', e, hComma, hNext, hMore, rfl⟩), rfl⟩
termination_by structural _ _ h => h

theorem parameter_complete {options : Options} : ∀ {run : Bytes} {p : Tree},
    Parameter options.sigil.byte options.BodyText run p → ∀ {c c' : Cursor}, c.Reads run c' →
    Closes c'.peek →
    ∃ node, Gives (Template.parameter (Template.read options)) c (some node) c' ∧ node.tree = p
  | _, _, .string hGap hText hElements, c, c', hRead, _ => by
    obtain ⟨nodes, hNodes, rfl⟩ := elements_complete hElements (Cursor.start _) rfl
    rw [← Template.read_result] at hNodes
    exact string_complete hGap hText hNodes hRead
  | _, _, .number hGap hLiteral, _, _, hRead, hClose => number_complete hGap hLiteral hRead hClose
  | _, _, .identifier hGap hWord hGap', _, _, hRead, hClose =>
    identifier_complete hGap hWord hGap' hRead hClose
  | _, _, .expression hGap hWord hGap' hRight, c, c', hRead, hClose => by
    obtain ⟨d, hFront, hReadOperator⟩ := Cursor.reads_append_iff.mp hRead
    obtain ⟨e, hReadOperator, hReadRight⟩ := Cursor.reads_cons_iff.mp hReadOperator
    obtain ⟨right, hNode, rfl⟩ := parameter_complete hRight hReadRight hClose
    exact expression_complete hGap hWord hGap' (hFront.trans hReadOperator) hNode
termination_by structural _ _ h => h

end

theorem read_ok_iff (options : Options) (buffer : Bytes) (ts : List Tree) :
    (∃ nodes, (Template.read options buffer).result = .ok nodes ∧ trees nodes = ts) ↔
      Elements options.sigil.byte options.BodyText buffer ts := by
  constructor
  · rintro ⟨nodes, hNodes, rfl⟩
    exact read_sound hNodes
  · intro h
    rw [Template.read_result]
    exact elements_complete h (Cursor.start buffer) rfl

/-- Where bodies are not balanced, a buffer is read exactly if it has a derivation, and what is read
is what it derives. -/
theorem read_ok_iff_derives (sigil : Sigil) (buffer : Bytes) (ts : List Tree) :
    (∃ nodes, (Template.read ⟨sigil, false⟩ buffer).result = .ok nodes ∧ trees nodes = ts) ↔
      Elements sigil.byte (Quoted Byte.rightBrace) buffer ts := by
  rw [← bodyText_of_unbalanced]
  exact read_ok_iff ⟨sigil, false⟩ buffer ts

end Grammar

end TagTemplate
