import TagTemplate.Proofs.Recursion

/-!
# What the reader reads

Each part of an element is characterised by the text that it takes from the buffer and by the
node that it makes of it, up to the readings of the templates that the text encloses. A buffer is
read element by element, and the first failure ends its reading.
-/

namespace TagTemplate

namespace Template

open Scan

/-- Holds of the runs of ASCII letters and digits. -/
def Alphanumeric (word : Bytes) : Prop :=
  ∀ b ∈ word, b.isAlphanumeric = true

instance (word : Bytes) : Decidable (Alphanumeric word) :=
  List.decidableBAll (fun b : Byte => b.isAlphanumeric = true) word

theorem gives_identifier_iff {node : Node} {c c' : Cursor} :
    Gives identifier c node c' ↔
      ∃ word, c.Reads word c' ∧ Alphanumeric word ∧
        (∀ b, c'.peek = some b → b.isAlphanumeric = false) ∧
        node = .identifier word.ascii (c.position.to c'.position) := by
  simp only [identifier, gives_bind_iff, gives_position_iff, gives_pure_iff]
  constructor
  · rintro ⟨_, _, ⟨rfl, rfl⟩, word, d, hRun, _, _, ⟨rfl, rfl⟩, rfl, rfl⟩
    obtain ⟨hRead, hWord, hNext⟩ := gives_run_iff.mp hRun
    exact ⟨word, hRead, hWord, hNext, rfl⟩
  · rintro ⟨word, hRead, hWord, hNext, rfl⟩
    exact ⟨_, _, ⟨rfl, rfl⟩, word, c', gives_run_iff.mpr ⟨hRead, hWord, hNext⟩,
      _, _, ⟨rfl, rfl⟩, rfl, rfl⟩

theorem gives_number_iff {numeral : Numeral} {c c' : Cursor} :
    Gives number c numeral c' ↔
      ∃ run, c.Reads run c' ∧ (∀ b ∈ run, (b.isDigit || b = Byte.period) = true) ∧
        (∀ b, c'.peek = some b → (b.isDigit || b = Byte.period) = false) ∧
        Numeral.ofRun run = .ok numeral := by
  simp only [number, gives_bind_iff]
  constructor
  · rintro ⟨run, d, hRun, h⟩
    obtain ⟨hRead, hBytes, hNext⟩ := gives_run_iff.mp hRun
    cases hNumeral : Numeral.ofRun run with
    | error fault =>
      rw [hNumeral] at h
      exact absurd h not_gives_fail
    | ok numeral' =>
      rw [hNumeral] at h
      obtain ⟨rfl, rfl⟩ := gives_pure_iff.mp h
      exact ⟨run, hRead, hBytes, hNext, hNumeral⟩
  · rintro ⟨run, hRead, hBytes, hNext, hNumeral⟩
    refine ⟨run, c', gives_run_iff.mpr ⟨hRead, hBytes, hNext⟩, ?_⟩
    rw [hNumeral]
    exact gives_pure_iff.mpr ⟨rfl, rfl⟩

section

variable {options : Options} {nested : Bytes → Reading} {c c' : Cursor}

theorem gives_enclosed_iff {enclosure : Enclosure} {text : Bytes} {template : List Node} :
    Gives (enclosed nested enclosure text) c template c' ↔
      (nested text).result = .ok template ∧ c' = c := by
  simp only [enclosed, gives_bind_iff, gives_record_iff, gives_inside_iff]
  constructor
  · rintro ⟨_, _, rfl, hResult, rfl⟩
    exact ⟨hResult, rfl⟩
  · rintro ⟨hResult, rfl⟩
    exact ⟨(), _, rfl, hResult, rfl⟩

theorem gives_stringParameter_iff {start : Position} {node : Node} :
    Gives (stringParameter nested start) c node c' ↔
      ∃ written text template, Enclosed Byte.quote none written text ∧
        c.Reads (Byte.quote :: written ++ [Byte.quote]) c' ∧
        (nested text).result = .ok template ∧
        node = .string template (start.to c'.position) := by
  simp only [stringParameter, gives_bind_iff, gives_expect_iff, gives_enclosed_iff,
    gives_position_iff, gives_pure_iff]
  constructor
  · rintro ⟨_, c₁, hQuote, text, c₂, hText, _, c₃, hClose, template, _, ⟨hResult, rfl⟩, _, _,
      ⟨rfl, rfl⟩, rfl, rfl⟩
    obtain ⟨written, hWritten, hRead⟩ := gives_upTo_reads_iff.mp ⟨c₂, hText, hClose⟩
    exact ⟨written, text, template, hWritten, hQuote.trans hRead, hResult, rfl⟩
  · rintro ⟨written, text, template, hWritten, hRead, hResult, rfl⟩
    obtain ⟨c₁, hQuote, hRead⟩ := Cursor.reads_cons_iff.mp hRead
    obtain ⟨c₂, hText, hClose⟩ := gives_upTo_reads_iff.mpr ⟨written, hWritten, hRead⟩
    exact ⟨(), c₁, hQuote, text, c₂, hText, (), c', hClose, template, c', ⟨hResult, rfl⟩, _, _,
      ⟨rfl, rfl⟩, rfl, rfl⟩

theorem gives_numberParameter_iff {start : Position} {node : Node} :
    Gives (numberParameter start) c node c' ↔
      ∃ numeral, Gives number c numeral c' ∧ node = numeral.node (start.to c'.position) := by
  simp only [numberParameter, gives_bind_iff, gives_position_iff, gives_pure_iff]
  constructor
  · rintro ⟨numeral, d, hNumber, _, _, ⟨rfl, rfl⟩, rfl, rfl⟩
    exact ⟨numeral, hNumber, rfl⟩
  · rintro ⟨numeral, hNumber, rfl⟩
    exact ⟨numeral, c', hNumber, _, _, ⟨rfl, rfl⟩, rfl, rfl⟩

theorem gives_operand_iff {self : Scan (Option Node)} {right : Node} :
    Gives (operand self) c right c' ↔
      ∃ gap d, c.Reads gap d ∧ Blank gap ∧ d.peek ≠ some Byte.space ∧
        (∀ b, d.peek = some b → startsParameter b = true) ∧ Gives self d (some right) c' := by
  simp only [operand, gives_bind_iff, gives_skipSpaces_iff, gives_peek_iff]
  constructor
  · rintro ⟨_, _, ⟨gap, hRead, hGap, hNext⟩, _, d, ⟨rfl, rfl⟩, h⟩
    split at h
    · exact absurd h not_gives_fail
    · rename_i hStart
      obtain ⟨right?, d', hSelf, h⟩ := gives_bind_iff.mp h
      cases right? with
      | none => exact absurd h not_gives_fail
      | some right' =>
        obtain ⟨rfl, rfl⟩ := gives_pure_iff.mp h
        refine ⟨gap, d, hRead, hGap, hNext, ?_, hSelf⟩
        intro b hb
        simpa [hb] using hStart
  · rintro ⟨gap, d, hRead, hGap, hNext, hStart, hSelf⟩
    refine ⟨(), d, ⟨gap, hRead, hGap, hNext⟩, _, d, ⟨rfl, rfl⟩, ?_⟩
    rw [if_neg]
    · exact gives_bind_iff.mpr ⟨some right, c', hSelf, gives_pure_iff.mpr ⟨rfl, rfl⟩⟩
    · cases hPeek : d.peek with
      | none => simp
      | some b => simpa using hStart b hPeek

theorem gives_wordParameter_iff {self : Scan (Option Node)} {start : Position} {first : Byte}
    {node : Node} :
    Gives (wordParameter self start first) c node c' ↔
      ∃ (word gap : Bytes) (c₁ c₂ : Cursor), word ≠ [] ∧ c.Reads word c₁ ∧ Alphanumeric word ∧
        (∀ b, c₁.peek = some b → b.isAlphanumeric = false) ∧
        c₁.Reads gap c₂ ∧ Blank gap ∧ c₂.peek ≠ some Byte.space ∧
        ((c₂.peek.bind Operator.ofByte? = none ∧
            node = .identifier word.ascii (start.to c₂.position) ∧ c' = c₂) ∨
          ∃ op right c₃, c₂.Reads [op.byte] c₃ ∧ Gives (operand self) c₃ right c' ∧
            node = .expression op (.identifier word.ascii (c.position.to c₁.position)) right
              (start.to c'.position)) := by
  simp only [wordParameter, gives_bind_iff, gives_identifier_iff]
  constructor
  · rintro ⟨left, c₁, ⟨word, hRead, hWord, hNext, rfl⟩, h⟩
    split at h
    · exact absurd h not_gives_fail
    · rename_i hEmpty
      simp only [gives_bind_iff, gives_skipSpaces_iff, gives_peek_iff] at h
      obtain ⟨_, _, ⟨gap, hReadGap, hGap, hSpace⟩, _, c₂, ⟨rfl, rfl⟩, h⟩ := h
      refine ⟨word, gap, c₁, c₂, fun hNil => hEmpty (hRead.isEmpty_iff.mpr hNil), hRead, hWord,
        hNext, hReadGap, hGap, hSpace, ?_⟩
      cases hOperator : c₂.peek.bind Operator.ofByte? with
      | none =>
        simp only [hOperator, gives_bind_iff, gives_position_iff, gives_pure_iff] at h
        obtain ⟨_, _, ⟨rfl, rfl⟩, rfl, rfl⟩ := h
        exact Or.inl ⟨rfl, rfl, rfl⟩
      | some op =>
        simp only [hOperator, gives_bind_iff, gives_position_iff, gives_pure_iff,
          gives_discard_iff, gives_pop_iff] at h
        obtain ⟨_, c₃, ⟨b, hPop⟩, right, _, hRight, _, _, ⟨rfl, rfl⟩, rfl, rfl⟩ := h
        rw [hPop.peek_eq, Option.bind_some, Operator.ofByte?_eq_some_iff] at hOperator
        exact Or.inr ⟨op, right, c₃, hOperator ▸ hPop, hRight, rfl⟩
  · rintro ⟨word, gap, c₁, c₂, hNonempty, hRead, hWord, hNext, hReadGap, hGap, hSpace, h⟩
    have hLeft : ¬(Node.identifier word.ascii (c.position.to c₁.position)).source.isEmpty = true :=
      fun hEmpty => hNonempty (hRead.isEmpty_iff.mp hEmpty)
    refine ⟨_, c₁, ⟨word, hRead, hWord, hNext, rfl⟩, ?_⟩
    rw [if_neg hLeft]
    simp only [gives_bind_iff, gives_skipSpaces_iff, gives_peek_iff]
    refine ⟨(), c₂, ⟨gap, hReadGap, hGap, hSpace⟩, _, c₂, ⟨rfl, rfl⟩, ?_⟩
    rcases h with ⟨hOperator, rfl, rfl⟩ | ⟨op, right, c₃, hPop, hRight, rfl⟩
    · simp only [hOperator, gives_bind_iff, gives_position_iff, gives_pure_iff]
      exact ⟨_, _, ⟨rfl, rfl⟩, rfl, rfl⟩
    · simp only [hPop.peek_eq, Option.bind_some, Operator.ofByte?_byte, gives_bind_iff,
        gives_position_iff, gives_pure_iff, gives_discard_iff, gives_pop_iff]
      exact ⟨⟨⟩, c₃, ⟨op.byte, hPop⟩, right, c', hRight, _, _, ⟨rfl, rfl⟩, rfl, rfl⟩

theorem gives_parameter_none_iff :
    Gives (parameter nested) c none c' ↔
      ∃ gap, c.Reads gap c' ∧ Blank gap ∧ c'.peek = some Byte.rightParenthesis := by
  rw [parameter_eq]
  simp only [parameterWith, gives_bind_iff, gives_skipSpaces_iff, gives_position_iff,
    gives_peek_iff]
  constructor
  · rintro ⟨_, _, ⟨gap, hRead, hGap, -⟩, _, _, ⟨rfl, rfl⟩, _, d, ⟨rfl, rfl⟩, h⟩
    cases hPeek : d.peek with
    | none =>
      rw [hPeek] at h
      exact absurd h not_gives_fail
    | some b =>
      rw [hPeek] at h
      dsimp only at h
      split at h
      · rename_i hb
        obtain ⟨-, rfl⟩ := gives_pure_iff.mp h
        exact ⟨gap, hRead, hGap, hPeek.trans (congrArg some hb)⟩
      · split at h
        · obtain ⟨node, -, hNode⟩ := gives_map_iff.mp h
          cases hNode
        · split at h
          · obtain ⟨node, -, hNode⟩ := gives_map_iff.mp h
            cases hNode
          · obtain ⟨node, -, hNode⟩ := gives_map_iff.mp h
            cases hNode
  · rintro ⟨gap, hRead, hGap, hPeek⟩
    refine ⟨(), c', ⟨gap, hRead, hGap, by rw [hPeek]; decide⟩, _, _, ⟨rfl, rfl⟩, _, _,
      ⟨rfl, rfl⟩, ?_⟩
    rw [hPeek]
    exact gives_pure_iff.mpr ⟨rfl, rfl⟩

theorem isAlphanumeric_of_wordParameter {self : Scan (Option Node)} {start : Position}
    {first b : Byte} {node : Node} (h : Gives (wordParameter self start first) c node c')
    (hb : c.peek = some b) : b.isAlphanumeric = true := by
  obtain ⟨word, _, _, _, hNonempty, hRead, hWord, -⟩ := gives_wordParameter_iff.mp h
  cases word with
  | nil => exact absurd rfl hNonempty
  | cons b' word =>
    have hSame : b' = b := Option.some.inj (hRead.peek_eq.symm.trans hb)
    exact hSame ▸ hWord b' List.mem_cons_self

theorem gives_parameter_some_iff {node : Node} :
    Gives (parameter nested) c (some node) c' ↔
      ∃ gap d b, c.Reads gap d ∧ Blank gap ∧ d.peek = some b ∧ b ≠ Byte.space ∧
        (b = Byte.quote ∧ Gives (stringParameter nested d.position) d node c' ∨
          b.isDigit = true ∧ Gives (numberParameter d.position) d node c' ∨
          b.isDigit = false ∧ Gives (wordParameter (parameter nested) d.position b) d node c') := by
  conv_lhs => rw [parameter_eq]
  simp only [parameterWith, gives_bind_iff, gives_skipSpaces_iff, gives_position_iff,
    gives_peek_iff]
  constructor
  · rintro ⟨_, _, ⟨gap, hRead, hGap, hSpace⟩, _, _, ⟨rfl, rfl⟩, _, d, ⟨rfl, rfl⟩, h⟩
    cases hPeek : d.peek with
    | none =>
      rw [hPeek] at h
      exact absurd h not_gives_fail
    | some b =>
      rw [hPeek] at h hSpace
      refine ⟨gap, d, b, hRead, hGap, hPeek, fun hb => hSpace (congrArg some hb), ?_⟩
      dsimp only at h
      split at h
      · cases (gives_pure_iff.mp h).1
      · split at h
        · rename_i hQuote
          obtain ⟨_, hString, hNode⟩ := gives_map_iff.mp h
          cases hNode
          exact Or.inl ⟨hQuote, hString⟩
        · split at h
          · rename_i hDigit
            obtain ⟨_, hNumber, hNode⟩ := gives_map_iff.mp h
            cases hNode
            exact Or.inr (Or.inl ⟨hDigit, hNumber⟩)
          · rename_i hDigit
            obtain ⟨_, hWord, hNode⟩ := gives_map_iff.mp h
            cases hNode
            exact Or.inr (Or.inr ⟨Bool.eq_false_iff.mpr hDigit, hWord⟩)
  · rintro ⟨gap, d, b, hRead, hGap, hPeek, hSpace, h⟩
    refine ⟨(), d, ⟨gap, hRead, hGap, by rw [hPeek]; exact fun hb => hSpace (Option.some.inj hb)⟩,
      _, _, ⟨rfl, rfl⟩, _, _, ⟨rfl, rfl⟩, ?_⟩
    rw [hPeek]
    dsimp only
    rcases h with ⟨rfl, h⟩ | ⟨hDigit, h⟩ | ⟨hDigit, h⟩
    · rw [if_neg (by decide), if_pos rfl]
      exact gives_map_iff.mpr ⟨node, h, rfl⟩
    · rw [if_neg, if_neg, if_pos hDigit]
      · exact gives_map_iff.mpr ⟨node, h, rfl⟩
      · rintro rfl
        cases hDigit
      · rintro rfl
        cases hDigit
    · have hAlphanumeric := isAlphanumeric_of_wordParameter h hPeek
      rw [if_neg, if_neg, if_neg (by rw [hDigit]; exact Bool.false_ne_true)]
      · exact gives_map_iff.mpr ⟨node, h, rfl⟩
      · rintro rfl
        cases hAlphanumeric
      · rintro rfl
        cases hAlphanumeric

/-- An operand is a parameter that has to be there. -/
theorem gives_operand_parameter_iff {right : Node} :
    Gives (operand (parameter nested)) c right c' ↔ Gives (parameter nested) c (some right) c' := by
  rw [gives_operand_iff]
  constructor
  · rintro ⟨gap, d, hRead, hGap, -, -, h⟩
    obtain ⟨gap', d', b, hRead', hGap', hPeek, hSpace, h⟩ := gives_parameter_some_iff.mp h
    exact gives_parameter_some_iff.mpr
      ⟨gap ++ gap', d', b, hRead.trans hRead', hGap.append hGap', hPeek, hSpace, h⟩
  · intro h
    obtain ⟨gap, d, b, hRead, hGap, hPeek, hSpace, h⟩ := gives_parameter_some_iff.mp h
    have hStart : startsParameter b = true := by
      rcases h with ⟨rfl, -⟩ | ⟨hDigit, -⟩ | ⟨-, h⟩
      · rfl
      · simp [startsParameter, Byte.isAlphanumeric, hDigit]
      · simp [startsParameter, isAlphanumeric_of_wordParameter h hPeek]
    refine ⟨gap, d, hRead, hGap, by rwa [hPeek, ne_eq, Option.some_inj], ?_, ?_⟩
    · intro b' hb'
      rw [hPeek] at hb'
      exact Option.some.inj hb' ▸ hStart
    · exact gives_parameter_some_iff.mpr
        ⟨[], d, b, Cursor.Reads.refl d, blank_nil, hPeek, hSpace, h⟩

theorem gives_moreParameters_iff {list : List Node} :
    Gives (moreParameters nested) c list c' ↔
      (c.peek ≠ some Byte.comma ∧ list = [] ∧ c' = c) ∨
        ∃ next more d d', c.Reads [Byte.comma] d ∧ Gives (parameter nested) d (some next) d' ∧
          Gives (moreParameters nested) d' more c' ∧ list = next :: more := by
  conv_lhs => rw [moreParameters_eq]
  simp only [moreParametersWith, gives_bind_iff, gives_peek_iff]
  constructor
  · rintro ⟨_, d, ⟨rfl, rfl⟩, h⟩
    split at h
    · simp only [gives_bind_iff, gives_expect_iff] at h
      obtain ⟨_, d₁, hComma, next?, d₂, hNext, h⟩ := h
      cases next? with
      | none =>
        obtain ⟨_, _, _, h⟩ := gives_bind_iff.mp h
        exact absurd h not_gives_fail
      | some next =>
        simp only [gives_bind_iff, gives_pure_iff] at h
        obtain ⟨more, _, hMore, rfl, rfl⟩ := h
        exact Or.inr ⟨next, more, d₁, d₂, hComma, hNext, hMore, rfl⟩
    · rename_i hComma
      obtain ⟨rfl, rfl⟩ := gives_pure_iff.mp h
      exact Or.inl ⟨hComma, rfl, rfl⟩
  · rintro (⟨hComma, rfl, rfl⟩ | ⟨next, more, d, d', hComma, hNext, hMore, rfl⟩)
    · refine ⟨_, c', ⟨rfl, rfl⟩, ?_⟩
      rw [if_neg hComma]
      exact gives_pure_iff.mpr ⟨rfl, rfl⟩
    · refine ⟨_, c, ⟨rfl, rfl⟩, ?_⟩
      rw [if_pos hComma.peek_eq]
      simp only [gives_bind_iff, gives_expect_iff]
      refine ⟨(), d, hComma, some next, d', hNext, ?_⟩
      simp only [gives_bind_iff, gives_pure_iff]
      exact ⟨more, c', hMore, rfl, rfl⟩

theorem gives_parameterList_iff {list : List Node} :
    Gives (parameterList nested) c list c' ↔
      (Gives (parameter nested) c none c' ∧ list = []) ∨
        ∃ first more d, Gives (parameter nested) c (some first) d ∧
          Gives (moreParameters nested) d more c' ∧ list = first :: more := by
  simp only [parameterList, gives_bind_iff]
  constructor
  · rintro ⟨first?, d, hFirst, h⟩
    cases first? with
    | none =>
      obtain ⟨rfl, rfl⟩ := gives_pure_iff.mp h
      exact Or.inl ⟨hFirst, rfl⟩
    | some first =>
      simp only [gives_bind_iff, gives_pure_iff] at h
      obtain ⟨more, _, hMore, rfl, rfl⟩ := h
      exact Or.inr ⟨first, more, d, hFirst, hMore, rfl⟩
  · rintro (⟨hNone, rfl⟩ | ⟨first, more, d, hFirst, hMore, rfl⟩)
    · exact ⟨none, c', hNone, gives_pure_iff.mpr ⟨rfl, rfl⟩⟩
    · refine ⟨some first, d, hFirst, ?_⟩
      simp only [gives_bind_iff, gives_pure_iff]
      exact ⟨more, c', hMore, rfl, rfl⟩

theorem gives_parameters_iff {list : List Node} :
    Gives (parameters nested) c list c' ↔
      ∃ d d', c.Reads [Byte.leftParenthesis] d ∧ Gives (parameterList nested) d list d' ∧
        d'.Reads [Byte.rightParenthesis] c' := by
  simp only [parameters, gives_bind_iff, gives_expect_iff, gives_pure_iff]
  constructor
  · rintro ⟨_, d, hOpen, _, d', hList, _, _, hClose, rfl, rfl⟩
    exact ⟨d, d', hOpen, hList, hClose⟩
  · rintro ⟨d, d', hOpen, hList, hClose⟩
    exact ⟨(), d, hOpen, list, d', hList, (), c', hClose, rfl, rfl⟩

theorem gives_body_iff {template : List Node} :
    Gives (body options nested) c template c' ↔
      ∃ written text, Enclosed Byte.rightBrace options.bodyOpener written text ∧
        c.Reads (Byte.leftBrace :: written ++ [Byte.rightBrace]) c' ∧
        (nested text).result = .ok template := by
  simp only [body, gives_bind_iff, gives_expect_iff, gives_enclosed_iff]
  constructor
  · rintro ⟨_, c₁, hOpen, text, c₂, hText, _, c₃, hClose, hResult, rfl⟩
    obtain ⟨written, hWritten, hRead⟩ := gives_upTo_reads_iff.mp ⟨c₂, hText, hClose⟩
    exact ⟨written, text, hWritten, hOpen.trans hRead, hResult⟩
  · rintro ⟨written, text, hWritten, hRead, hResult⟩
    obtain ⟨c₁, hOpen, hRead⟩ := Cursor.reads_cons_iff.mp hRead
    obtain ⟨c₂, hText, hClose⟩ := gives_upTo_reads_iff.mpr ⟨written, hWritten, hRead⟩
    exact ⟨(), c₁, hOpen, text, c₂, hText, (), c', hClose, hResult, rfl⟩

theorem gives_body?_iff {content : Option (List Node)} :
    Gives (body? options nested) c content c' ↔
      (c.peek ≠ some Byte.leftBrace ∧ content = none ∧ c' = c) ∨
        ∃ template, Gives (body options nested) c template c' ∧ content = some template := by
  simp only [body?, gives_bind_iff, gives_peek_iff]
  constructor
  · rintro ⟨_, d, ⟨rfl, rfl⟩, h⟩
    split at h
    · obtain ⟨template, hBody, rfl⟩ := gives_map_iff.mp h
      exact Or.inr ⟨template, hBody, rfl⟩
    · rename_i hBrace
      obtain ⟨rfl, rfl⟩ := gives_pure_iff.mp h
      exact Or.inl ⟨hBrace, rfl, rfl⟩
  · rintro (⟨hBrace, rfl, rfl⟩ | ⟨template, hBody, rfl⟩)
    · refine ⟨_, c', ⟨rfl, rfl⟩, ?_⟩
      rw [if_neg hBrace]
      exact gives_pure_iff.mpr ⟨rfl, rfl⟩
    · obtain ⟨_, _, _, hRead, _⟩ := gives_body_iff.mp hBody
      refine ⟨_, c, ⟨rfl, rfl⟩, ?_⟩
      rw [if_pos hRead.peek_eq]
      exact gives_map_iff.mpr ⟨template, hBody, rfl⟩

theorem gives_tag_iff {node : Node} :
    Gives (tag options nested) c node c' ↔
      ∃ (name gap : Bytes) (c₁ c₂ c₃ c₄ : Cursor) (list : List Node)
        (content : Option (List Node)), c.Reads [options.sigil.byte] c₁ ∧ c₁.Reads name c₂ ∧
        Alphanumeric name ∧ Gives (parameters nested) c₂ list c₃ ∧ c₃.Reads gap c₄ ∧ Blank gap ∧
        c₄.peek ≠ some Byte.space ∧ Gives (body? options nested) c₄ content c' ∧
        node = .tag (.identifier name.ascii (c₁.position.to c₂.position)) list content
          (c.position.to c'.position) := by
  simp only [tag, gives_bind_iff, gives_position_iff, gives_expect_iff, gives_skipSpaces_iff,
    gives_pure_iff, gives_identifier_iff]
  constructor
  · rintro ⟨_, _, ⟨rfl, rfl⟩, _, c₁, hSigil, _, c₂, ⟨name, hName, hAlphanumeric, -, rfl⟩, list, c₃,
      hList, _, c₄, ⟨gap, hRead, hGap, hSpace⟩, content, _, hContent, _, _, ⟨rfl, rfl⟩, rfl, rfl⟩
    exact ⟨name, gap, c₁, c₂, c₃, c₄, list, content, hSigil, hName, hAlphanumeric, hList, hRead,
      hGap, hSpace, hContent, rfl⟩
  · rintro ⟨name, gap, c₁, c₂, c₃, c₄, list, content, hSigil, hName, hAlphanumeric, hList, hRead,
      hGap, hSpace, hContent, rfl⟩
    have hNext : ∀ b, c₂.peek = some b → b.isAlphanumeric = false := by
      intro b hb
      obtain ⟨_, _, hOpen, -⟩ := gives_parameters_iff.mp hList
      rw [hOpen.peek_eq] at hb
      cases hb
      decide
    exact ⟨_, c, ⟨rfl, rfl⟩, (), c₁, hSigil, _, c₂, ⟨name, hName, hAlphanumeric, hNext, rfl⟩, list,
      c₃, hList, (), c₄, ⟨gap, hRead, hGap, hSpace⟩, content, c', hContent, _, c', ⟨rfl, rfl⟩, rfl,
      rfl⟩

theorem gives_raw_iff {node : Node} :
    Gives (raw options) c node c' ↔
      ∃ data, c.Reads (escape options.sigil.byte data) c' ∧
        Passage.EndsBefore options.sigil.byte data c'.rest ∧
        node = .raw data (c.position.to c'.position) := by
  simp only [raw, gives_bind_iff, gives_position_iff, gives_pure_iff,
    gives_upTo_none_iff options.sigil.byte_ne_backslash]
  constructor
  · rintro ⟨_, _, ⟨rfl, rfl⟩, data, _, ⟨hRead, hEnd⟩, _, _, ⟨rfl, rfl⟩, rfl, rfl⟩
    exact ⟨data, hRead, hEnd, rfl⟩
  · rintro ⟨data, hRead, hEnd, rfl⟩
    exact ⟨_, c, ⟨rfl, rfl⟩, data, c', ⟨hRead, hEnd⟩, _, c', ⟨rfl, rfl⟩, rfl, rfl⟩

theorem gives_element_none_iff :
    Gives (element options nested) c none c' ↔ c.rest = [] ∧ c' = c := by
  simp only [element, gives_bind_iff, gives_peek_iff]
  constructor
  · rintro ⟨_, d, ⟨rfl, rfl⟩, h⟩
    cases hRest : d.rest with
    | nil =>
      simp only [Cursor.peek, hRest, List.head?_nil] at h
      exact ⟨rfl, (gives_pure_iff.mp h).2⟩
    | cons b rest =>
      simp only [Cursor.peek, hRest, List.head?_cons] at h
      split at h
      · obtain ⟨_, -, hNode⟩ := gives_map_iff.mp h
        cases hNode
      · obtain ⟨_, -, hNode⟩ := gives_map_iff.mp h
        cases hNode
  · rintro ⟨hRest, rfl⟩
    refine ⟨_, c', ⟨rfl, rfl⟩, ?_⟩
    simp only [Cursor.peek, hRest, List.head?_nil]
    exact gives_pure_iff.mpr ⟨rfl, rfl⟩

theorem gives_element_some_iff {node : Node} :
    Gives (element options nested) c (some node) c' ↔
      Gives (tag options nested) c node c' ∨
        c.rest ≠ [] ∧ c.peek ≠ some options.sigil.byte ∧ Gives (raw options) c node c' := by
  simp only [element, gives_bind_iff, gives_peek_iff]
  constructor
  · rintro ⟨_, d, ⟨rfl, rfl⟩, h⟩
    cases hRest : d.rest with
    | nil =>
      simp only [Cursor.peek, hRest, List.head?_nil] at h
      cases (gives_pure_iff.mp h).1
    | cons b rest =>
      simp only [Cursor.peek, hRest, List.head?_cons] at h
      split at h
      · obtain ⟨_, hTag, hNode⟩ := gives_map_iff.mp h
        cases hNode
        exact Or.inl hTag
      · rename_i hSigil
        obtain ⟨_, hRaw, hNode⟩ := gives_map_iff.mp h
        cases hNode
        refine Or.inr ⟨List.cons_ne_nil b rest, ?_, hRaw⟩
        rw [Cursor.peek, hRest]
        exact fun hb => hSigil (Option.some.inj hb)
  · rintro (hTag | ⟨hRest, hSigil, hRaw⟩)
    · refine ⟨_, c, ⟨rfl, rfl⟩, ?_⟩
      obtain ⟨_, _, _, _, _, _, _, _, hRead, -⟩ := gives_tag_iff.mp hTag
      simp only [hRead.peek_eq, if_true]
      exact gives_map_iff.mpr ⟨node, hTag, rfl⟩
    · refine ⟨_, c, ⟨rfl, rfl⟩, ?_⟩
      obtain ⟨b, rest, hCons⟩ := List.exists_cons_of_ne_nil hRest
      rw [Cursor.peek, hCons] at hSigil ⊢
      simp only [List.head?_cons]
      rw [if_neg (fun hb => hSigil (congrArg some hb))]
      exact gives_map_iff.mpr ⟨node, hRaw, rfl⟩

theorem length_lt_of_element {node : Node}
    (h : Gives (element options nested) c (some node) c') :
    c'.rest.length < c.rest.length := by
  rcases gives_element_some_iff.mp h with hTag | ⟨hRest, hSigil, hRaw⟩
  · obtain ⟨_, _, c₁, c₂, c₃, c₄, _, _, hSigil, hName, -, hList, hGap, -, -, hContent, -⟩ :=
      gives_tag_iff.mp hTag
    have hLt : c₁.rest.length < c.rest.length := by
      rw [hSigil.length_eq]
      simp
    have hLe₂ := hName.length_eq
    have hLe₃ := (advances_parameters nested).length_le hList
    have hLe₄ := hGap.length_eq
    have hLe₅ := (advances_body? options nested).length_le hContent
    omega
  · obtain ⟨data, hRead, hEnd, -⟩ := gives_raw_iff.mp hRaw
    have hData : data ≠ [] := by
      rintro rfl
      obtain rfl := Cursor.reads_nil_iff.mp hRead
      rcases hEnd with hEnd | ⟨hEnd, -⟩
      · exact hRest hEnd
      · exact hSigil hEnd
    have hLength := List.length_pos_iff.mpr hData
    have hEscape := length_le_length_escape options.sigil.byte data
    rw [hRead.length_eq]
    omega

/-- The error of a failure between two places; one of a nested template has its place already. -/
def placed (p q : Position) : Failure → ParseError
  | .located e => e
  | .bare fault => ⟨p.upTo q, fault⟩

theorem locatedElement_outcome (options : Options) (nested : Bytes → Reading) (c : Cursor) :
    (locatedElement options nested c).outcome =
        (element options nested c).outcome.mapError
          (placed c.position (element options nested c).cursor.position) ∧
      (locatedElement options nested c).cursor = (element options nested c).cursor := by
  rw [locatedElement]
  cases hOutcome : (element options nested c).outcome with
  | ok node? => exact ⟨rfl, rfl⟩
  | error failure => cases failure <;> exact ⟨rfl, rfl⟩

theorem elements_of_nil (h : c.rest = []) : (elements options nested c).outcome = .ok [] := by
  have hElement : Gives (element options nested) c none c :=
    gives_element_none_iff.mpr ⟨h, rfl⟩
  obtain ⟨hOutcome, -⟩ := locatedElement_outcome options nested c
  rw [hElement.1] at hOutcome
  rw [elements, hOutcome]
  rfl

theorem elements_of_gives {node : Node} (h : Gives (element options nested) c (some node) c') :
    (elements options nested c).outcome =
      (elements options nested c').outcome.map (node :: ·) := by
  obtain ⟨hOutcome, hCursor⟩ := locatedElement_outcome options nested c
  rw [h.1] at hOutcome
  rw [h.2] at hCursor
  rw [elements.eq_def options nested c]
  simp only [hOutcome, hCursor, Except.mapError, if_pos (length_lt_of_element h)]

theorem elements_of_fails {failure : Failure} (h : Fails (element options nested) c failure c') :
    (elements options nested c).outcome = .error (placed c.position c'.position failure) := by
  obtain ⟨hOutcome, -⟩ := locatedElement_outcome options nested c
  rw [h.1, h.2] at hOutcome
  rw [elements, hOutcome]
  rfl

theorem elements_ok_iff {nodes : List Node} :
    (elements options nested c).outcome = .ok nodes ↔
      (c.rest = [] ∧ nodes = []) ∨
        ∃ node others d, Gives (element options nested) c (some node) d ∧
          (elements options nested d).outcome = .ok others ∧ nodes = node :: others := by
  constructor
  · intro h
    rcases gives_or_fails (element options nested) c with ⟨node?, hElement⟩ | ⟨failure, hElement⟩
    · cases node? with
      | none =>
        obtain ⟨hRest, -⟩ := gives_element_none_iff.mp hElement
        rw [elements_of_nil hRest] at h
        exact Or.inl ⟨hRest, (Except.ok.inj h).symm⟩
      | some node =>
        rw [elements_of_gives hElement] at h
        cases hOthers : (elements options nested (element options nested c).cursor).outcome with
        | error e =>
          rw [hOthers] at h
          cases h
        | ok others =>
          rw [hOthers] at h
          exact Or.inr ⟨node, others, _, hElement, hOthers, (Except.ok.inj h).symm⟩
    · rw [elements_of_fails hElement] at h
      cases h
  · rintro (⟨hRest, rfl⟩ | ⟨node, others, d, hElement, hOthers, rfl⟩)
    · exact elements_of_nil hRest
    · rw [elements_of_gives hElement, hOthers]
      rfl

theorem read_result (options : Options) (buffer : Bytes) :
    (read options buffer).result =
      (elements options (read options) (Cursor.start buffer)).outcome := by
  rw [read_eq]
  rfl

end

end Template

end TagTemplate
