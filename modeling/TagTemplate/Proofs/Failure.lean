import TagTemplate.Proofs.Completeness

/-!
# How scans fail

A scan fails where a byte that it asks for is not next, where a number is not one, and where a text
that it has cut out has an error. For each part of a tag there is one characterisation of how it
fails, beside the one of what it gives. Places, spaces, words and passages are always found.
-/

namespace TagTemplate

/-- What is wrong where the byte `b` is due and `next` is there. -/
def Fault.due (b : Byte) : Option Byte → Fault
  | none => .endOfInput
  | some actual => .unexpectedByte (some b) (some actual) none

namespace Scan

variable {α β : Type} {c c' : Cursor} {failure : Failure}

theorem fails_fail_iff {fault : Fault} :
    Fails (fail fault : Scan α) c failure c' ↔ failure = .bare fault ∧ c' = c := by
  constructor
  · rintro ⟨hOutcome, rfl⟩
    exact ⟨(Except.error.inj hOutcome).symm, rfl⟩
  · rintro ⟨rfl, rfl⟩
    exact ⟨rfl, rfl⟩

@[simp] theorem not_fails_position : ¬Fails position c failure c' :=
  fun h => nomatch h.1

@[simp] theorem not_fails_peek : ¬Fails peek c failure c' :=
  fun h => nomatch h.1

@[simp] theorem not_fails_record {e : Event} : ¬Fails (record e) c failure c' :=
  fun h => nomatch h.1

@[simp] theorem not_fails_run {p : Byte → Bool} : ¬Fails (run p) c failure c' :=
  fun h => nomatch h.1

@[simp] theorem not_fails_upTo {delimiter : Byte} {opener : Option Byte} :
    ¬Fails (upTo delimiter opener) c failure c' :=
  fun h => nomatch h.1

@[simp] theorem not_fails_skipSpaces : ¬Fails skipSpaces c failure c' :=
  fun h => not_fails_run (fails_map_iff.mp h)

theorem fails_pop_iff :
    Fails pop c failure c' ↔ c.rest = [] ∧ failure = .bare .endOfInput ∧ c' = c := by
  obtain ⟨p, rest⟩ := c
  cases rest with
  | nil => simp [Fails, pop, eq_comm]
  | cons b rest => simp [Fails, pop]

theorem fails_expect_iff {b : Byte} :
    Fails (expect b) c failure c' ↔
      c.peek ≠ some b ∧ failure = .bare (Fault.due b c.peek) ∧ c' = c := by
  simp only [expect, fails_bind_iff, not_fails_peek, gives_peek_iff, false_or]
  constructor
  · rintro ⟨_, d, ⟨rfl, rfl⟩, h⟩
    cases hPeek : d.peek with
    | none =>
      rw [hPeek] at h
      exact ⟨(Option.some_ne_none b).symm, fails_fail_iff.mp h⟩
    | some actual =>
      rw [hPeek] at h
      dsimp only at h
      split at h
      · obtain ⟨hRest, -⟩ := fails_pop_iff.mp (fails_map_iff.mp h)
        rw [Cursor.peek, hRest] at hPeek
        cases hPeek
      · rename_i hActual
        exact ⟨fun hb => hActual (Option.some.inj hb), fails_fail_iff.mp h⟩
  · rintro ⟨hNext, rfl, rfl⟩
    refine ⟨_, c', ⟨rfl, rfl⟩, ?_⟩
    cases hPeek : c'.peek with
    | none => exact fails_fail_iff.mpr ⟨rfl, rfl⟩
    | some actual =>
      dsimp only
      rw [hPeek] at hNext
      rw [if_neg fun hb => hNext (congrArg some hb)]
      exact fails_fail_iff.mpr ⟨rfl, rfl⟩

/-- A passage ends in front of its delimiter or at the end of the buffer. -/
theorem peek_of_upTo {delimiter : Byte} (hDelimiter : delimiter ≠ Byte.backslash)
    {opener : Option Byte} {text : Bytes} (h : Gives (upTo delimiter opener) c text c') :
    c'.rest = [] ∨ c'.peek = some delimiter := by
  obtain ⟨written, hRead, hPassage⟩ := gives_upTo_iff.mp h
  have hEnd := Passage.endsBefore_rest hDelimiter opener false 0 c.rest
  change Passage.EndsBefore delimiter (delimited delimiter opener c.rest).content
    (delimited delimiter opener c.rest).rest at hEnd
  rw [hPassage] at hEnd
  exact hEnd.imp id And.left

/-- A scan of what delimiters enclose misses the closing one at the end of the buffer only. -/
theorem fails_enclosing_iff {opening delimiter : Byte} (hDelimiter : delimiter ≠ Byte.backslash)
    {opener : Option Byte} {k : Bytes → Scan α} (hOpening : c.peek = some opening) :
    Fails (expect opening >>= fun _ => upTo delimiter opener >>= fun text =>
        expect delimiter >>= fun _ => k text) c failure c' ↔
      (∃ d text, c.Reads [opening] d ∧ Gives (upTo delimiter opener) d text c' ∧ c'.rest = [] ∧
        failure = .bare .endOfInput) ∨
      ∃ written text d, Enclosed delimiter opener written text ∧
        c.Reads (opening :: written ++ [delimiter]) d ∧ Fails (k text) d failure c' := by
  simp only [fails_bind_iff, not_fails_upTo, false_or, fails_expect_iff, gives_expect_iff, hOpening,
    ne_eq, not_true_eq_false, false_and]
  constructor
  · rintro ⟨_, d₁, hOpen, text, d₂, hText, ⟨hNext, rfl, rfl⟩ | ⟨_, d₃, hClose, h⟩⟩
    · have hRest := (peek_of_upTo hDelimiter hText).resolve_right hNext
      refine Or.inl ⟨d₁, text, hOpen, hText, hRest, ?_⟩
      rw [Cursor.peek, hRest]
      rfl
    · obtain ⟨written, hWritten, hRead⟩ := gives_upTo_reads_iff.mp ⟨d₂, hText, hClose⟩
      exact Or.inr ⟨written, text, d₃, hWritten, hOpen.trans hRead, h⟩
  · rintro (⟨d₁, text, hOpen, hText, hRest, rfl⟩ | ⟨written, text, d₃, hWritten, hRead, h⟩)
    · refine ⟨(), d₁, hOpen, text, c', hText, Or.inl ?_⟩
      simp [Cursor.peek, hRest, Fault.due]
    · obtain ⟨d₁, hOpen, hRead⟩ := Cursor.reads_cons_iff.mp hRead
      obtain ⟨d₂, hText, hClose⟩ := gives_upTo_reads_iff.mpr ⟨written, hWritten, hRead⟩
      exact ⟨(), d₁, hOpen, text, d₂, hText, Or.inr ⟨(), d₃, hClose, h⟩⟩

end Scan

namespace Template

open Scan

@[simp] theorem not_fails_identifier {failure : Failure} {c c' : Cursor} :
    ¬Fails identifier c failure c' := by
  simp [identifier, fails_bind_iff, not_fails_pure]

theorem fails_number_iff {failure : Failure} {c c' : Cursor} :
    Fails number c failure c' ↔
      ∃ run fault, c.Reads run c' ∧ (∀ b ∈ run, (b.isDigit || b = Byte.period) = true) ∧
        (∀ b, c'.peek = some b → (b.isDigit || b = Byte.period) = false) ∧
        Numeral.ofRun run = .error fault ∧ failure = .bare fault := by
  simp only [number, fails_bind_iff, not_fails_run, false_or]
  constructor
  · rintro ⟨run, d, hRun, h⟩
    obtain ⟨hRead, hBytes, hNext⟩ := gives_run_iff.mp hRun
    cases hNumeral : Numeral.ofRun run with
    | error fault =>
      rw [hNumeral] at h
      obtain ⟨rfl, rfl⟩ := fails_fail_iff.mp h
      exact ⟨run, fault, hRead, hBytes, hNext, hNumeral, rfl⟩
    | ok numeral =>
      rw [hNumeral] at h
      exact absurd h not_fails_pure
  · rintro ⟨run, fault, hRead, hBytes, hNext, hNumeral, rfl⟩
    refine ⟨run, c', gives_run_iff.mpr ⟨hRead, hBytes, hNext⟩, ?_⟩
    rw [hNumeral]
    exact fails_fail_iff.mpr ⟨rfl, rfl⟩

theorem fails_numberParameter_iff {start : Position} {failure : Failure} {c c' : Cursor} :
    Fails (numberParameter start) c failure c' ↔ Fails number c failure c' := by
  simp [numberParameter, fails_bind_iff, not_fails_pure]

section

variable {options : Options} {nested : Bytes → Reading} {failure : Failure} {c c' : Cursor}

theorem fails_enclosed_iff {enclosure : Enclosure} {text : Bytes} :
    Fails (enclosed nested enclosure text) c failure c' ↔
      ∃ e, (nested text).result = .error e ∧ failure = .located e ∧ c' = c := by
  simp [enclosed, fails_bind_iff, gives_record_iff, fails_inside_iff]

theorem fails_stringParameter_iff {start : Position} (hQuote : c.peek = some Byte.quote) :
    Fails (stringParameter nested start) c failure c' ↔
      (∃ d text, c.Reads [Byte.quote] d ∧ Gives (upTo Byte.quote none) d text c' ∧
        c'.rest = [] ∧ failure = .bare .endOfInput) ∨
      ∃ written text, Enclosed Byte.quote none written text ∧
        c.Reads (Byte.quote :: written ++ [Byte.quote]) c' ∧
        ∃ e, (nested text).result = .error e ∧ failure = .located e := by
  rw [stringParameter, fails_enclosing_iff (by decide) hQuote]
  simp [fails_bind_iff, not_fails_pure, fails_enclosed_iff]

theorem fails_body_iff (hBrace : c.peek = some Byte.leftBrace) :
    Fails (body options nested) c failure c' ↔
      (∃ d text, c.Reads [Byte.leftBrace] d ∧
        Gives (upTo Byte.rightBrace options.bodyOpener) d text c' ∧ c'.rest = [] ∧
        failure = .bare .endOfInput) ∨
      ∃ written text, Enclosed Byte.rightBrace options.bodyOpener written text ∧
        c.Reads (Byte.leftBrace :: written ++ [Byte.rightBrace]) c' ∧
        ∃ e, (nested text).result = .error e ∧ failure = .located e := by
  rw [body, fails_enclosing_iff (by decide) hBrace]
  simp [fails_enclosed_iff]

theorem fails_body?_iff :
    Fails (body? options nested) c failure c' ↔
      c.peek = some Byte.leftBrace ∧ Fails (body options nested) c failure c' := by
  simp only [body?, fails_bind_iff, not_fails_peek, gives_peek_iff, false_or]
  constructor
  · rintro ⟨_, d, ⟨rfl, rfl⟩, h⟩
    split at h
    · exact ⟨‹_›, fails_map_iff.mp h⟩
    · exact absurd h not_fails_pure
  · rintro ⟨hBrace, h⟩
    refine ⟨_, c, ⟨rfl, rfl⟩, ?_⟩
    rw [if_pos hBrace]
    exact fails_map_iff.mpr h

/-- A list ends in front of a closed parenthesis only, which starts no operand. -/
theorem not_gives_parameter_none (hStart : ∀ b, c.peek = some b → startsParameter b = true) :
    ¬Gives (parameter nested) c none c' := by
  intro h
  obtain ⟨gap, hRead, hGap, hPeek⟩ := gives_parameter_none_iff.mp h
  rcases hGap.peek_of_reads hRead with hNext | hNext
  · cases hStart _ hNext
  · cases hStart _ (hNext.trans hPeek)

theorem fails_operand_iff :
    Fails (operand (parameter nested)) c failure c' ↔
      ∃ gap d, c.Reads gap d ∧ Blank gap ∧ d.peek ≠ some Byte.space ∧
        ((∃ b, d.peek = some b ∧ startsParameter b = false ∧ failure = .bare .missingOperand ∧
            c' = d) ∨
          (∀ b, d.peek = some b → startsParameter b = true) ∧
            Fails (parameter nested) d failure c') := by
  simp only [operand, fails_bind_iff, not_fails_skipSpaces, not_fails_peek, gives_skipSpaces_iff,
    gives_peek_iff, false_or]
  constructor
  · rintro ⟨_, _, ⟨gap, hRead, hGap, hSpace⟩, _, d, ⟨rfl, rfl⟩, h⟩
    refine ⟨gap, d, hRead, hGap, hSpace, ?_⟩
    split at h
    · rename_i hStart
      obtain ⟨rfl, rfl⟩ := fails_fail_iff.mp h
      cases hPeek : c'.peek with
      | none => simp [hPeek] at hStart
      | some b => exact Or.inl ⟨b, rfl, by simpa [hPeek] using hStart, rfl, rfl⟩
    · rename_i hStart
      have hStart' : ∀ b, d.peek = some b → startsParameter b = true := by
        intro b hb
        simpa [hb] using hStart
      refine Or.inr ⟨hStart', ?_⟩
      rcases fails_bind_iff.mp h with h | ⟨right?, d', hRight, h⟩
      · exact h
      · cases right? with
        | none => exact absurd hRight (not_gives_parameter_none hStart')
        | some right => exact absurd h not_fails_pure
  · rintro ⟨gap, d, hRead, hGap, hSpace, h⟩
    refine ⟨(), d, ⟨gap, hRead, hGap, hSpace⟩, _, d, ⟨rfl, rfl⟩, ?_⟩
    rcases h with ⟨b, hb, hStart, rfl, rfl⟩ | ⟨hStart, h⟩
    · rw [if_pos (by simp [hb, hStart])]
      exact fails_fail_iff.mpr ⟨rfl, rfl⟩
    · rw [if_neg]
      · exact fails_bind_of_fails h
      · cases hPeek : d.peek with
        | none => simp
        | some b => simpa using hStart b hPeek

theorem fails_wordParameter_of_operand {start : Position} {first : Byte} {word gap : Bytes}
    {operator : Operator} {d : Cursor} (hNonempty : word ≠ []) (hWord : Alphanumeric word)
    (hGap : Blank gap) (hRead : c.Reads (word ++ gap ++ [operator.byte]) d)
    (h : Fails (operand (parameter nested)) d failure c') :
    Fails (wordParameter (parameter nested) start first) c failure c' := by
  obtain ⟨c₂, hRead, hPop⟩ := Cursor.reads_append_iff.mp hRead
  obtain ⟨c₁, hRead, hReadGap⟩ := Cursor.reads_append_iff.mp hRead
  have hNext : ∀ b, c₂.peek = some b → b.isAlphanumeric = false :=
    Cursor.stops_of_peek hPop.peek_eq (by cases operator <;> rfl)
  have hSpace : c₂.peek ≠ some Byte.space := by
    rw [hPop.peek_eq]
    cases operator <;> decide
  have hIdentifier : Gives identifier c (.identifier word.ascii (c.position.to c₁.position)) c₁ :=
    gives_identifier_iff.mpr ⟨word, hRead, hWord, Grammar.word_stops hGap hReadGap hNext, rfl⟩
  have hSkip : Gives skipSpaces c₁ () c₂ :=
    gives_skipSpaces_iff.mpr ⟨gap, hReadGap, hGap, hSpace⟩
  have hOperator : Gives (discard pop) c₂ ⟨⟩ d :=
    gives_discard_iff.mpr ⟨operator.byte, gives_pop_iff.mpr hPop⟩
  apply fails_bind_of_gives hIdentifier
  rw [Node.source, if_neg fun hEmpty => hNonempty (hRead.isEmpty_iff.mp hEmpty)]
  apply fails_bind_of_gives hSkip
  apply fails_bind_of_gives (gives_peek c₂)
  simp only [hPop.peek_eq, Option.bind_some, Operator.ofByte?_byte]
  exact fails_bind_of_gives hOperator (fails_bind_of_fails h)

theorem fails_wordParameter_iff {start : Position} {first : Byte} :
    Fails (wordParameter (parameter nested) start first) c failure c' ↔
      ((∀ b, c.peek = some b → b.isAlphanumeric = false) ∧
        failure = .bare (.unexpectedByte none (some first) (some "parameter")) ∧ c' = c) ∨
      ∃ (word gap : Bytes) (operator : Operator) (d : Cursor), word ≠ [] ∧ Alphanumeric word ∧
        Blank gap ∧ c.Reads (word ++ gap ++ [operator.byte]) d ∧
        Fails (operand (parameter nested)) d failure c' := by
  constructor
  · intro h
    simp only [wordParameter, fails_bind_iff, not_fails_identifier, gives_identifier_iff,
      false_or] at h
    obtain ⟨_, c₁, ⟨word, hRead, hWord, hNext, rfl⟩, h⟩ := h
    split at h
    · rename_i hEmpty
      obtain rfl := hRead.isEmpty_iff.mp hEmpty
      obtain rfl := Cursor.reads_nil_iff.mp hRead
      exact Or.inl ⟨hNext, fails_fail_iff.mp h⟩
    · rename_i hEmpty
      have hNonempty : word ≠ [] := fun hNil => hEmpty (hRead.isEmpty_iff.mpr hNil)
      simp only [fails_bind_iff, not_fails_skipSpaces, not_fails_peek, gives_skipSpaces_iff,
        gives_peek_iff, false_or] at h
      obtain ⟨_, _, ⟨gap, hReadGap, hGap, -⟩, _, c₂, ⟨rfl, rfl⟩, h⟩ := h
      cases hOperator : c₂.peek.bind Operator.ofByte? with
      | none =>
        rw [hOperator] at h
        simp [fails_bind_iff, not_fails_pure] at h
      | some operator =>
        obtain ⟨b, hPeek, hByte⟩ := Option.bind_eq_some_iff.mp hOperator
        obtain rfl := Operator.ofByte?_eq_some_iff.mp hByte
        rw [hOperator] at h
        simp only [fails_bind_iff, not_fails_position, not_fails_pure, gives_discard_iff,
          gives_pop_iff, and_false, exists_false, or_false] at h
        rcases h with h | ⟨_, d, ⟨b, hPop⟩, h⟩
        · obtain ⟨hRest, -⟩ := fails_pop_iff.mp (fails_map_iff.mp h)
          rw [Cursor.peek, hRest] at hPeek
          cases hPeek
        · obtain rfl := Option.some.inj (hPop.peek_eq.symm.trans hPeek)
          exact Or.inr ⟨word, gap, operator, d, hNonempty, hWord, hGap,
            (hRead.trans hReadGap).trans hPop, h⟩
  · rintro (⟨hNext, rfl, rfl⟩ | ⟨word, gap, operator, d, hNonempty, hWord, hGap, hRead, h⟩)
    · have hIdentifier := gives_identifier_iff.mpr
        ⟨[], Cursor.Reads.refl c', List.forall_mem_nil _, hNext, rfl⟩
      apply fails_bind_of_gives hIdentifier
      rw [Node.source, if_pos ((Cursor.Reads.refl c').isEmpty_iff.mpr rfl)]
      exact fails_fail_iff.mpr ⟨rfl, rfl⟩
    · exact fails_wordParameter_of_operand hNonempty hWord hGap hRead h

/-- A parameter fails behind its spaces, at the end of the buffer or as what its first byte
announces. -/
theorem fails_parameter_iff :
    Fails (parameter nested) c failure c' ↔
      ∃ gap d, c.Reads gap d ∧ Blank gap ∧ d.peek ≠ some Byte.space ∧
        (d.rest = [] ∧ failure = .bare .endOfInput ∧ c' = d ∨
          d.peek = some Byte.quote ∧ Fails (stringParameter nested d.position) d failure c' ∨
          ∃ b, d.peek = some b ∧ (b.isDigit = true ∧ Fails number d failure c' ∨
            b ≠ Byte.rightParenthesis ∧ b ≠ Byte.quote ∧ b.isDigit = false ∧
              Fails (wordParameter (parameter nested) d.position b) d failure c')) := by
  conv_lhs => rw [parameter_eq]
  simp only [parameterWith, fails_bind_iff, not_fails_skipSpaces, not_fails_position,
    not_fails_peek, gives_skipSpaces_iff, gives_position_iff, gives_peek_iff, false_or]
  constructor
  · rintro ⟨_, _, ⟨gap, hRead, hGap, hSpace⟩, _, _, ⟨rfl, rfl⟩, _, d, ⟨rfl, rfl⟩, h⟩
    refine ⟨gap, d, hRead, hGap, hSpace, ?_⟩
    cases hPeek : d.peek with
    | none =>
      rw [hPeek] at h
      exact Or.inl ⟨List.head?_eq_none_iff.mp hPeek, fails_fail_iff.mp h⟩
    | some b =>
      rw [hPeek] at h
      right
      dsimp only at h
      split at h
      · exact absurd h not_fails_pure
      · rename_i hClose
        split at h
        · rename_i hQuote
          exact Or.inl ⟨congrArg some hQuote, fails_map_iff.mp h⟩
        · rename_i hQuote
          split at h
          · rename_i hDigit
            exact Or.inr ⟨b, rfl, Or.inl ⟨hDigit,
              fails_numberParameter_iff.mp (fails_map_iff.mp h)⟩⟩
          · rename_i hDigit
            exact Or.inr ⟨b, rfl, Or.inr ⟨hClose, hQuote, Bool.eq_false_iff.mpr hDigit,
              fails_map_iff.mp h⟩⟩
  · rintro ⟨gap, d, hRead, hGap, hSpace, h⟩
    refine ⟨(), d, ⟨gap, hRead, hGap, hSpace⟩, _, d, ⟨rfl, rfl⟩, _, d, ⟨rfl, rfl⟩, ?_⟩
    rcases h with ⟨hRest, h⟩ | ⟨hQuote, h⟩ | ⟨b, hPeek, ⟨hDigit, h⟩ | ⟨hClose, hQuote, hDigit, h⟩⟩
    · rw [Cursor.peek, hRest]
      exact fails_fail_iff.mpr h
    · rw [hQuote]
      exact fails_map_iff.mpr h
    · rw [hPeek]
      dsimp only
      rw [if_neg, if_neg, if_pos hDigit]
      · exact fails_map_iff.mpr (fails_numberParameter_iff.mpr h)
      · rintro rfl
        cases hDigit
      · rintro rfl
        cases hDigit
    · rw [hPeek]
      dsimp only
      rw [if_neg hClose, if_neg hQuote, if_neg (Bool.eq_false_iff.mp hDigit)]
      exact fails_map_iff.mpr h

theorem fails_moreParameters_iff :
    Fails (moreParameters nested) c failure c' ↔
      ∃ d, c.Reads [Byte.comma] d ∧
        (Fails (parameter nested) d failure c' ∨
          (Gives (parameter nested) d none c' ∧
            failure = .bare (.unexpectedByte none c'.peek (some "parameter"))) ∨
          ∃ next e, Gives (parameter nested) d (some next) e ∧
            Fails (moreParameters nested) e failure c') := by
  conv_lhs => rw [moreParameters_eq]
  simp only [moreParametersWith, fails_bind_iff, not_fails_peek, gives_peek_iff, false_or]
  constructor
  · rintro ⟨_, d, ⟨rfl, rfl⟩, h⟩
    split at h
    · rename_i hComma
      simp only [fails_bind_iff, fails_expect_iff, gives_expect_iff, hComma, ne_eq,
        not_true_eq_false, false_and, false_or] at h
      obtain ⟨_, d, hRead, h | ⟨next?, e, hNext, h⟩⟩ := h
      · exact ⟨d, hRead, Or.inl h⟩
      · cases next? with
        | none =>
          simp only [fails_bind_iff, not_fails_peek, gives_peek_iff, fails_fail_iff, false_or] at h
          obtain ⟨_, _, ⟨rfl, rfl⟩, rfl, rfl⟩ := h
          exact ⟨d, hRead, Or.inr (Or.inl ⟨hNext, rfl⟩)⟩
        | some next =>
          simp only [fails_bind_iff, not_fails_pure, and_false, exists_false, or_false] at h
          exact ⟨d, hRead, Or.inr (Or.inr ⟨next, e, hNext, h⟩)⟩
    · exact absurd h not_fails_pure
  · rintro ⟨d, hRead, h⟩
    refine ⟨_, c, ⟨rfl, rfl⟩, ?_⟩
    rw [if_pos hRead.peek_eq]
    apply fails_bind_of_gives (gives_expect hRead)
    rcases h with h | ⟨hNone, rfl⟩ | ⟨next, e, hNext, h⟩
    · exact fails_bind_of_fails h
    · apply fails_bind_of_gives hNone
      exact fails_bind_of_gives (gives_peek c') (fails_fail_iff.mpr ⟨rfl, rfl⟩)
    · exact fails_bind_of_gives hNext (fails_bind_of_fails h)

theorem fails_parameterList_iff :
    Fails (parameterList nested) c failure c' ↔
      Fails (parameter nested) c failure c' ∨
        ∃ first d, Gives (parameter nested) c (some first) d ∧
          Fails (moreParameters nested) d failure c' := by
  simp only [parameterList, fails_bind_iff]
  constructor
  · rintro (h | ⟨first?, d, hFirst, h⟩)
    · exact Or.inl h
    · cases first? with
      | none => exact absurd h not_fails_pure
      | some first =>
        simp only [fails_bind_iff, not_fails_pure, and_false, exists_false, or_false] at h
        exact Or.inr ⟨first, d, hFirst, h⟩
  · rintro (h | ⟨first, d, hFirst, h⟩)
    · exact Or.inl h
    · exact Or.inr ⟨some first, d, hFirst, fails_bind_of_fails h⟩

theorem fails_parameters_iff :
    Fails (parameters nested) c failure c' ↔
      (c.peek ≠ some Byte.leftParenthesis ∧
        failure = .bare (Fault.due Byte.leftParenthesis c.peek) ∧ c' = c) ∨
      ∃ d, c.Reads [Byte.leftParenthesis] d ∧
        (Fails (parameterList nested) d failure c' ∨
          ∃ list, Gives (parameterList nested) d list c' ∧
            c'.peek ≠ some Byte.rightParenthesis ∧
            failure = .bare (Fault.due Byte.rightParenthesis c'.peek)) := by
  simp only [parameters, fails_bind_iff, fails_expect_iff, gives_expect_iff, not_fails_pure,
    and_false, exists_false, or_false]
  constructor
  · rintro (h | ⟨_, d, hOpen, h | ⟨list, e, hList, hNext, rfl, rfl⟩⟩)
    · exact Or.inl h
    · exact Or.inr ⟨d, hOpen, Or.inl h⟩
    · exact Or.inr ⟨d, hOpen, Or.inr ⟨list, hList, hNext, rfl⟩⟩
  · rintro (h | ⟨d, hOpen, h | ⟨list, hList, hNext, rfl⟩⟩)
    · exact Or.inl h
    · exact Or.inr ⟨(), d, hOpen, Or.inl h⟩
    · exact Or.inr ⟨(), d, hOpen, Or.inr ⟨list, c', hList, hNext, rfl, rfl⟩⟩

/-- A tag fails behind its name, in its parameters or in its body. -/
theorem fails_tag_iff (hSigil : c.peek = some options.sigil.byte) :
    Fails (tag options nested) c failure c' ↔
      ∃ name d, c.Reads (options.sigil.byte :: name) d ∧ Alphanumeric name ∧
        (∀ b, d.peek = some b → b.isAlphanumeric = false) ∧
        (Fails (parameters nested) d failure c' ∨
          ∃ list gap d' e, Gives (parameters nested) d list d' ∧ d'.Reads gap e ∧ Blank gap ∧
            e.peek = some Byte.leftBrace ∧ Fails (body options nested) e failure c') := by
  simp only [tag, fails_bind_iff, not_fails_position, not_fails_identifier, not_fails_skipSpaces,
    not_fails_pure, fails_expect_iff, fails_body?_iff, gives_position_iff, gives_expect_iff,
    gives_identifier_iff, gives_skipSpaces_iff, and_false, exists_false, or_false, false_or]
  constructor
  · rintro ⟨_, _, ⟨rfl, rfl⟩, ⟨hNext, -⟩ | ⟨_, c₁, hRead, _, d, ⟨name, hName, hAlphanumeric, hNext,
      rfl⟩, h⟩⟩
    · exact absurd hSigil hNext
    · refine ⟨name, d, hRead.trans hName, hAlphanumeric, hNext, ?_⟩
      rcases h with h | ⟨list, d', hList, _, e, ⟨gap, hGap, hBlank, -⟩, hBrace, h⟩
      · exact Or.inl h
      · exact Or.inr ⟨list, gap, d', e, hList, hGap, hBlank, hBrace, h⟩
  · rintro ⟨name, d, hRead, hAlphanumeric, hNext, h⟩
    obtain ⟨c₁, hRead, hName⟩ := Cursor.reads_cons_iff.mp hRead
    refine ⟨_, c, ⟨rfl, rfl⟩, Or.inr ⟨(), c₁, hRead, _, d, ⟨name, hName, hAlphanumeric, hNext, rfl⟩,
      ?_⟩⟩
    rcases h with h | ⟨list, gap, d', e, hList, hGap, hBlank, hBrace, h⟩
    · exact Or.inl h
    · have hSpace : e.peek ≠ some Byte.space := by
        rw [hBrace]
        decide
      exact Or.inr ⟨list, d', hList, (), e, ⟨gap, hGap, hBlank, hSpace⟩, hBrace, h⟩

@[simp] theorem not_fails_raw : ¬Fails (raw options) c failure c' := by
  simp [raw, fails_bind_iff, not_fails_pure]

/-- Of the elements, only the tags fail. -/
theorem fails_element_iff :
    Fails (element options nested) c failure c' ↔
      c.peek = some options.sigil.byte ∧ Fails (tag options nested) c failure c' := by
  simp only [element, fails_bind_iff, not_fails_peek, gives_peek_iff, false_or]
  constructor
  · rintro ⟨_, d, ⟨rfl, rfl⟩, h⟩
    cases hPeek : d.peek with
    | none =>
      rw [hPeek] at h
      exact absurd h not_fails_pure
    | some b =>
      rw [hPeek] at h
      dsimp only at h
      split at h
      · rename_i hSigil
        exact ⟨congrArg some hSigil, fails_map_iff.mp h⟩
      · exact absurd (fails_map_iff.mp h) not_fails_raw
  · rintro ⟨hSigil, h⟩
    refine ⟨_, c, ⟨rfl, rfl⟩, ?_⟩
    rw [hSigil]
    dsimp only
    rw [if_pos rfl]
    exact fails_map_iff.mpr h

end

end Template

end TagTemplate
