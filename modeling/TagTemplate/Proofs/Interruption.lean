import TagTemplate.Proofs.Failure
import TagTemplate.Proofs.Locality

/-!
# Where a tag breaks off

A tag calls for a parameter behind its parenthesis, behind each comma and behind each operator. It
fails at the error of a text that has been cut out of it, or at a fault that the bytes around the
place where it stops bear out. A text that is cut out and has an error ends the tag there, whatever
stands behind it.
-/

namespace TagTemplate

/-- Holds where `run` is the longest run of digits and periods between what has been taken and the
rest, and starts with a digit. -/
structure NumberAt (taken run rest : Bytes) : Prop where
  front : ∃ front b, taken = front ++ b :: run ∧ (b.isDigit || b = Byte.period) = false
  digit : ∃ b, run.head? = some b ∧ b.isDigit = true
  bytes : ∀ b ∈ run, (b.isDigit || b = Byte.period) = true
  next : ∀ b, rest.head? = some b → (b.isDigit || b = Byte.period) = false

/-- Holds where the fault is what is wrong behind the bytes that have been taken and in front of the
rest. -/
def Fault.Explains (taken rest : Bytes) : Fault → Prop
  | endOfInput => rest = []
  | unexpectedByte expected actual what =>
    (∃ b, rest.head? = some b ∧ actual = some b) ∧ expected ≠ actual ∧
      (expected = none ∧ what = some "parameter" ∨
        (expected = some Byte.leftParenthesis ∨ expected = some Byte.rightParenthesis) ∧
          what = none)
  | missingOperand =>
    (∃ b, rest.head? = some b ∧ b ≠ Byte.quote ∧ b.isAlphanumeric = false) ∧
      ∃ front operator gap, taken = front ++ Operator.byte operator :: gap ∧ Blank gap
  | invalidNumber text type =>
    ∃ run, text = run.ascii ∧ NumberAt taken run rest ∧
      (2 ≤ run.count Byte.period ∧ type = "double" ∨
        run.count Byte.period = 0 ∧ Decimal.maxDigits < run.length ∧ type = "int")

theorem Fault.Explains.at_end {fault : Fault} {taken : Bytes} (h : fault.Explains taken []) :
    fault = .endOfInput ∨ ∃ text type, fault = .invalidNumber text type := by
  cases fault with
  | endOfInput => exact Or.inl rfl
  | unexpectedByte => exact nomatch h.1
  | missingOperand => exact nomatch h.1
  | invalidNumber text type => exact Or.inr ⟨text, type, rfl⟩

theorem Fault.Explains.parenthesis {b : Byte} {actual : Option Byte} {what : Option String}
    {taken rest : Bytes} (h : (Fault.unexpectedByte (some b) actual what).Explains taken rest) :
    b = Byte.leftParenthesis ∨ b = Byte.rightParenthesis := by
  obtain ⟨-, -, ⟨hNone, -⟩ | ⟨hByte, -⟩⟩ := h
  · cases hNone
  · exact hByte.imp Option.some.inj Option.some.inj

theorem Fault.explains_due {b : Byte} {taken rest : Bytes} (hNext : rest.head? ≠ some b)
    (hb : b = Byte.leftParenthesis ∨ b = Byte.rightParenthesis) :
    (Fault.due b rest.head?).Explains taken rest := by
  cases hHead : rest.head? with
  | none => exact List.head?_eq_none_iff.mp hHead
  | some actual =>
    rw [hHead] at hNext
    refine ⟨⟨actual, hHead, rfl⟩, Ne.symm hNext, Or.inr ⟨?_, rfl⟩⟩
    exact hb.imp (congrArg some) (congrArg some)

theorem Numeral.explains_of_ofRun {taken run rest : Bytes} {fault : Fault}
    (h : ofRun run = .error fault) (hRun : NumberAt taken run rest) :
    fault.Explains taken rest := by
  obtain ⟨b, hHead, hDigit⟩ := hRun.digit
  obtain ⟨digits, rfl⟩ := List.head?_eq_some_iff.mp hHead
  rw [ofRun] at h
  split at h
  · rename_i hCount
    split at h
    · rename_i hLength
      cases h
      exact ⟨b :: digits, rfl, hRun, Or.inr ⟨hCount, by simpa using hLength, rfl⟩⟩
    · cases h
  · rename_i hCount
    split at h
    · rename_i hLength
      -- One period alone is no number, but it does not start with a digit either.
      have hNil : digits = [] := List.length_eq_zero_iff.mp (Nat.succ.inj hLength)
      have hPeriod : Byte.period ∈ b :: digits := List.count_pos_iff.mp (by omega)
      rw [hNil, List.mem_singleton] at hPeriod
      rw [← hPeriod] at hDigit
      cases hDigit
    · cases h
  · rename_i hNone hOne
    cases h
    exact ⟨b :: digits, rfl, hRun, Or.inl ⟨(Nat.two_le_iff _).mpr ⟨hNone, hOne⟩, rfl⟩⟩

namespace Template

open Scan

section

variable (options : Options) (nested : Bytes → Reading)

/-- Holds where the tag that starts at `c` calls for a parameter. -/
inductive Calls (c : Cursor) : Cursor → Prop
  | first {name : Bytes} {d : Cursor} :
      c.Reads (options.sigil.byte :: name ++ [Byte.leftParenthesis]) d → Alphanumeric name →
      Calls c d
  | next {p : Node} {d d' e : Cursor} :
      Calls c d → Gives (parameter nested) d (some p) d' → d'.Reads [Byte.comma] e → Calls c e
  | operand {gap word gap' : Bytes} {operator : Operator} {d e : Cursor} :
      Calls c d → d.Reads (gap ++ word ++ gap' ++ [operator.byte]) e → Blank gap → Word word →
      Blank gap' → Calls c e

/-- Holds where the text is cut out of the tag that starts at `c`, right in front of a place. -/
inductive Cuts (c : Cursor) : Bytes → Cursor → Prop
  | string {gap written text : Bytes} {d e : Cursor} :
      Calls options nested c d → Blank gap →
      d.Reads (gap ++ (Byte.quote :: written ++ [Byte.quote])) e →
      Enclosed Byte.quote none written text → Cuts c text e
  | body {name gap written text : Bytes} {list : List Node} {d d' e : Cursor} :
      c.Reads (options.sigil.byte :: name) d → Alphanumeric name →
      Gives (parameters nested) d list d' → Blank gap →
      d'.Reads (gap ++ (Byte.leftBrace :: written ++ [Byte.rightBrace])) e →
      Enclosed Byte.rightBrace options.bodyOpener written text → Cuts c text e

/-- Holds where a tag that starts at `c` has reason to fail at `e`. -/
def BreaksOff (c e : Cursor) : Failure → Prop
  | .bare fault => ∃ taken, c.Reads (options.sigil.byte :: taken) e ∧
      fault.Explains (options.sigil.byte :: taken) e.rest
  | .located error => ∃ text, Cuts options nested c text e ∧ (nested text).result = .error error

end

section

variable {options : Options} {nested : Bytes → Reading} {failure : Failure} {c d d' e : Cursor}
  {p : Node}

theorem Calls.reads (h : Calls options nested c d) :
    ∃ front b, c.Reads (options.sigil.byte :: (front ++ [b])) d ∧
      (b.isDigit || b = Byte.period) = false := by
  induction h with
  | @first name d hRead _ => exact ⟨name, Byte.leftParenthesis, hRead, rfl⟩
  | @next p d d' e _ hNext hComma ih =>
    obtain ⟨front, b, hFront, -⟩ := ih
    obtain ⟨text, hText⟩ := (advances_parameter nested).reads hNext
    refine ⟨front ++ [b] ++ text, Byte.comma, ?_, rfl⟩
    simpa using hFront.trans (hText.trans hComma)
  | @operand gap word gap' operator d e _ hRead _ _ _ ih =>
    obtain ⟨front, b, hFront, -⟩ := ih
    refine ⟨front ++ [b] ++ (gap ++ word ++ gap'), operator.byte, ?_, ?_⟩
    · simpa using hFront.trans hRead
    · cases operator <;> rfl

/-- No number stands right in front of a parameter that is called for, nor of the spaces there. -/
theorem Calls.reads_gap {gap : Bytes} (h : Calls options nested c d) (hRead : d.Reads gap e)
    (hGap : Blank gap) :
    ∃ front b, c.Reads (options.sigil.byte :: (front ++ [b])) e ∧
      (b.isDigit || b = Byte.period) = false := by
  obtain ⟨front, b, hFront, hb⟩ := h.reads
  rcases List.eq_nil_or_concat gap with rfl | ⟨others, b', rfl⟩
  · obtain rfl := Cursor.reads_nil_iff.mp hRead
    exact ⟨front, b, hFront, hb⟩
  · obtain rfl := hGap b' (by simp)
    refine ⟨front ++ [b] ++ others, Byte.space, ?_, rfl⟩
    simpa using hFront.trans hRead

theorem Cuts.reads {inner : Bytes} (h : Cuts options nested c inner d) :
    ∃ text, c.Reads (options.sigil.byte :: text) d := by
  cases h with
  | string hCalls _ hRead _ =>
    obtain ⟨front, b, hFront, -⟩ := hCalls.reads
    exact ⟨_, hFront.trans hRead⟩
  | body hRead _ hList _ hRead' _ =>
    obtain ⟨list, hText⟩ := (advances_parameters nested).reads hList
    exact ⟨_, hRead.trans (hText.trans hRead')⟩

theorem BreaksOff.reads (h : BreaksOff options nested c e failure) :
    ∃ taken, c.Reads (options.sigil.byte :: taken) e := by
  cases failure with
  | bare fault =>
    obtain ⟨taken, hTaken, -⟩ := h
    exact ⟨taken, hTaken⟩
  | located error =>
    obtain ⟨text, hCuts, -⟩ := h
    exact hCuts.reads

theorem breaksOff_of_reads {taken : Bytes} {fault : Fault}
    (hRead : c.Reads (options.sigil.byte :: taken) d)
    (h : fault.Explains (options.sigil.byte :: taken) d.rest) :
    BreaksOff options nested c d (.bare fault) :=
  ⟨taken, hRead, h⟩

theorem Calls.breaksOff_at_end {gap text : Bytes} (h : Calls options nested c d)
    (hGap : d.Reads gap d') (hText : d'.Reads text e) (hRest : e.rest = []) :
    BreaksOff options nested c e (.bare .endOfInput) := by
  obtain ⟨front, b, hFront, -⟩ := h.reads
  exact breaksOff_of_reads (hFront.trans (hGap.trans hText)) hRest

theorem Calls.breaksOff_of_number {gap : Bytes} {b : Byte} (h : Calls options nested c d)
    (hGap : d.Reads gap d') (hBlank : Blank gap) (hPeek : d'.peek = some b)
    (hDigit : b.isDigit = true) (hNumber : Fails number d' failure e) :
    BreaksOff options nested c e failure := by
  obtain ⟨front, b', hFront, hb'⟩ := h.reads_gap hGap hBlank
  obtain ⟨run, fault, hRun, hBytes, hNext, hFault, rfl⟩ := fails_number_iff.mp hNumber
  apply breaksOff_of_reads (hFront.trans hRun)
  refine Numeral.explains_of_ofRun hFault ⟨?_, ?_, hBytes, hNext⟩
  · exact ⟨options.sigil.byte :: front, b', by simp, hb'⟩
  · cases run with
    | nil =>
      obtain rfl := Cursor.reads_nil_iff.mp hRun
      have hNone := hNext b hPeek
      simp [hDigit] at hNone
    | cons b'' run =>
      obtain rfl := Option.some.inj (hRun.peek_eq.symm.trans hPeek)
      exact ⟨b'', rfl, hDigit⟩

theorem startsParameter_eq_false_iff {b : Byte} :
    startsParameter b = false ↔ b ≠ Byte.quote ∧ b.isAlphanumeric = false := by
  simp [startsParameter]

theorem Calls.breaksOff_behind_operator {front gap : Bytes} {operator : Operator} {b : Byte}
    (h : Calls options nested c d) (hOperator : d.Reads (front ++ [operator.byte]) d')
    (hGap : d'.Reads gap e) (hBlank : Blank gap) (hPeek : e.peek = some b)
    (hStart : startsParameter b = false) :
    BreaksOff options nested c e (.bare .missingOperand) := by
  obtain ⟨called, b', hCalled, -⟩ := h.reads
  refine breaksOff_of_reads (hCalled.trans (hOperator.trans hGap)) ⟨?_, ?_⟩
  · exact ⟨b, hPeek, startsParameter_eq_false_iff.mp hStart⟩
  · refine ⟨options.sigil.byte :: (called ++ [b'] ++ front), operator, gap, ?_, hBlank⟩
    simp

theorem word_of_peek {word rest : Bytes} {b : Byte} (hNonempty : word ≠ [])
    (hWord : Alphanumeric word) (hRead : c.Reads (word ++ rest) d) (hPeek : c.peek = some b)
    (hDigit : b.isDigit = false) : Word word := by
  obtain ⟨b', others, rfl⟩ := List.exists_cons_of_ne_nil hNonempty
  obtain rfl := Option.some.inj (hRead.peek_eq.symm.trans hPeek)
  have hb := hWord b' List.mem_cons_self
  rw [Byte.isAlphanumeric, hDigit, Bool.false_or] at hb
  exact ⟨hWord, b', rfl, hb⟩

theorem Calls.breaksOff_of_parameter {gap : Bytes} (h : Calls options nested c d)
    (hGap : d.Reads gap d') (hBlank : Blank gap) (hFails : Fails (parameter nested) d' failure e) :
    BreaksOff options nested c e failure := by
  -- Only the operand behind an operator is a parameter again, and the tag calls for it there.
  induction hLength : d'.rest.length using Nat.strongRecOn generalizing d d' gap with
  | ind n ih =>
    obtain ⟨gap', f, hGap', hBlank', -, hFails⟩ := fails_parameter_iff.mp hFails
    have hSpaces := hGap.trans hGap'
    have hBlanks := hBlank.append hBlank'
    rcases hFails with ⟨hRest, rfl, rfl⟩ | ⟨hQuote, hFails⟩ |
      ⟨b, hPeek, ⟨hDigit, hFails⟩ | ⟨-, hQuote, hDigit, hFails⟩⟩
    · exact h.breaksOff_at_end hSpaces (Cursor.Reads.refl e) hRest
    · rcases (fails_stringParameter_iff hQuote).mp hFails with
        ⟨f', text, hOpen, hText, hRest, rfl⟩ | ⟨written, text, hText, hRead, error, hResult, rfl⟩
      · obtain ⟨written, hWritten⟩ := (advances_upTo _ _).reads hText
        exact h.breaksOff_at_end hSpaces (hOpen.trans hWritten) hRest
      · exact ⟨text, .string h hBlanks (hSpaces.trans hRead) hText, hResult⟩
    · exact h.breaksOff_of_number hSpaces hBlanks hPeek hDigit hFails
    · rcases fails_wordParameter_iff.mp hFails with
        ⟨hNext, rfl, rfl⟩ | ⟨word, gap₁, operator, f₁, hNonempty, hWord, hBlank₁, hRead, hFails⟩
      · obtain ⟨front, b', hFront, -⟩ := h.reads_gap hSpaces hBlanks
        exact breaksOff_of_reads hFront ⟨⟨b, hPeek, rfl⟩, nofun, Or.inl ⟨rfl, rfl⟩⟩
      · obtain ⟨gap₂, f₂, hGap₂, hBlank₂, -, hFails⟩ := fails_operand_iff.mp hFails
        have hOperator := hSpaces.trans hRead
        rcases hFails with ⟨b', hPeek', hStart, rfl, rfl⟩ | ⟨-, hFails⟩
        · rw [← List.append_assoc] at hOperator
          exact h.breaksOff_behind_operator hOperator hGap₂ hBlank₂ hPeek' hStart
        · have hLess : f₂.rest.length < n := by
            have hOperatorLength := (hGap'.trans (hRead.trans hGap₂)).length_eq
            simp only [List.length_append, List.length_singleton] at hOperatorLength
            omega
          rw [List.append_assoc] at hRead
          have hLetter := word_of_peek hNonempty hWord hRead hPeek hDigit
          have hCalls : Calls options nested c f₁ :=
            .operand h (by simpa using hOperator) hBlanks hLetter hBlank₁
          exact ih _ hLess hCalls hGap₂ hBlank₂ hFails rfl

theorem Calls.breaksOff_of_moreParameters (h : Calls options nested c d)
    (hNext : Gives (parameter nested) d (some p) d')
    (hFails : Fails (moreParameters nested) d' failure e) :
    BreaksOff options nested c e failure := by
  induction hLength : d'.rest.length using Nat.strongRecOn generalizing d d' p with
  | ind n ih =>
    obtain ⟨f, hComma, hFails⟩ := fails_moreParameters_iff.mp hFails
    have hCalls := h.next hNext hComma
    rcases hFails with hFails | ⟨hNone, rfl⟩ | ⟨q, f', hNext', hFails⟩
    · exact hCalls.breaksOff_of_parameter (Cursor.Reads.refl f) blank_nil hFails
    · obtain ⟨gap, hGap, hBlank, hPeek⟩ := gives_parameter_none_iff.mp hNone
      obtain ⟨front, b, hFront, -⟩ := hCalls.reads_gap hGap hBlank
      exact breaksOff_of_reads hFront ⟨⟨_, hPeek, hPeek⟩, by rw [hPeek]; exact nofun,
        Or.inl ⟨rfl, rfl⟩⟩
    · have hLess : f'.rest.length < n := by
        obtain ⟨text, hText⟩ := (advances_parameter nested).reads hNext'
        have hTextLength := (hComma.trans hText).length_eq
        simp only [List.length_append, List.length_singleton] at hTextLength
        omega
      exact ih _ hLess hCalls hNext' hFails rfl

theorem breaksOff_of_parameters {name : Bytes}
    (hRead : c.Reads (options.sigil.byte :: name) d) (hName : Alphanumeric name)
    (hFails : Fails (parameters nested) d failure e) : BreaksOff options nested c e failure := by
  rcases fails_parameters_iff.mp hFails with
    ⟨hNext, rfl, rfl⟩ | ⟨f, hOpen, hFails | ⟨list, hList, hNext, rfl⟩⟩
  · exact breaksOff_of_reads hRead (Fault.explains_due hNext (Or.inl rfl))
  · have hCalls : Calls options nested c f := .first (hRead.trans hOpen) hName
    rcases fails_parameterList_iff.mp hFails with hFails | ⟨first, f', hFirst, hFails⟩
    · exact hCalls.breaksOff_of_parameter (Cursor.Reads.refl f) blank_nil hFails
    · exact hCalls.breaksOff_of_moreParameters hFirst hFails
  · obtain ⟨text, hText⟩ := (advances_parameterList nested).reads hList
    exact breaksOff_of_reads (hRead.trans (hOpen.trans hText))
      (Fault.explains_due hNext (Or.inr rfl))

theorem breaksOff_of_tag (hSigil : c.peek = some options.sigil.byte)
    (hFails : Fails (tag options nested) c failure e) : BreaksOff options nested c e failure := by
  obtain ⟨name, d, hRead, hName, -, hFails⟩ := (fails_tag_iff hSigil).mp hFails
  rcases hFails with hFails | ⟨list, gap, d', f, hList, hGap, hBlank, hBrace, hFails⟩
  · exact breaksOff_of_parameters hRead hName hFails
  · rcases (fails_body_iff hBrace).mp hFails with
      ⟨f', text, hOpen, hText, hRest, rfl⟩ | ⟨written, text, hText, hBody, error, hResult, rfl⟩
    · obtain ⟨inner, hInner⟩ := (advances_parameters nested).reads hList
      obtain ⟨written, hWritten⟩ := (advances_upTo _ _).reads hText
      exact breaksOff_of_reads
        (hRead.trans (hInner.trans (hGap.trans (hOpen.trans hWritten)))) hRest
    · exact ⟨text, .body hRead hName hList hBlank (hGap.trans hBody) hText, hResult⟩

theorem fails_tag_of_parameterList {name : Bytes}
    (hRead : c.Reads (options.sigil.byte :: name ++ [Byte.leftParenthesis]) d)
    (hName : Alphanumeric name) (hFails : Fails (parameterList nested) d failure e) :
    Fails (tag options nested) c failure e := by
  obtain ⟨f, hFront, hOpen⟩ := Cursor.reads_append_iff.mp hRead
  have hParameters : Fails (parameters nested) f failure e :=
    fails_parameters_iff.mpr (Or.inr ⟨d, hOpen, Or.inl hFails⟩)
  exact (fails_tag_iff hFront.peek_eq).mpr
    ⟨name, f, hFront, hName, Cursor.stops_of_peek hOpen.peek_eq rfl, Or.inl hParameters⟩

theorem Calls.fails_tag_of_moreParameters (h : Calls options nested c d)
    (hNext : Gives (parameter nested) d (some p) d')
    (hFails : Fails (moreParameters nested) d' failure e) :
    Fails (tag options nested) c failure e := by
  induction h generalizing p d' with
  | first hRead hName =>
    apply fails_tag_of_parameterList hRead hName
    exact fails_parameterList_iff.mpr (Or.inr ⟨p, d', hNext, hFails⟩)
  | next _ hPrevious hComma ih =>
    apply ih hPrevious
    exact fails_moreParameters_iff.mpr ⟨_, hComma, Or.inr (Or.inr ⟨p, d', hNext, hFails⟩)⟩
  | operand _ hRead hGap hWord hGap' ih =>
    obtain ⟨expression, hExpression, -⟩ :=
      Grammar.expression_complete hGap hWord hGap' hRead hNext
    exact ih hExpression hFails

/-- What a parameter with an error inside starts with announces a parameter. -/
theorem startsParameter_of_fails {error : ParseError}
    (h : Fails (parameter nested) c (.located error) e) :
    ∃ gap d, c.Reads gap d ∧ Blank gap ∧ d.peek ≠ some Byte.space ∧
      (∀ b, d.peek = some b → startsParameter b = true) ∧
      Fails (parameter nested) d (.located error) e := by
  obtain ⟨gap, d, hGap, hBlank, hSpace, hFails⟩ := fails_parameter_iff.mp h
  refine ⟨gap, d, hGap, hBlank, hSpace, ?_, ?_⟩
  · intro b hb
    rcases hFails with ⟨-, hFailure, -⟩ | ⟨hQuote, -⟩ | ⟨b', hPeek, hFails⟩
    · cases hFailure
    · obtain rfl := Option.some.inj (hb.symm.trans hQuote)
      rfl
    · obtain rfl := Option.some.inj (hb.symm.trans hPeek)
      rcases hFails with ⟨hDigit, -⟩ | ⟨-, -, -, hFails⟩
      · simp [startsParameter, Byte.isAlphanumeric, hDigit]
      · rcases fails_wordParameter_iff.mp hFails with
          ⟨-, hFailure, -⟩ | ⟨word, _, _, _, hNonempty, hWord, -, hRead, -⟩
        · cases hFailure
        · obtain ⟨b', others, rfl⟩ := List.exists_cons_of_ne_nil hNonempty
          obtain rfl := Option.some.inj (hRead.peek_eq.symm.trans hb)
          simp [startsParameter, hWord b' List.mem_cons_self]
  · exact fails_parameter_iff.mpr
      ⟨[], d, Cursor.Reads.refl d, blank_nil, hSpace, hFails⟩

theorem fails_parameter_of_operand {gap word gap' : Bytes} {operator : Operator}
    {error : ParseError} (hRead : c.Reads (gap ++ word ++ gap' ++ [operator.byte]) d)
    (hGap : Blank gap) (hWord : Word word) (hGap' : Blank gap')
    (h : Fails (parameter nested) d (.located error) e) :
    Fails (parameter nested) c (.located error) e := by
  obtain ⟨gap₂, d₂, hGap₂, hBlank₂, hSpace, hStart, h⟩ := startsParameter_of_fails h
  have hOperand : Fails (operand (parameter nested)) d (.located error) e :=
    fails_operand_iff.mpr ⟨gap₂, d₂, hGap₂, hBlank₂, hSpace, Or.inr ⟨hStart, h⟩⟩
  rw [List.append_assoc, List.append_assoc] at hRead
  obtain ⟨f, hFront, hRead⟩ := Cursor.reads_append_iff.mp hRead
  rw [← List.append_assoc] at hRead
  obtain ⟨b, hHead, hLetter⟩ := hWord.letter
  obtain ⟨others, rfl⟩ := List.head?_eq_some_iff.mp hHead
  have hPeek : f.peek = some b := hRead.peek_eq
  have hOther {b' : Byte} (hb' : b'.isLetter = false) : b ≠ b' := by
    rintro rfl
    rw [hLetter] at hb'
    cases hb'
  apply fails_parameter_iff.mpr
  refine ⟨gap, f, hFront, hGap, ?_, Or.inr (Or.inr ⟨b, hPeek, Or.inr ⟨hOther (by decide),
    hOther (by decide), Byte.isDigit_of_isLetter hLetter, ?_⟩⟩)⟩
  · rw [hPeek]
    exact fun hSpace => hOther (by decide) (Option.some.inj hSpace)
  · exact fails_wordParameter_iff.mpr (Or.inr ⟨b :: others, gap', operator, d,
      List.cons_ne_nil b others, hWord.alphanumeric, hGap', hRead, hOperand⟩)

/-- An error inside a parameter that is called for ends the tag. -/
theorem Calls.fails_tag_of_parameter {error : ParseError} (h : Calls options nested c d)
    (hFails : Fails (parameter nested) d (.located error) e) :
    Fails (tag options nested) c (.located error) e := by
  induction h with
  | first hRead hName =>
    exact fails_tag_of_parameterList hRead hName (fails_parameterList_iff.mpr (Or.inl hFails))
  | next hCalls hPrevious hComma _ =>
    apply hCalls.fails_tag_of_moreParameters hPrevious
    exact fails_moreParameters_iff.mpr ⟨_, hComma, Or.inl hFails⟩
  | operand _ hRead hGap hWord hGap' ih =>
    exact ih (fails_parameter_of_operand hRead hGap hWord hGap' hFails)

theorem fails_tag_of_cuts {text : Bytes} {error : ParseError} (h : Cuts options nested c text e)
    (hError : (nested text).result = .error error) :
    Fails (tag options nested) c (.located error) e := by
  cases h with
  | @string gap written _ d _ hCalls hGap hRead hText =>
    obtain ⟨d', hFront, hString⟩ := Cursor.reads_append_iff.mp hRead
    have hQuote : d'.peek = some Byte.quote := hString.peek_eq
    apply hCalls.fails_tag_of_parameter
    apply fails_parameter_iff.mpr
    refine ⟨gap, d', hFront, hGap, by rw [hQuote]; decide, Or.inr (Or.inl ⟨hQuote, ?_⟩)⟩
    exact (fails_stringParameter_iff hQuote).mpr
      (Or.inr ⟨written, text, hText, hString, error, hError, rfl⟩)
  | @body name gap written _ list d d' _ hRead hName hList hGap hRead' hText =>
    obtain ⟨f, hFront, hBody⟩ := Cursor.reads_append_iff.mp hRead'
    have hBrace : f.peek = some Byte.leftBrace := hBody.peek_eq
    obtain ⟨_, _, hOpen, -⟩ := gives_parameters_iff.mp hList
    apply (fails_tag_iff hRead.peek_eq).mpr
    refine ⟨name, d, hRead, hName, Cursor.stops_of_peek hOpen.peek_eq rfl, Or.inr ⟨list, gap, d',
      f, hList, hFront, hGap, hBrace, ?_⟩⟩
    exact (fails_body_iff hBrace).mpr (Or.inr ⟨written, text, hText, hBody, error, hError, rfl⟩)

/-- A text that is cut out and has an error ends the element, whatever stands behind it. -/
theorem fails_element_of_cuts {text : Bytes} {error : ParseError}
    (h : Cuts options nested c text e) (hError : (nested text).result = .error error) :
    Fails (element options nested) c (.located error) e := by
  obtain ⟨_, hText⟩ := h.reads
  exact fails_element_iff.mpr ⟨hText.peek_eq, fails_tag_of_cuts h hError⟩

variable {front text : Bytes} {c₁ d₁ : Cursor}

/-- What a tag calls for depends on its own bytes up to there only. -/
theorem Calls.behind (h : Calls options nested c d) (hRead : c.Reads text d)
    (hBehind : c.Behind front c₁) (hRead' : c₁.Reads text d₁) : Calls options nested c₁ d₁ := by
  induction h generalizing text d₁ with
  | first hFront hName =>
    obtain rfl := hRead.text_eq hFront
    exact .first hRead' hName
  | next hCalls hNext hComma ih =>
    obtain ⟨_, _, hFront, -⟩ := hCalls.reads
    obtain ⟨inner, hInner⟩ := (advances_parameter nested).reads hNext
    obtain rfl := hRead.text_eq (hFront.trans (hInner.trans hComma))
    obtain ⟨f, hFront', hRead'⟩ := Cursor.reads_append_iff.mp hRead'
    obtain ⟨f', hInner', hComma'⟩ := Cursor.reads_append_iff.mp hRead'
    have hNext' := translates_parameter.gives hNext hInner (hBehind.reads hFront hFront') hInner'
      (hComma'.peek_eq.trans hComma.peek_eq.symm)
    exact .next (ih hFront hFront') hNext' hComma'
  | operand hCalls hOperator hGap hWord hGap' ih =>
    obtain ⟨_, _, hFront, -⟩ := hCalls.reads
    obtain rfl := hRead.text_eq (hFront.trans hOperator)
    obtain ⟨f, hFront', hOperator'⟩ := Cursor.reads_append_iff.mp hRead'
    exact .operand (ih hFront hFront') hOperator' hGap hWord hGap'

/-- A text is cut out of a tag wherever the bytes of the tag up to the end of that text stand. -/
theorem Cuts.behind {inner : Bytes} (h : Cuts options nested c inner d) (hRead : c.Reads text d)
    (hBehind : c.Behind front c₁) (hRead' : c₁.Reads text d₁) :
    Cuts options nested c₁ inner d₁ := by
  cases h with
  | string hCalls hGap hString hText =>
    obtain ⟨_, _, hFront, -⟩ := hCalls.reads
    obtain rfl := hRead.text_eq (hFront.trans hString)
    obtain ⟨f, hFront', hString'⟩ := Cursor.reads_append_iff.mp hRead'
    exact .string (hCalls.behind hFront hBehind hFront') hGap hString' hText
  | body hName hAlphanumeric hList hGap hBody hText =>
    obtain ⟨_, hInner⟩ := (advances_parameters nested).reads hList
    obtain rfl := hRead.text_eq (hName.trans (hInner.trans hBody))
    obtain ⟨f, hName', hRead'⟩ := Cursor.reads_append_iff.mp hRead'
    obtain ⟨f', hInner', hBody'⟩ := Cursor.reads_append_iff.mp hRead'
    have hList' := gives_parameters_behind hList hInner (hBehind.reads hName hName') hInner'
    exact .body hName' hAlphanumeric hList' hGap hBody' hText

end

end Template

end TagTemplate
