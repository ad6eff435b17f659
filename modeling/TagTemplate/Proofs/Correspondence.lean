import Mathlib.Logic.Equiv.Basic
import TagTemplate.Proofs.Element
import TagTemplate.Proofs.Recoding

/-!
# Readers that correspond

Two choices of options may differ in the sigil and in how a body ends. Where the one sigil is the
other one renamed, and no body ends elsewhere, they read alike: a buffer under the one, and the
buffer with its bytes renamed under the other. The bodies are compared only in buffers that satisfy
a condition, which has to hold of each text that is cut out of such a buffer.
-/

namespace TagTemplate

/-- Holds where `options'` finds in renamed bytes what `options` finds in those that satisfy
`Fits`. -/
structure Correspondence (p : Byte → Byte) (options options' : Options) (Fits : Bytes → Prop) :
    Prop where
  recoding : Recoding p
  sigil : p options.sigil.byte = options'.sigil.byte
  behind : ∀ {front rest}, Fits (front ++ rest) → Fits rest
  string : ∀ {written text rest}, Fits (Byte.quote :: written ++ Byte.quote :: rest) →
    Enclosed Byte.quote none written text → Fits text
  passage : ∀ {bytes}, Fits (Byte.leftBrace :: bytes) →
    delimited Byte.rightBrace options'.bodyOpener (bytes.map p) =
      (delimited Byte.rightBrace options.bodyOpener bytes).recode p
  body : ∀ {written text rest}, Fits (Byte.leftBrace :: written ++ Byte.rightBrace :: rest) →
    Enclosed Byte.rightBrace options.bodyOpener written text → Fits text

theorem Operator.ofByte?_recode {p : Byte → Byte} (hp : Recoding p) (b : Byte) :
    ofByte? (p b) = ofByte? b := by
  apply Option.ext
  intro operator
  have hKept : p operator.byte = operator.byte := by
    cases operator <;> exact hp.punctuation (by decide)
  rw [ofByte?_eq_some_iff, ofByte?_eq_some_iff, hp.eq_iff hKept]

/-- What is wrong with a number names no byte. -/
theorem Numeral.recode_of_ofRun (p : Byte → Byte) {run : Bytes} {fault : Fault}
    (h : ofRun run = .error fault) : fault.recode p = fault := by
  obtain ⟨text, type, rfl⟩ : ∃ text type, fault = .invalidNumber text type := by
    rw [ofRun] at h
    split at h
    · split at h
      · exact ⟨_, _, (Except.error.inj h).symm⟩
      · cases h
    · split at h
      · exact ⟨_, _, (Except.error.inj h).symm⟩
      · cases h
    · exact ⟨_, _, (Except.error.inj h).symm⟩
  rfl

namespace Scan

/-- What an opening byte, a passage and its delimiter take. -/
theorem enclosed_of_gives {opening delimiter : Byte} {opener : Option Byte} {text : Bytes}
    {u u' : Unit} {c c₁ c₂ c₃ : Cursor} (hOpen : Gives (expect opening) c u c₁)
    (hText : Gives (upTo delimiter opener) c₁ text c₂) (hClose : Gives (expect delimiter) c₂ u' c₃) :
    ∃ written, Enclosed delimiter opener written text ∧
      c.rest = opening :: written ++ delimiter :: c₃.rest := by
  obtain ⟨written, hWritten, hRead⟩ :=
    gives_upTo_reads_iff.mp ⟨c₂, hText, gives_expect_iff.mp hClose⟩
  refine ⟨written, hWritten, ?_⟩
  rw [((gives_expect_iff.mp hOpen).trans hRead).rest]
  simp

end Scan

namespace Template

open Scan

section

variable {p : Byte → Byte} {c : Cursor} (hp : Recoding p)

include hp

theorem mirrors_identifier : Mirrors p (Node.recode p) identifier identifier c := by
  refine mirrors_position.bind fun start c₁ _ => ?_
  refine (mirrors_run hp fun b hb => hp.alphanumeric hb).bind fun name c₂ _ => ?_
  refine mirrors_position.bind fun stop c₃ _ => ?_
  exact mirrors_pure (Node.recode p) (.identifier name.ascii (start.to stop))

theorem mirrors_number : Mirrors p (fun n => n) number number c := by
  have hKept : ∀ b : Byte, (b.isDigit || b = Byte.period) = true → p b = b := by
    intro b hb
    rw [Bool.or_eq_true, decide_eq_true_iff] at hb
    rcases hb with hDigit | rfl
    · exact hp.alphanumeric (by rw [Byte.isAlphanumeric, hDigit, Bool.true_or])
    · exact hp.punctuation (by decide)
  refine (mirrors_run hp hKept).bind fun run c₁ _ => ?_
  cases hRun : Numeral.ofRun run with
  | ok numeral => exact mirrors_pure (fun n => n) numeral
  | error fault =>
    have hFail := @mirrors_fail _ _ p c₁ (fun n : Numeral => n) fault
    rwa [Numeral.recode_of_ofRun p hRun] at hFail

theorem mirrors_numberParameter (start : Position) :
    Mirrors p (Node.recode p) (numberParameter start) (numberParameter start) c := by
  refine (mirrors_number hp).bind fun numeral c₁ _ => ?_
  refine mirrors_position.bind fun stop c₂ _ => ?_
  have hPure := @mirrors_pure _ _ p c₂ (Node.recode p) (numeral.node (start.to stop))
  rwa [Numeral.recode_node] at hPure

theorem startsParameter_recode (b : Byte) : startsParameter (p b) = startsParameter b := by
  refine hp.class_eq (fun b hb => ?_) b
  rw [startsParameter, Bool.or_eq_true, decide_eq_true_iff] at hb
  rcases hb with rfl | hb
  · exact hp.punctuation (by decide)
  · exact hp.alphanumeric hb

end

theorem mirrors_enclosed {p : Byte → Byte} {nested nested' : Bytes → Reading} {c : Cursor}
    (enclosure : Enclosure) {text : Bytes} (hText : nested' (text.map p) = (nested text).recode p) :
    Mirrors p (Node.recodeEach p) (enclosed nested enclosure text)
      (enclosed nested' enclosure (text.map p)) c := by
  rw [enclosed, enclosed, hText, List.length_map]
  exact (mirrors_record _).bind fun _ _ _ => mirrors_inside _

/-- Holds of the cursors that have at most `n` bytes to go, all of which fit. -/
structure Within (Fits : Bytes → Prop) (n : Nat) (c : Cursor) : Prop where
  length_le : c.rest.length ≤ n
  fits : Fits c.rest

section

variable {p : Byte → Byte} {options options' : Options} {Fits : Bytes → Prop}
  {nested nested' : Bytes → Reading} {n : Nat} {c c' : Cursor}
  (h : Correspondence p options options' Fits)

include h

theorem Within.of_reads {text : Bytes} (hWithin : Within Fits n c) (hRead : c.Reads text c') :
    Within Fits n c' := by
  have hLength := hWithin.length_le
  have hFits := hWithin.fits
  rw [hRead.length_eq] at hLength
  rw [hRead.rest] at hFits
  exact ⟨(Nat.le_add_left _ _).trans hLength, h.behind hFits⟩

theorem Within.of_gives {α : Type} {s : Scan α} {a : α} (hWithin : Within Fits n c)
    (hs : Advances s) (hGives : Gives s c a c') : Within Fits n c' := by
  obtain ⟨text, hRead⟩ := hs.reads hGives
  exact hWithin.of_reads h hRead

section

variable {self self' : Scan (Option Node)} {m : Nat}
  (hSelf : ∀ c : Cursor, c.rest.length < m → Within Fits n c →
    Mirrors p (Option.map (Node.recode p)) self self' c)

include hSelf

theorem mirrors_operand (hLess : c.rest.length < m) (hWithin : Within Fits n c) :
    Mirrors p (Node.recode p) (operand self) (operand self') c := by
  refine (mirrors_skipSpaces h.recoding).bind fun _ c₁ h₁ => ?_
  refine mirrors_peek.bind fun next c₂ h₂ => ?_
  have hLe₁ := advances_skipSpaces.length_le h₁
  have hLe₂ := advances_peek.length_le h₂
  have hWithin₁ := hWithin.of_gives h advances_skipSpaces h₁
  have hWithin₂ := hWithin₁.of_gives h advances_peek h₂
  have hNext : (next.map p).any (fun b => !startsParameter b) =
      next.any fun b => !startsParameter b := by
    cases next <;> simp [startsParameter_recode h.recoding]
  rw [hNext]
  split
  · exact mirrors_fail _
  · refine (hSelf c₂ (by omega) hWithin₂).bind fun right? c₃ _ => ?_
    cases right? with
    | none => exact mirrors_fail _
    | some right => exact mirrors_pure (Node.recode p) right

theorem mirrors_wordParameter (hLe : c.rest.length ≤ m) (hWithin : Within Fits n c)
    (start : Position) (first : Byte) :
    Mirrors p (Node.recode p) (wordParameter self start first)
      (wordParameter self' start (p first)) c := by
  refine (mirrors_identifier h.recoding).bind fun left c₁ h₁ => ?_
  have hLe₁ := advances_identifier.length_le h₁
  have hWithin₁ := hWithin.of_gives h advances_identifier h₁
  rw [Node.source_recode]
  split
  · exact mirrors_fail _
  · refine (mirrors_skipSpaces h.recoding).bind fun _ c₂ h₂ => ?_
    refine mirrors_peek.bind fun next c₃ h₃ => ?_
    have hLe₂ := advances_skipSpaces.length_le h₂
    have hLe₃ := advances_peek.length_le h₃
    have hWithin₂ := hWithin₁.of_gives h advances_skipSpaces h₂
    have hWithin₃ := hWithin₂.of_gives h advances_peek h₃
    have hNext : (next.map p).bind Operator.ofByte? = next.bind Operator.ofByte? := by
      cases next <;> simp [Operator.ofByte?_recode h.recoding]
    rw [hNext]
    cases next.bind Operator.ofByte? with
    | none =>
      refine mirrors_position.bind fun stop c₄ _ => ?_
      rw [← Node.recode_withSource]
      exact mirrors_pure (Node.recode p) _
    | some operator =>
      refine (mirrors_pop h.recoding).discard.bind fun _ c₄ h₄ => ?_
      have hLess := length_lt_of_pop h₄
      have hWithin₄ := hWithin₃.of_gives h (advances_pop.map _) h₄
      refine (mirrors_operand h hSelf (by omega) hWithin₄).bind fun right c₅ _ => ?_
      refine mirrors_position.bind fun stop c₆ _ => ?_
      exact mirrors_pure (Node.recode p) (.expression operator left right (start.to stop))

end

section

variable (hNested : ∀ text : Bytes, text.length < n → Fits text →
  nested' (text.map p) = (nested text).recode p)

include hNested

theorem mirrors_stringParameter (hWithin : Within Fits n c) (start : Position) :
    Mirrors p (Node.recode p) (stringParameter nested start) (stringParameter nested' start) c := by
  have hQuote : p Byte.quote = Byte.quote := h.recoding.punctuation (by decide)
  refine (mirrors_expect h.recoding hQuote).bind fun _ c₁ h₁ => ?_
  have hPassage := delimited_recode h.recoding Byte.quote none c₁.rest
  rw [hQuote] at hPassage
  refine (mirrors_upTo h.recoding hPassage).bind fun text c₂ h₂ => ?_
  refine (mirrors_expect h.recoding hQuote).bind fun _ c₃ h₃ => ?_
  obtain ⟨written, hWritten, hRest⟩ := enclosed_of_gives h₁ h₂ h₃
  have hFits := hWithin.fits
  have hLess := hWithin.length_le
  rw [hRest] at hFits hLess
  have hLe := hWritten.length_le
  simp only [List.length_append, List.length_cons] at hLess
  have hText := hNested text (by omega) (h.string hFits hWritten)
  refine (mirrors_enclosed .string hText).bind fun template c₄ _ => ?_
  refine mirrors_position.bind fun stop c₅ _ => ?_
  exact mirrors_pure (Node.recode p) (.string template (start.to stop))

theorem mirrors_parameterWith {self self' : Scan (Option Node)} {m : Nat}
    (hSelf : ∀ c : Cursor, c.rest.length < m → Within Fits n c →
      Mirrors p (Option.map (Node.recode p)) self self' c)
    (hLe : c.rest.length ≤ m) (hWithin : Within Fits n c) :
    Mirrors p (Option.map (Node.recode p)) (parameterWith nested self)
      (parameterWith nested' self') c := by
  refine (mirrors_skipSpaces h.recoding).bind fun _ c₁ h₁ => ?_
  refine mirrors_position.bind fun start c₂ h₂ => ?_
  refine mirrors_peek.bind fun next c₃ h₃ => ?_
  have hLe₁ := advances_skipSpaces.length_le h₁
  have hLe₂ := advances_position.length_le h₂
  have hLe₃ := advances_peek.length_le h₃
  have hWithin₁ := hWithin.of_gives h advances_skipSpaces h₁
  have hWithin₂ := hWithin₁.of_gives h advances_position h₂
  have hWithin₃ := hWithin₂.of_gives h advances_peek h₃
  have hClose : p Byte.rightParenthesis = Byte.rightParenthesis :=
    h.recoding.punctuation (by decide)
  have hQuote : p Byte.quote = Byte.quote := h.recoding.punctuation (by decide)
  have hDigit (b : Byte) : (p b).isDigit = b.isDigit := by
    refine h.recoding.class_eq (fun b hb => ?_) b
    exact h.recoding.alphanumeric (by rw [Byte.isAlphanumeric, hb, Bool.true_or])
  cases next with
  | none => exact mirrors_fail _
  | some b =>
    simp only [Option.map_some, h.recoding.eq_iff hClose, h.recoding.eq_iff hQuote, hDigit]
    split
    · exact mirrors_pure (Option.map (Node.recode p)) none
    · split
      · exact (mirrors_stringParameter h hNested hWithin₃ start).map fun _ => rfl
      · split
        · exact (mirrors_numberParameter h.recoding start).map fun _ => rfl
        · exact (mirrors_wordParameter h hSelf (by omega) hWithin₃ start b).map
            fun _ => rfl

theorem mirrors_parameter (hWithin : Within Fits n c) :
    Mirrors p (Option.map (Node.recode p)) (parameter nested) (parameter nested') c := by
  induction hLength : c.rest.length using Nat.strongRecOn generalizing c with
  | ind m ih =>
    rw [parameter_eq nested, parameter_eq nested']
    apply mirrors_parameterWith h hNested ?_ hLength.le hWithin
    intro c' hLess hWithin'
    exact ih c'.rest.length hLess hWithin' rfl

theorem mirrors_moreParametersWith {self self' : Scan (List Node)}
    (hSelf : ∀ c' : Cursor, c'.rest.length < c.rest.length → Within Fits n c' →
      Mirrors p (Node.recodeEach p) self self' c') (hWithin : Within Fits n c) :
    Mirrors p (Node.recodeEach p) (moreParametersWith nested self)
      (moreParametersWith nested' self') c := by
  have hComma : p Byte.comma = Byte.comma := h.recoding.punctuation (by decide)
  refine mirrors_peek.bind fun next c₁ h₁ => ?_
  have hLe₁ := advances_peek.length_le h₁
  have hWithin₁ := hWithin.of_gives h advances_peek h₁
  have hNext : next.map p = some Byte.comma ↔ next = some Byte.comma := by
    cases next <;> simp [h.recoding.eq_iff hComma]
  simp only [hNext]
  split
  · refine (mirrors_expect h.recoding hComma).bind fun _ c₂ h₂ => ?_
    have hLess := length_lt_of_expect h₂
    have hWithin₂ := hWithin₁.of_gives h (advances_expect _) h₂
    refine (mirrors_parameter h hNested hWithin₂).bind fun next? c₃ h₃ => ?_
    have hLe₃ := (advances_parameter nested).length_le h₃
    have hWithin₃ := hWithin₂.of_gives h (advances_parameter nested) h₃
    cases next? with
    | none => exact mirrors_peek.bind fun _ _ _ => mirrors_fail _
    | some next =>
      refine (hSelf c₃ (by omega) hWithin₃).bind fun more c₄ _ => ?_
      exact mirrors_pure (Node.recodeEach p) (next :: more)
  · exact mirrors_pure (Node.recodeEach p) []

theorem mirrors_moreParameters (hWithin : Within Fits n c) :
    Mirrors p (Node.recodeEach p) (moreParameters nested) (moreParameters nested') c := by
  induction hLength : c.rest.length using Nat.strongRecOn generalizing c with
  | ind m ih =>
    rw [moreParameters_eq nested, moreParameters_eq nested']
    apply mirrors_moreParametersWith h hNested ?_ hWithin
    intro c' hLess hWithin'
    exact ih c'.rest.length (hLength ▸ hLess) hWithin' rfl

theorem mirrors_parameterList (hWithin : Within Fits n c) :
    Mirrors p (Node.recodeEach p) (parameterList nested) (parameterList nested') c := by
  refine (mirrors_parameter h hNested hWithin).bind fun first? c₁ h₁ => ?_
  cases first? with
  | none => exact mirrors_pure (Node.recodeEach p) []
  | some first =>
    have hWithin₁ := hWithin.of_gives h (advances_parameter nested) h₁
    refine (mirrors_moreParameters h hNested hWithin₁).bind fun more c₂ _ => ?_
    exact mirrors_pure (Node.recodeEach p) (first :: more)

theorem mirrors_parameters (hWithin : Within Fits n c) :
    Mirrors p (Node.recodeEach p) (parameters nested) (parameters nested') c := by
  refine (mirrors_expect h.recoding (h.recoding.punctuation (by decide))).bind fun _ c₁ h₁ => ?_
  have hWithin₁ := hWithin.of_gives h (advances_expect _) h₁
  refine (mirrors_parameterList h hNested hWithin₁).bind fun list c₂ _ => ?_
  refine (mirrors_expect h.recoding (h.recoding.punctuation (by decide))).bind fun _ c₃ _ => ?_
  exact mirrors_pure (Node.recodeEach p) list

theorem mirrors_body (hWithin : Within Fits n c) :
    Mirrors p (Node.recodeEach p) (body options nested) (body options' nested') c := by
  refine (mirrors_expect h.recoding (h.recoding.punctuation (by decide))).bind fun _ c₁ h₁ => ?_
  have hBrace : c.rest = Byte.leftBrace :: c₁.rest := (gives_expect_iff.mp h₁).rest
  have hFits := hWithin.fits
  refine (mirrors_upTo h.recoding (h.passage (hBrace ▸ hFits))).bind fun text c₂ h₂ => ?_
  refine (mirrors_expect h.recoding (h.recoding.punctuation (by decide))).bind fun _ c₃ h₃ => ?_
  obtain ⟨written, hWritten, hRest⟩ := enclosed_of_gives h₁ h₂ h₃
  have hLess := hWithin.length_le
  rw [hRest] at hFits hLess
  have hLe := hWritten.length_le
  simp only [List.length_append, List.length_cons] at hLess
  exact mirrors_enclosed .body (hNested text (by omega) (h.body hFits hWritten))

theorem mirrors_body? (hWithin : Within Fits n c) :
    Mirrors p (Node.recodeBody p) (body? options nested) (body? options' nested') c := by
  have hBrace : p Byte.leftBrace = Byte.leftBrace := h.recoding.punctuation (by decide)
  refine mirrors_peek.bind fun next c₁ h₁ => ?_
  have hWithin₁ := hWithin.of_gives h advances_peek h₁
  have hNext : next.map p = some Byte.leftBrace ↔ next = some Byte.leftBrace := by
    cases next <;> simp [h.recoding.eq_iff hBrace]
  simp only [hNext]
  split
  · exact (mirrors_body h hNested hWithin₁).map fun _ => rfl
  · exact mirrors_pure (Node.recodeBody p) none

theorem mirrors_tag (hSigil : c.peek = some options.sigil.byte) (hWithin : Within Fits n c) :
    Mirrors p (Node.recode p) (tag options nested) (tag options' nested') c := by
  refine mirrors_position.bind fun start c₁ h₁ => ?_
  obtain ⟨-, rfl⟩ := gives_position_iff.mp h₁
  have hExpect := mirrors_expect_of_peek h.recoding hSigil
  rw [h.sigil] at hExpect
  refine hExpect.bind fun _ c₂ h₂ => ?_
  have hWithin₂ := hWithin.of_gives h (advances_expect _) h₂
  refine (mirrors_identifier h.recoding).bind fun name c₃ h₃ => ?_
  have hWithin₃ := hWithin₂.of_gives h advances_identifier h₃
  refine (mirrors_parameters h hNested hWithin₃).bind fun list c₄ h₄ => ?_
  have hWithin₄ := hWithin₃.of_gives h (advances_parameters nested) h₄
  refine (mirrors_skipSpaces h.recoding).bind fun _ c₅ h₅ => ?_
  have hWithin₅ := hWithin₄.of_gives h advances_skipSpaces h₅
  refine (mirrors_body? h hNested hWithin₅).bind fun content c₆ _ => ?_
  refine mirrors_position.bind fun stop c₇ _ => ?_
  exact mirrors_pure (Node.recode p) (.tag name list content (start.to stop))

omit hNested in
theorem mirrors_raw : Mirrors p (Node.recode p) (raw options) (raw options') c := by
  refine mirrors_position.bind fun start c₁ _ => ?_
  have hPassage := delimited_recode h.recoding options.sigil.byte none c₁.rest
  rw [h.sigil] at hPassage
  refine (mirrors_upTo h.recoding hPassage).bind fun data c₂ _ => ?_
  refine mirrors_position.bind fun stop c₃ _ => ?_
  exact mirrors_pure (Node.recode p) (.raw data (start.to stop))

theorem mirrors_element (hWithin : Within Fits n c) :
    Mirrors p (Option.map (Node.recode p)) (element options nested)
      (element options' nested') c := by
  refine mirrors_peek.bind fun next c₁ h₁ => ?_
  obtain ⟨hPeek, rfl⟩ := gives_peek_iff.mp h₁
  cases next with
  | none => exact mirrors_pure (Option.map (Node.recode p)) none
  | some b =>
    simp only [Option.map_some, ← h.sigil, h.recoding.injective.eq_iff]
    split
    · rename_i hSigil
      rw [hSigil] at hPeek
      exact (mirrors_tag h hNested hPeek.symm hWithin).map fun _ => rfl
    · exact (mirrors_raw h).map fun _ => rfl

theorem locatedElement_recode (hWithin : Within Fits n c) :
    locatedElement options' nested' (c.recode p) =
      (locatedElement options nested c).recode p (ParseError.recode p)
        (Option.map (Node.recode p)) := by
  have hElement := mirrors_element h hNested hWithin
  rw [locatedElement, locatedElement, hElement]
  cases hOutcome : (element options nested c).outcome with
  | ok node? => simp [Step.recode, hOutcome, Except.map, Except.mapError]
  | error failure =>
    cases failure with
    | located e => simp [Step.recode, hOutcome, Except.map, Except.mapError, Failure.recode]
    | bare fault =>
      simp [Step.recode, hOutcome, Except.map, Except.mapError, Failure.recode, Event.recode,
        ParseError.recode, Cursor.recode]

theorem elements_recode (hWithin : Within Fits n c) :
    elements options' nested' (c.recode p) =
      (elements options nested c).recode p (ParseError.recode p) (Node.recodeEach p) := by
  induction hLength : c.rest.length using Nat.strongRecOn generalizing c with
  | ind m ih =>
    obtain ⟨text, hRead⟩ := advances_element options nested c
    rw [← (locatedElement_outcome options nested c).2] at hRead
    have hWithin' := hWithin.of_reads h hRead
    rw [elements.eq_def options' nested' (c.recode p), elements.eq_def options nested c,
      locatedElement_recode h hNested hWithin]
    generalize locatedElement options nested c = s at hWithin' ⊢
    obtain ⟨outcome, c', trace⟩ := s
    cases outcome with
    | error e => rfl
    | ok node? =>
      cases node? with
      | none => rfl
      | some node =>
        have hLess : (c'.recode p).rest.length < (c.recode p).rest.length ↔
            c'.rest.length < c.rest.length := by
          simp [Cursor.recode]
        simp only [Step.recode, Except.map, Except.mapError, Option.map_some, hLess]
        split
        · rename_i hLt
          rw [ih c'.rest.length (hLength ▸ hLt) hWithin' rfl]
          generalize elements options nested c' = others
          obtain ⟨outcome, c'', trace'⟩ := others
          cases outcome <;>
            simp [Step.recode, Node.recodeEach, Except.map, Except.mapError]
        · rfl

end

/-- Corresponding readers differ in what they give by the renaming of bytes alone. -/
theorem read_recode {buffer : Bytes} (hFits : Fits buffer) :
    read options' (buffer.map p) = (read options buffer).recode p := by
  induction hLength : buffer.length using Nat.strongRecOn generalizing buffer with
  | ind n ih =>
    have hNested : ∀ text : Bytes, text.length < n → Fits text →
        read options' (text.map p) = (read options text).recode p :=
      fun text hLess hText => ih text.length hLess hText rfl
    have hElements := elements_recode h hNested
      (⟨hLength.le, hFits⟩ : Within Fits n (Cursor.start buffer))
    rw [read_eq, read_eq, readFrom, readFrom]
    change (⟨(elements options' (read options') ((Cursor.start buffer).recode p)).outcome,
      (elements options' (read options') ((Cursor.start buffer).recode p)).trace⟩ : Reading) = _
    rw [hElements]
    rfl

end

/-- The choice of the sigil is immaterial: if one sigil is put for another in a buffer, and the
other bytes are renamed one to one around those that tags are made of, then it is read alike, with
the data of the raw passages renamed, or stops at the same place for the same cause. -/
theorem read_other_sigil (p : Equiv.Perm Byte) (sigil sigil' : Sigil)
    (hSigil : p sigil.byte = sigil'.byte)
    (hFixed : ∀ b, b ∈ Byte.punctuation ∨ b.isAlphanumeric = true → p b = b) (balanced : Bool)
    (buffer : Bytes) :
    read ⟨sigil', balanced⟩ (buffer.map p) = (read ⟨sigil, balanced⟩ buffer).recode p := by
  have hRecoding : Recoding p := ⟨p.injective, hFixed⟩
  have hBraces (bytes : Bytes) :
      delimited Byte.rightBrace (Options.bodyOpener ⟨sigil', balanced⟩) (bytes.map p) =
        (delimited Byte.rightBrace (Options.bodyOpener ⟨sigil, balanced⟩) bytes).recode p := by
    have hPassage :=
      delimited_recode hRecoding Byte.rightBrace (Options.bodyOpener ⟨sigil, balanced⟩) bytes
    have hOpener : (Options.bodyOpener ⟨sigil, balanced⟩).map p =
        Options.bodyOpener ⟨sigil', balanced⟩ := by
      cases balanced with
      | false => rfl
      | true => exact congrArg some (hRecoding.punctuation (by decide))
    rwa [hOpener, hRecoding.punctuation (by decide)] at hPassage
  have h : Correspondence p ⟨sigil, balanced⟩ ⟨sigil', balanced⟩ fun _ => True :=
    { recoding := hRecoding
      sigil := hSigil
      behind := fun _ => trivial
      string := fun _ _ => trivial
      passage := fun _ => hBraces _
      body := fun _ _ => trivial }
  exact read_recode h trivial

/-- The exclamation mark and the number sign exchanged, in and around a tag. -/
theorem read_other_sigil_exclamation :
    let p : Equiv.Perm Byte := Equiv.swap 0x23 0x21
    let mark : Sigil := ⟨0x21, by decide, by decide⟩
    p Sigil.standard.byte = mark.byte ∧
      (∀ b, b ∈ Byte.punctuation ∨ b.isAlphanumeric = true → p b = b) ∧
      (read ⟨mark, false⟩ [0x23, 0x21, 0x61, 0x28, 0x29, 0x7B, 0x23, 0x7D]).result =
        .ok [.raw [0x23] ⟨1, 1, 0, 1⟩,
          .tag (.identifier "a" ⟨1, 3, 2, 3⟩) [] (some [.raw [0x23] ⟨1, 1, 0, 1⟩]) ⟨1, 2, 1, 8⟩] ∧
      read ⟨mark, false⟩ ([0x21, 0x23, 0x61, 0x28, 0x29, 0x7B, 0x21, 0x7D].map p) =
        (read ⟨Sigil.standard, false⟩ [0x21, 0x23, 0x61, 0x28, 0x29, 0x7B, 0x21, 0x7D]).recode
          p := by
  have hRead : (read ⟨⟨0x21, by decide, by decide⟩, false⟩
      [0x23, 0x21, 0x61, 0x28, 0x29, 0x7B, 0x23, 0x7D]).result =
      .ok [.raw [0x23] ⟨1, 1, 0, 1⟩,
        .tag (.identifier "a" ⟨1, 3, 2, 3⟩) [] (some [.raw [0x23] ⟨1, 1, 0, 1⟩])
          ⟨1, 2, 1, 8⟩] := by
    with_unfolding_all rfl
  intro p mark
  have hFixed : ∀ b, b ∈ Byte.punctuation ∨ b.isAlphanumeric = true → p b = b := by
    intro b hb
    apply Equiv.swap_apply_of_ne_of_ne
    · rintro rfl
      revert hb
      decide
    · rintro rfl
      revert hb
      decide
  have hSigil : p Sigil.standard.byte = mark.byte := by decide
  have hAlike := read_other_sigil p Sigil.standard mark hSigil hFixed false
    [0x21, 0x23, 0x61, 0x28, 0x29, 0x7B, 0x21, 0x7D]
  exact ⟨hSigil, hFixed, hRead, hAlike⟩

end Template

end TagTemplate
