import TagTemplate.Proofs.Failure
import TagTemplate.Proofs.Locality

/-!
# Errors of enclosed templates

A failure that has a place already is the error of a template that was cut out of the buffer, and
the scan that fails with it stops right behind the closing delimiter of that template.
-/

namespace TagTemplate

/-- Holds of the runs that enclose a text between the delimiters of a string or of a body. -/
inductive Encloses (options : Options) : Bytes → Bytes → Prop
  | string {written text : Bytes} : Enclosed Byte.quote none written text →
      Encloses options (Byte.quote :: written ++ [Byte.quote]) text
  | body {written text : Bytes} : Enclosed Byte.rightBrace options.bodyOpener written text →
      Encloses options (Byte.leftBrace :: written ++ [Byte.rightBrace]) text

theorem Encloses.length_lt {options : Options} {run text : Bytes} (h : Encloses options run text) :
    text.length < run.length := by
  cases h with
  | string h => exact h.length_lt Byte.quote
  | body h => exact h.length_lt Byte.leftBrace

namespace Scan

variable {α β : Type} {s : Scan α} {f : α → Scan β} {c c' : Cursor} {e : ParseError}

/-- Holds of the scans whose failures have no place of their own. -/
def Bare (s : Scan α) : Prop :=
  ∀ c e c', ¬Fails s c (.located e) c'

theorem Bare.fails_bind (hs : Bare s) (h : Fails (s >>= f) c (.located e) c') :
    ∃ a d, Gives s c a d ∧ Fails (f a) d (.located e) c' :=
  (fails_bind_iff.mp h).resolve_left (hs c e c')

theorem bare_pure (a : α) : Bare (pure a : Scan α) :=
  fun _ _ _ => not_fails_pure

theorem bare_fail (fault : Fault) : Bare (fail fault : Scan α) := by
  rintro c e c' ⟨hOutcome, -⟩
  cases hOutcome

theorem bare_position : Bare position := by
  rintro c e c' ⟨hOutcome, -⟩
  cases hOutcome

theorem bare_peek : Bare peek := by
  rintro c e c' ⟨hOutcome, -⟩
  cases hOutcome

theorem bare_pop : Bare pop := by
  rintro ⟨p, rest⟩ e c' ⟨hOutcome, -⟩
  cases rest <;> cases hOutcome

theorem bare_run (p : Byte → Bool) : Bare (run p) := by
  rintro c e c' ⟨hOutcome, -⟩
  cases hOutcome

theorem bare_upTo (delimiter : Byte) (opener : Option Byte) : Bare (upTo delimiter opener) := by
  rintro c e c' ⟨hOutcome, -⟩
  cases hOutcome

theorem Bare.bind (hs : Bare s) (hf : ∀ a, Bare (f a)) : Bare (s >>= f) := by
  intro c e c' h
  obtain ⟨a, d, -, h⟩ := hs.fails_bind h
  exact hf a d e c' h

theorem Bare.map (hs : Bare s) (f : α → β) : Bare (f <$> s) :=
  hs.bind fun a => bare_pure (f a)

theorem bare_expect (b : Byte) : Bare (expect b) := by
  refine bare_peek.bind fun next => ?_
  split
  · exact bare_fail _
  · split
    · exact bare_pop.map _
    · exact bare_fail _

theorem bare_skipSpaces : Bare skipSpaces :=
  (bare_run _).map _

/-- Holds where `c'` stands right behind a text that is enclosed between the two cursors, and the
reading of that text ends with the error. -/
def ErrorBetween (options : Options) (nested : Bytes → Reading) (c : Cursor) (e : ParseError)
    (c' : Cursor) : Prop :=
  ∃ front run text, c.Reads (front ++ run) c' ∧ Encloses options run text ∧
    (nested text).result = .error e

/-- Holds of the scans that fail with a place only where an enclosed template has an error. -/
def Confines (options : Options) (nested : Bytes → Reading) (s : Scan α) : Prop :=
  ∀ c e c', Fails s c (.located e) c' → ErrorBetween options nested c e c'

section

variable {options : Options} {nested : Bytes → Reading}

theorem ErrorBetween.of_reads {text : Bytes} {d : Cursor} (hRead : c.Reads text d)
    (h : ErrorBetween options nested d e c') : ErrorBetween options nested c e c' := by
  obtain ⟨front, run, inner, hRun, hInner⟩ := h
  refine ⟨text ++ front, run, inner, ?_, hInner⟩
  rw [List.append_assoc]
  exact hRead.trans hRun

theorem Bare.confines (h : Bare s) : Confines options nested s :=
  fun c e c' hFails => absurd hFails (h c e c')

theorem Confines.bind (hs : Confines options nested s) (hAdvances : Advances s)
    (hf : ∀ a, Confines options nested (f a)) : Confines options nested (s >>= f) := by
  intro c e c' h
  rcases fails_bind_iff.mp h with hFails | ⟨a, d, hGives, hFails⟩
  · exact hs c e c' hFails
  · obtain ⟨text, hRead⟩ := hAdvances.reads hGives
    exact .of_reads hRead (hf a d e c' hFails)

theorem Confines.map (hs : Confines options nested s) (f : α → β) :
    Confines options nested (f <$> s) :=
  fun c e c' h => hs c e c' (fails_map_iff.mp h)

theorem Bare.confines_bind (hs : Bare s) (hAdvances : Advances s)
    (hf : ∀ a, Confines options nested (f a)) : Confines options nested (s >>= f) :=
  hs.confines.bind hAdvances hf

theorem Confines.fix {body : Scan α → Scan α} (hAdvances : Advances (Scan.fix body))
    (h : ∀ self, Advances self → Confines options nested self →
      Confines options nested (body self)) :
    Confines options nested (Scan.fix body) := by
  intro c e c' hFails
  induction hLength : c.rest.length using Nat.strongRecOn generalizing c e c' with
  | ind n ih =>
    obtain ⟨hOutcome, hCursor⟩ := hFails
    rw [Scan.fix] at hOutcome hCursor
    -- The body sees itself only behind `c`, where the hypothesis of the induction holds.
    refine h _ ?_ ?_ c e c' ⟨hOutcome, hCursor⟩
    · intro d
      dsimp only
      split
      · exact hAdvances d
      · exact advances_fail _ d
    · intro d e d' hFails
      dsimp only [Fails] at hFails
      split at hFails
      · rename_i hLess
        exact ih d.rest.length (hLength ▸ hLess) d e d' hFails rfl
      · exact absurd hFails (bare_fail _ d e d')

end

end Scan

namespace Template

open Scan

theorem bare_identifier : Bare identifier :=
  bare_position.bind fun _ => (bare_run _).bind fun _ => bare_position.bind fun _ => bare_pure _

theorem bare_number : Bare number := by
  refine (bare_run _).bind fun run => ?_
  split
  · exact bare_pure _
  · exact bare_fail _

theorem bare_numberParameter (start : Position) : Bare (numberParameter start) :=
  bare_number.bind fun _ => bare_position.bind fun _ => bare_pure _

section

variable {options : Options} {nested : Bytes → Reading}

theorem confines_stringParameter (start : Position) :
    Confines options nested (stringParameter nested start) := by
  intro c e c' h
  obtain ⟨_, c₁, hOpen, h⟩ := (bare_expect _).fails_bind h
  obtain ⟨text, c₂, hText, h⟩ := (bare_upTo _ _).fails_bind h
  obtain ⟨_, c₃, hClose, h⟩ := (bare_expect _).fails_bind h
  obtain ⟨written, hWritten, hRead⟩ :=
    gives_upTo_reads_iff.mp ⟨c₂, hText, gives_expect_iff.mp hClose⟩
  rcases fails_bind_iff.mp h with h | ⟨_, _, -, h⟩
  -- The text has been cut out whole when it is read, so its closing quote is the last byte taken.
  · obtain ⟨_, hResult, hError, rfl⟩ := fails_enclosed_iff.mp h
    cases hError
    exact ⟨[], _, text, (gives_expect_iff.mp hOpen).trans hRead, .string hWritten, hResult⟩
  · exact absurd h ((bare_position.bind fun _ => bare_pure _) _ _ _)

theorem confines_body : Confines options nested (body options nested) := by
  intro c e c' h
  obtain ⟨_, c₁, hOpen, h⟩ := (bare_expect _).fails_bind h
  obtain ⟨text, c₂, hText, h⟩ := (bare_upTo _ _).fails_bind h
  obtain ⟨_, c₃, hClose, h⟩ := (bare_expect _).fails_bind h
  obtain ⟨written, hWritten, hRead⟩ :=
    gives_upTo_reads_iff.mp ⟨c₂, hText, gives_expect_iff.mp hClose⟩
  obtain ⟨_, hResult, hError, rfl⟩ := fails_enclosed_iff.mp h
  cases hError
  exact ⟨[], _, text, (gives_expect_iff.mp hOpen).trans hRead, .body hWritten, hResult⟩

theorem confines_operand {self : Scan (Option Node)} (hAdvances : Advances self)
    (hSelf : Confines options nested self) : Confines options nested (operand self) := by
  refine bare_skipSpaces.confines_bind advances_skipSpaces fun _ => ?_
  refine bare_peek.confines_bind advances_peek fun next => ?_
  split
  · exact (bare_fail _).confines
  · refine hSelf.bind hAdvances fun right => ?_
    split
    · exact (bare_fail _).confines
    · exact (bare_pure _).confines

theorem confines_wordParameter {self : Scan (Option Node)} (hAdvances : Advances self)
    (hSelf : Confines options nested self) (start : Position) (first : Byte) :
    Confines options nested (wordParameter self start first) := by
  refine bare_identifier.confines_bind advances_identifier fun left => ?_
  split
  · exact (bare_fail _).confines
  · refine bare_skipSpaces.confines_bind advances_skipSpaces fun _ => ?_
    refine bare_peek.confines_bind advances_peek fun next => ?_
    split
    · exact (bare_position.bind fun _ => bare_pure _).confines
    · refine (bare_pop.map _).confines_bind (advances_pop.map _) fun _ => ?_
      refine (confines_operand hAdvances hSelf).bind (advances_operand hAdvances) fun _ => ?_
      exact (bare_position.bind fun _ => bare_pure _).confines

theorem confines_parameter : Confines options nested (parameter nested) := by
  refine Confines.fix (advances_parameter _) fun self hAdvances hSelf => ?_
  refine bare_skipSpaces.confines_bind advances_skipSpaces fun _ => ?_
  refine bare_position.confines_bind advances_position fun start => ?_
  refine bare_peek.confines_bind advances_peek fun next => ?_
  split
  · exact (bare_fail _).confines
  · split
    · exact (bare_pure _).confines
    · split
      · exact (confines_stringParameter start).map _
      · split
        · exact ((bare_numberParameter start).map _).confines
        · exact (confines_wordParameter hAdvances hSelf start _).map _

theorem confines_moreParameters : Confines options nested (moreParameters nested) := by
  refine Confines.fix (advances_moreParameters _) fun self hAdvances hSelf => ?_
  refine bare_peek.confines_bind advances_peek fun next => ?_
  split
  · refine (bare_expect _).confines_bind (advances_expect _) fun _ => ?_
    refine confines_parameter.bind (advances_parameter _) fun next => ?_
    split
    · exact (bare_peek.bind fun _ => bare_fail _).confines
    · exact hSelf.bind hAdvances fun _ => (bare_pure _).confines
  · exact (bare_pure _).confines

theorem confines_parameterList : Confines options nested (parameterList nested) := by
  refine confines_parameter.bind (advances_parameter _) fun first => ?_
  split
  · exact (bare_pure _).confines
  · refine confines_moreParameters.bind (advances_moreParameters _) fun _ => ?_
    exact (bare_pure _).confines

theorem confines_parameters : Confines options nested (parameters nested) := by
  refine (bare_expect _).confines_bind (advances_expect _) fun _ => ?_
  refine confines_parameterList.bind (advances_parameterList _) fun _ => ?_
  exact ((bare_expect _).bind fun _ => bare_pure _).confines

theorem confines_body? : Confines options nested (body? options nested) := by
  refine bare_peek.confines_bind advances_peek fun next => ?_
  split
  · exact confines_body.map _
  · exact (bare_pure _).confines

theorem confines_tag : Confines options nested (tag options nested) := by
  refine bare_position.confines_bind advances_position fun _ => ?_
  refine (bare_expect _).confines_bind (advances_expect _) fun _ => ?_
  refine bare_identifier.confines_bind advances_identifier fun _ => ?_
  refine confines_parameters.bind (advances_parameters _) fun _ => ?_
  refine bare_skipSpaces.confines_bind advances_skipSpaces fun _ => ?_
  refine confines_body?.bind (advances_body? options _) fun _ => ?_
  exact (bare_position.bind fun _ => bare_pure _).confines

theorem bare_raw : Bare (raw options) :=
  bare_position.bind fun _ => (bare_upTo _ _).bind fun _ => bare_position.bind fun _ => bare_pure _

theorem confines_element : Confines options nested (element options nested) := by
  refine bare_peek.confines_bind advances_peek fun next => ?_
  split
  · exact (bare_pure _).confines
  · split
    · exact confines_tag.map _
    · exact (bare_raw.map _).confines

end

end Template

end TagTemplate
