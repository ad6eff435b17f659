import TagTemplate.Proofs.Displacement
import TagTemplate.Proofs.Recursion

/-!
# Scans do not depend on where they run

A scan sees the bytes that it takes and the one behind them. Where another cursor has the same bytes
in front of it, the scan takes as much there and ends alike: the nodes that it gives are the same,
moved by the text that has come in front of them, and a failure is the same. What stands farther
behind plays no part.
-/

namespace TagTemplate

theorem Position.advance_behind (front text : Bytes) :
    (behind front).advance text = behind (front ++ text) := by
  rw [← advance_origin, ← advance_origin, advance_append]

namespace Cursor

variable {front text : Bytes} {c c' d d' : Cursor}

/-- Holds where `d` has come to the place of `c` in a buffer that starts with `front`. -/
def Behind (front : Bytes) (c d : Cursor) : Prop :=
  ∃ before, c.position = Position.behind before ∧ d.position = Position.behind (front ++ before)

theorem Behind.position (h : Behind front c d) : d.position = c.position.shift front := by
  obtain ⟨before, hc, hd⟩ := h
  rw [hc, hd, Position.shift_behind]

theorem Behind.reads (h : Behind front c d) (hc : c.Reads text c') (hd : d.Reads text d') :
    Behind front c' d' := by
  obtain ⟨before, hBefore, hBehind⟩ := h
  refine ⟨before ++ text, ?_, ?_⟩
  · rw [hc.position, hBefore, Position.advance_behind]
  · rw [hd.position, hBehind, Position.advance_behind, List.append_assoc]

theorem Reads.position_of_start {buffer : Bytes} (h : (start buffer).Reads front c) :
    c.position = Position.behind front :=
  h.position.trans (Position.advance_origin front)

theorem Reads.position_behind (h : c.Reads text c')
    (hPosition : c.position = Position.behind front) :
    c'.position = Position.behind (front ++ text) := by
  rw [h.position, hPosition, Position.advance_behind]

/-- The bytes in front of two cursors agree if they agree behind one text. -/
theorem peek_eq_of_reads (hc : c.Reads text c') (hd : d.Reads text d')
    (h : d'.peek = c'.peek) : d.peek = c.peek := by
  cases text with
  | nil =>
    obtain rfl := reads_nil_iff.mp hc
    obtain rfl := reads_nil_iff.mp hd
    exact h
  | cons b text => rw [hc.peek_eq, hd.peek_eq]

end Cursor

namespace Scan

variable {α β γ δ : Type} {front : Bytes} {c c' d d' : Cursor}

/-- Holds where what `s` does at `c` is what `s'` does wherever the bytes that `s` takes stand in
front of the same byte, up to `f` and the text that has come in front. -/
def Translates (front : Bytes) (f : α → β) (s : Scan α) (s' : Scan β) (c : Cursor) : Prop :=
  ∃ text, c.Reads text (s c).cursor ∧
    ∀ d d' : Cursor, c.Behind front d → d.Reads text d' → d'.peek = (s c).cursor.peek →
      (s' d).outcome = (s c).outcome.map f ∧ (s' d).cursor = d'

section

variable {f : α → β} {s : Scan α} {s' : Scan β} {text : Bytes}

theorem Translates.gives {a : α} (h : Translates front f s s' c) (hGives : Gives s c a c')
    (hRead : c.Reads text c') (hBehind : c.Behind front d) (hRead' : d.Reads text d')
    (hPeek : d'.peek = c'.peek) : Gives s' d (f a) d' := by
  obtain ⟨hOutcome, rfl⟩ := hGives
  obtain ⟨text', hText, hAlike⟩ := h
  obtain rfl := hRead.text_eq hText
  obtain ⟨hOutcome', hCursor⟩ := hAlike d d' hBehind hRead' hPeek
  refine ⟨?_, hCursor⟩
  rw [hOutcome', hOutcome]
  rfl

theorem Translates.fails {e : Failure} (h : Translates front f s s' c) (hFails : Fails s c e c')
    (hRead : c.Reads text c') (hBehind : c.Behind front d) (hRead' : d.Reads text d')
    (hPeek : d'.peek = c'.peek) : Fails s' d e d' := by
  obtain ⟨hOutcome, rfl⟩ := hFails
  obtain ⟨text', hText, hAlike⟩ := h
  obtain rfl := hRead.text_eq hText
  obtain ⟨hOutcome', hCursor⟩ := hAlike d d' hBehind hRead' hPeek
  refine ⟨?_, hCursor⟩
  rw [hOutcome', hOutcome]
  rfl

/-- In front of the same rest, the one scan gives what the other does. -/
theorem Translates.of_gives {b : β} (h : Translates front f s s' c) (hBehind : c.Behind front d)
    (hRest : d.rest = c.rest) (hGives : Gives s' d b d') :
    ∃ a c', Gives s c a c' ∧ b = f a ∧ c'.rest = d'.rest := by
  obtain ⟨text, hText, hAlike⟩ := h
  obtain ⟨e, hRead, hPeek⟩ := Cursor.exists_reads (hRest.trans hText.rest)
  have hSame : e.peek = (s c).cursor.peek := congrArg List.head? hPeek
  obtain ⟨hOutcome, hCursor⟩ := hAlike d e hBehind hRead hSame
  rw [hGives.1] at hOutcome
  rw [hGives.2] at hCursor
  cases hResult : (s c).outcome with
  | error failure =>
    rw [hResult] at hOutcome
    cases hOutcome
  | ok a =>
    rw [hResult] at hOutcome
    exact ⟨a, _, ⟨hResult, rfl⟩, Except.ok.inj hOutcome, hPeek.symm.trans (hCursor ▸ rfl)⟩

theorem Translates.bind {g : γ → δ} {k : α → Scan γ} {k' : β → Scan δ}
    (hs : Translates front f s s' c)
    (hk : ∀ a c', Gives s c a c' → Translates front g (k a) (k' (f a)) c') :
    Translates front g (s >>= k) (s' >>= k') c := by
  obtain ⟨text, hText, hAlike⟩ := hs
  rcases gives_or_fails s c with ⟨a, ha⟩ | ⟨e, he⟩
  · obtain ⟨text', hText', hAlike'⟩ := hk a _ ha
    rw [Translates, bind_of_gives ha]
    refine ⟨text ++ text', hText.trans hText', ?_⟩
    intro d d'' hBehind hRead hPeek
    obtain ⟨d', hd, hd'⟩ := Cursor.reads_append_iff.mp hRead
    -- The byte behind what `s` takes is one that the next scan takes, or the one behind both.
    obtain ⟨hOutcome, hCursor⟩ :=
      hAlike d d' hBehind hd (Cursor.peek_eq_of_reads hText' hd' hPeek)
    rw [ha.1] at hOutcome
    have hGives : Gives s' d (f a) d' := ⟨hOutcome, hCursor⟩
    rw [bind_of_gives hGives]
    exact hAlike' d' d'' (hBehind.reads hText hd) hd' hPeek
  · rw [Translates, bind_of_fails he]
    refine ⟨text, hText, ?_⟩
    intro d d' hBehind hRead hPeek
    obtain ⟨hOutcome, hCursor⟩ := hAlike d d' hBehind hRead hPeek
    rw [he.1] at hOutcome
    have hFails : Fails s' d e d' := ⟨hOutcome, hCursor⟩
    rw [bind_of_fails hFails]
    exact ⟨rfl, rfl⟩

theorem translates_pure (f : α → β) (a : α) :
    Translates front f (pure a) (pure (f a)) c := by
  refine ⟨[], Cursor.Reads.refl c, ?_⟩
  intro d d' _ hRead _
  obtain rfl := Cursor.reads_nil_iff.mp hRead
  exact ⟨rfl, rfl⟩

theorem Translates.map {g : γ → δ} {h : α → γ} {h' : β → δ} (hs : Translates front f s s' c)
    (hg : ∀ a, g (h a) = h' (f a)) : Translates front g (h <$> s) (h' <$> s') c := by
  refine hs.bind fun a c' _ => ?_
  change Translates front g (pure (h a)) (pure (h' (f a))) c'
  rw [← hg]
  exact translates_pure g (h a)

theorem Translates.discard (hs : Translates front f s s' c) :
    Translates front (fun u => u) (discard s) (discard s') c :=
  hs.map fun _ => rfl

theorem translates_fail (fault : Fault) : Translates front f (fail fault) (fail fault) c := by
  refine ⟨[], Cursor.Reads.refl c, ?_⟩
  intro d d' _ hRead _
  obtain rfl := Cursor.reads_nil_iff.mp hRead
  exact ⟨rfl, rfl⟩

end

theorem translates_position : Translates front (Position.shift front) position position c := by
  refine ⟨[], Cursor.Reads.refl c, ?_⟩
  intro d d' hBehind hRead _
  obtain rfl := Cursor.reads_nil_iff.mp hRead
  exact ⟨congrArg Except.ok hBehind.position, rfl⟩

theorem translates_peek : Translates front (fun b => b) peek peek c := by
  refine ⟨[], Cursor.Reads.refl c, ?_⟩
  intro d d' _ hRead hPeek
  obtain rfl := Cursor.reads_nil_iff.mp hRead
  exact ⟨congrArg Except.ok hPeek, rfl⟩

theorem translates_record (e : Event) :
    Translates front (fun u => u) (record e) (record e) c := by
  refine ⟨[], Cursor.Reads.refl c, ?_⟩
  intro d d' _ hRead _
  obtain rfl := Cursor.reads_nil_iff.mp hRead
  exact ⟨rfl, rfl⟩

theorem translates_inside (reading : Reading) :
    Translates front (fun nodes => nodes) (inside reading) (inside reading) c := by
  refine ⟨[], Cursor.Reads.refl c, ?_⟩
  intro d d' _ hRead _
  obtain rfl := Cursor.reads_nil_iff.mp hRead
  refine ⟨?_, rfl⟩
  cases hResult : reading.result with
  | ok nodes => simp [inside, hResult, Except.mapError, Except.map]
  | error e => simp [inside, hResult, Except.mapError, Except.map]

theorem translates_pop : Translates front (fun b => b) pop pop c := by
  cases hRest : c.rest with
  | nil =>
    have hFails : Fails pop c (.bare .endOfInput) c := by
      unfold Fails pop
      rw [hRest]
      exact ⟨rfl, rfl⟩
    refine ⟨[], hFails.2.symm ▸ Cursor.Reads.refl c, ?_⟩
    intro d d' _ hRead hPeek
    obtain rfl := Cursor.reads_nil_iff.mp hRead
    rw [hFails.2, Cursor.peek, Cursor.peek, hRest, List.head?_nil, List.head?_eq_none_iff] at hPeek
    rw [hFails.1]
    unfold pop
    rw [hPeek]
    exact ⟨rfl, rfl⟩
  | cons b rest =>
    have hSplit : c.rest = [b] ++ rest := hRest
    obtain ⟨c', hRead, -⟩ := Cursor.exists_reads hSplit
    have hGives := gives_pop_iff.mpr hRead
    refine ⟨[b], hGives.2.symm ▸ hRead, ?_⟩
    intro d d' _ hRead' _
    rw [hGives.1]
    exact gives_pop_iff.mpr hRead'

theorem translates_run (p : Byte → Bool) :
    Translates front (fun text => text) (run p) (run p) c := by
  have hGives : Gives (run p) c (c.rest.takeWhile p) (run p c).cursor := ⟨rfl, rfl⟩
  obtain ⟨hRead, hText, hNext⟩ := gives_run_iff.mp hGives
  refine ⟨_, hRead, ?_⟩
  intro d d' _ hRead' hPeek
  apply gives_run_iff.mpr
  refine ⟨hRead', hText, ?_⟩
  intro b hb
  exact hNext b (hPeek ▸ hb)

theorem translates_upTo {delimiter : Byte} (hDelimiter : delimiter ≠ Byte.backslash)
    (opener : Option Byte) :
    Translates front (fun text => text) (upTo delimiter opener) (upTo delimiter opener) c := by
  obtain ⟨text, hGives⟩ : ∃ text, Gives (upTo delimiter opener) c text
      (upTo delimiter opener c).cursor := ⟨_, rfl, rfl⟩
  obtain ⟨written, hRead, hPassage⟩ := gives_upTo_iff.mp hGives
  refine ⟨written, hRead, ?_⟩
  intro d d' _ hRead' hPeek
  rw [hGives.1]
  apply gives_upTo_iff.mpr
  refine ⟨written, hRead', ?_⟩
  rw [hRead.rest] at hPassage
  rw [hRead'.rest]
  exact delimited_of_head? hDelimiter hPassage hPeek

theorem translates_expect (b : Byte) :
    Translates front (fun u => u) (expect b) (expect b) c := by
  refine translates_peek.bind fun next c₁ _ => ?_
  split
  · exact translates_fail _
  · split
    · exact translates_pop.discard
    · exact translates_fail _

theorem translates_skipSpaces : Translates front (fun u => u) skipSpaces skipSpaces c :=
  (translates_run _).discard

end Scan

theorem Numeral.shift_node (front : Bytes) (source : Source) (numeral : Numeral) :
    (numeral.node source).shift front = numeral.node (source.shift front) := by
  cases numeral <;> rfl

namespace Template

open Scan

variable {front : Bytes} {c : Cursor}

theorem translates_identifier :
    Translates front (Node.shift front) identifier identifier c := by
  refine translates_position.bind fun start c₁ _ => ?_
  refine (translates_run _).bind fun name c₂ _ => ?_
  refine translates_position.bind fun stop c₃ _ => ?_
  exact translates_pure (Node.shift front) (.identifier name.ascii (start.to stop))

theorem translates_number : Translates front (fun n => n) number number c := by
  refine (translates_run _).bind fun run c₁ _ => ?_
  split
  · exact translates_pure (fun n => n) _
  · exact translates_fail _

theorem translates_numberParameter (start : Position) :
    Translates front (Node.shift front) (numberParameter start)
      (numberParameter (start.shift front)) c := by
  refine translates_number.bind fun numeral c₁ _ => ?_
  refine translates_position.bind fun stop c₂ _ => ?_
  rw [Position.shift_to, ← Numeral.shift_node]
  exact translates_pure (Node.shift front) _

section

variable {nested : Bytes → Reading}

theorem translates_enclosed (enclosure : Enclosure) (text : Bytes) :
    Translates front (fun nodes => nodes) (enclosed nested enclosure text)
      (enclosed nested enclosure text) c :=
  (translates_record _).bind fun _ _ _ => translates_inside _

theorem translates_stringParameter (start : Position) :
    Translates front (Node.shift front) (stringParameter nested start)
      (stringParameter nested (start.shift front)) c := by
  refine (translates_expect _).bind fun _ c₁ _ => ?_
  refine (translates_upTo (by decide) none).bind fun text c₂ _ => ?_
  refine (translates_expect _).bind fun _ c₃ _ => ?_
  refine (translates_enclosed .string text).bind fun template c₄ _ => ?_
  refine translates_position.bind fun stop c₅ _ => ?_
  exact translates_pure (Node.shift front) (.string template (start.to stop))

section

variable {self : Scan (Option Node)} {n : Nat}
  (hSelf : ∀ c : Cursor, c.rest.length < n →
    Translates front (Option.map (Node.shift front)) self self c)

include hSelf

theorem translates_operand (hLess : c.rest.length < n) :
    Translates front (Node.shift front) (operand self) (operand self) c := by
  refine translates_skipSpaces.bind fun _ c₁ h₁ => ?_
  refine translates_peek.bind fun next c₂ h₂ => ?_
  have hLe₁ := advances_skipSpaces.length_le h₁
  have hLe₂ := advances_peek.length_le h₂
  split
  · exact translates_fail _
  · refine (hSelf c₂ (by omega)).bind fun right? c₃ _ => ?_
    cases right? with
    | none => exact translates_fail _
    | some right => exact translates_pure (Node.shift front) right

theorem translates_wordParameter (hLe : c.rest.length ≤ n) (start : Position) (first : Byte) :
    Translates front (Node.shift front) (wordParameter self start first)
      (wordParameter self (start.shift front) first) c := by
  refine translates_identifier.bind fun left c₁ h₁ => ?_
  have hLe₁ := advances_identifier.length_le h₁
  rw [Node.source_shift, Source.isEmpty_shift]
  split
  · exact translates_fail _
  · refine translates_skipSpaces.bind fun _ c₂ h₂ => ?_
    refine translates_peek.bind fun next c₃ h₃ => ?_
    have hLe₂ := advances_skipSpaces.length_le h₂
    have hLe₃ := advances_peek.length_le h₃
    split
    · refine translates_position.bind fun stop c₄ _ => ?_
      rw [Position.shift_to, ← Node.shift_withSource]
      exact translates_pure (Node.shift front) _
    · rename_i operator _
      refine translates_pop.discard.bind fun _ c₄ h₄ => ?_
      have hLess := length_lt_of_pop h₄
      refine (translates_operand hSelf (by omega)).bind fun right c₅ _ => ?_
      refine translates_position.bind fun stop c₆ _ => ?_
      exact translates_pure (Node.shift front) (.expression operator left right (start.to stop))

theorem translates_parameterWith (hLe : c.rest.length ≤ n) :
    Translates front (Option.map (Node.shift front)) (parameterWith nested self)
      (parameterWith nested self) c := by
  refine translates_skipSpaces.bind fun _ c₁ h₁ => ?_
  refine translates_position.bind fun start c₂ h₂ => ?_
  refine translates_peek.bind fun next c₃ h₃ => ?_
  have hLe₁ := advances_skipSpaces.length_le h₁
  have hLe₂ := advances_position.length_le h₂
  have hLe₃ := advances_peek.length_le h₃
  split
  · exact translates_fail _
  · split
    · exact translates_pure (Option.map (Node.shift front)) none
    · split
      · exact (translates_stringParameter start).map fun _ => rfl
      · split
        · exact (translates_numberParameter start).map fun _ => rfl
        · exact (translates_wordParameter hSelf (by omega) start _).map fun _ => rfl

end

theorem translates_parameter :
    Translates front (Option.map (Node.shift front)) (parameter nested) (parameter nested) c := by
  induction hLength : c.rest.length using Nat.strongRecOn generalizing c with
  | ind n ih =>
    rw [parameter_eq nested]
    apply translates_parameterWith
    · intro c' hLess
      exact ih c'.rest.length hLess rfl
    · exact hLength.le

theorem translates_moreParametersWith {self : Scan (List Node)}
    (hSelf : ∀ c' : Cursor, c'.rest.length < c.rest.length →
      Translates front (Node.shiftEach front) self self c') :
    Translates front (Node.shiftEach front) (moreParametersWith nested self)
      (moreParametersWith nested self) c := by
  refine translates_peek.bind fun next c₁ h₁ => ?_
  have hLe₁ := advances_peek.length_le h₁
  split
  · refine (translates_expect _).bind fun _ c₂ h₂ => ?_
    have hLess := length_lt_of_expect h₂
    refine translates_parameter.bind fun next? c₃ h₃ => ?_
    have hLe₃ := (advances_parameter nested).length_le h₃
    cases next? with
    | none => exact translates_peek.bind fun _ _ _ => translates_fail _
    | some next =>
      refine (hSelf c₃ (by omega)).bind fun more c₄ _ => ?_
      exact translates_pure (Node.shiftEach front) (next :: more)
  · exact translates_pure (Node.shiftEach front) []

theorem translates_moreParameters :
    Translates front (Node.shiftEach front) (moreParameters nested) (moreParameters nested) c := by
  induction hLength : c.rest.length using Nat.strongRecOn generalizing c with
  | ind n ih =>
    rw [moreParameters_eq nested]
    apply translates_moreParametersWith
    intro c' hLess
    exact ih c'.rest.length (hLength ▸ hLess) rfl

theorem translates_parameterList :
    Translates front (Node.shiftEach front) (parameterList nested) (parameterList nested) c := by
  refine translates_parameter.bind fun first? c₁ _ => ?_
  cases first? with
  | none => exact translates_pure (Node.shiftEach front) []
  | some first =>
    refine translates_moreParameters.bind fun more c₂ _ => ?_
    exact translates_pure (Node.shiftEach front) (first :: more)

theorem translates_parameters :
    Translates front (Node.shiftEach front) (parameters nested) (parameters nested) c := by
  refine (translates_expect _).bind fun _ c₁ _ => ?_
  refine translates_parameterList.bind fun list c₂ _ => ?_
  refine (translates_expect _).bind fun _ c₃ _ => ?_
  exact translates_pure (Node.shiftEach front) list

variable {options : Options}

theorem translates_body :
    Translates front (fun nodes => nodes) (body options nested) (body options nested) c := by
  refine (translates_expect _).bind fun _ c₁ _ => ?_
  refine (translates_upTo (by decide) _).bind fun text c₂ _ => ?_
  refine (translates_expect _).bind fun _ c₃ _ => ?_
  exact translates_enclosed .body text

theorem translates_body? :
    Translates front (fun content => content) (body? options nested) (body? options nested) c := by
  refine translates_peek.bind fun next c₁ _ => ?_
  split
  · exact translates_body.map fun _ => rfl
  · exact translates_pure (fun content => content) none

theorem translates_tag :
    Translates front (Node.shift front) (tag options nested) (tag options nested) c := by
  refine translates_position.bind fun start c₁ _ => ?_
  refine (translates_expect _).bind fun _ c₂ _ => ?_
  refine translates_identifier.bind fun name c₃ _ => ?_
  refine translates_parameters.bind fun list c₄ _ => ?_
  refine translates_skipSpaces.bind fun _ c₅ _ => ?_
  refine translates_body?.bind fun content c₆ _ => ?_
  refine translates_position.bind fun stop c₇ _ => ?_
  exact translates_pure (Node.shift front) (.tag name list content (start.to stop))

theorem translates_raw :
    Translates front (Node.shift front) (raw options) (raw options) c := by
  refine translates_position.bind fun start c₁ _ => ?_
  refine (translates_upTo options.sigil.byte_ne_backslash none).bind fun data c₂ _ => ?_
  refine translates_position.bind fun stop c₃ _ => ?_
  exact translates_pure (Node.shift front) (.raw data (start.to stop))

theorem translates_element :
    Translates front (Option.map (Node.shift front)) (element options nested)
      (element options nested) c := by
  refine translates_peek.bind fun next c₁ _ => ?_
  split
  · exact translates_pure (Option.map (Node.shift front)) none
  · split
    · exact translates_tag.map fun _ => rfl
    · exact translates_raw.map fun _ => rfl

end

end Template

end TagTemplate
