import TagTemplate.Proofs.Soundness
import TagTemplate.Proofs.Stripping
import TagTemplate.Proofs.Utf8

/-!
# Templates in well-formed bytes

A buffer is cut at its sigils and at the punctuation of its tags, and the texts that are cut out of
it lose some backslashes. All of these bytes are ASCII, so that no cut falls inside of a character:
where a buffer is well formed, the data of its raw passages is, at any depth.
-/

namespace TagTemplate

namespace Utf8

variable {front back written text : Bytes}

theorem WellFormed.of_strips (hStrips : Strips written text)
    (h : WellFormed (front ++ written)) : WellFormed (front ++ text) := by
  induction hStrips generalizing front with
  | nil => exact h
  | @keep b written text _ ih =>
    rw [List.append_cons] at h ⊢
    exact ih h
  | drop _ ih =>
    obtain ⟨hFront, hWritten⟩ := h.split (by decide)
    exact ih (hFront.append hWritten)

theorem WellFormed.strips (h : WellFormed written) (hStrips : Strips written text) :
    WellFormed text :=
  @of_strips [] written text hStrips h

theorem WellFormed.of_append (hFront : ∀ b ∈ front, b < 0x80) (h : WellFormed (front ++ back)) :
    WellFormed back := by
  induction front with
  | nil => exact h
  | cons b front ih =>
    obtain ⟨hb, hFront⟩ := List.forall_mem_cons.mp hFront
    exact ih hFront (h.tail hb)

theorem WellFormed.of_blank (hFront : Blank front) (h : WellFormed (front ++ back)) :
    WellFormed back := by
  refine h.of_append fun b hb => ?_
  rw [hFront b hb]
  decide

/-- Well-formed bytes are written again from the text that they are read as. -/
theorem wellFormed_iff {data : Bytes} :
    WellFormed data ↔ ∃ text : String, data = Bytes.ofText text ∧ data.text = text := by
  constructor
  · rintro ⟨text, rfl⟩
    refine ⟨String.ofList text, ?_, ?_⟩
    · rw [Bytes.ofText, String.toList_ofList]
    · rw [Bytes.text, decode_encode]
  · rintro ⟨text, hData, -⟩
    exact ⟨text.toList, hData⟩

end Utf8

open TagTemplate.Tree Utf8

namespace Grammar

section

variable {options : Options}

theorem wellFormed_of_ends {sigil : Sigil} {run rest : Bytes}
    (hEnds : Passage.EndsBefore sigil.byte run rest) (h : WellFormed (run ++ rest)) :
    WellFormed run ∧ WellFormed rest := by
  rcases hEnds with rfl | ⟨hHead, -⟩
  · rw [List.append_nil] at h
    exact ⟨h, wellFormed_nil⟩
  · obtain ⟨rest, rfl⟩ := List.head?_eq_some_iff.mp hHead
    obtain ⟨hRun, hRest⟩ := h.split sigil.isAscii
    exact ⟨hRun, (wellFormed_ascii sigil.isAscii).append hRest⟩

mutual

theorem elements_wellFormed : ∀ {buffer : Bytes} {ts : List Tree},
    Elements options.sigil.byte options.BodyText buffer ts → WellFormed buffer →
    EachRawAmong WellFormed ts
  | _, _, .nil, _ => trivial
  | _, _, .raw _ _ _ hEnds hElements, h => by
    obtain ⟨hRun, hRest⟩ := wellFormed_of_ends hEnds h
    exact ⟨hRun.strips (strips_unescape _ _), elements_wellFormed hElements hRest⟩
  | _, _, @Elements.tag _ _ _ _ gap rest _ _ _ hParameters hGap _ _ hElements, h => by
    rw [List.append_assoc] at h
    obtain ⟨hFront, hBack⟩ := @WellFormed.split _ (by decide) _ (gap ++ rest) h
    obtain ⟨-, hList⟩ := hFront.split (by decide)
    exact ⟨⟨trivial, parameters_wellFormed hParameters hList, trivial⟩,
      elements_wellFormed hElements (hBack.of_blank hGap)⟩
  | _, _, .tagWithBody _ hParameters hGap hBody hText hElements, h => by
    obtain ⟨hBuffer, hRest⟩ := h.split (by decide)
    obtain ⟨hFront, hRun⟩ := hBuffer.split (by decide)
    obtain ⟨hTag, -⟩ := hFront.split (by decide)
    obtain ⟨-, hList⟩ := hTag.split (by decide)
    have hNested := hRun.strips (Enclosed.strips (by decide) hBody)
    exact ⟨⟨trivial, parameters_wellFormed hParameters hList, elements_wellFormed hText hNested⟩,
      elements_wellFormed hElements hRest⟩
termination_by structural _ _ h => h

theorem parameters_wellFormed : ∀ {list : Bytes} {ps : List Tree},
    Parameters options.sigil.byte options.BodyText list ps → WellFormed list →
    EachRawAmong WellFormed ps
  | _, _, .none _, _ => trivial
  | _, _, .some hList, h => parameterList_wellFormed hList h
termination_by structural _ _ h => h

theorem parameterList_wellFormed : ∀ {list : Bytes} {ps : List Tree},
    ParameterList options.sigil.byte options.BodyText list ps → WellFormed list →
    EachRawAmong WellFormed ps
  | _, _, .last hParameter, h => ⟨parameter_wellFormed hParameter h, trivial⟩
  | _, _, .more hParameter hList, h => by
    obtain ⟨hFirst, hMore⟩ := h.split (by decide)
    exact ⟨parameter_wellFormed hParameter hFirst, parameterList_wellFormed hList hMore⟩
termination_by structural _ _ h => h

theorem parameter_wellFormed : ∀ {run : Bytes} {p : Tree},
    Parameter options.sigil.byte options.BodyText run p → WellFormed run → EachRaw WellFormed p
  | _, _, .string _ hQuoted hText, h => by
    obtain ⟨hFront, -⟩ := h.split (by decide)
    obtain ⟨-, hRun⟩ := hFront.split (by decide)
    exact elements_wellFormed hText (hRun.strips hQuoted.strips)
  | _, _, @Parameter.number _ _ _ _ numeral _ _, _ => by
    cases numeral <;> trivial
  | _, _, .identifier _ _ _, _ => trivial
  | _, _, @Parameter.expression _ _ _ _ _ _ operator _ _ _ _ hRight, h => by
    obtain ⟨-, hRest⟩ := h.split (by cases operator <;> decide)
    exact ⟨trivial, parameter_wellFormed hRight hRest⟩
termination_by structural _ _ h => h

end

end

end Grammar

namespace Template

/-- Where a text is read, the data of each raw passage, at any depth, is again what is written for
a text. -/
theorem eachRaw_of_read_ofText {options : Options} {text : String} {nodes : List Node}
    (h : (read options (Bytes.ofText text)).result = .ok nodes) :
    EachRawAmong (fun data => ∃ content : String, data = Bytes.ofText content ∧ data.text = content)
      (Node.trees nodes) := by
  simp only [← wellFormed_iff]
  exact Grammar.elements_wellFormed (Grammar.read_sound h) ⟨text.toList, rfl⟩

/-- An escaped quote and an escaped right brace behind characters of two and of three bytes. -/
theorem eachRaw_of_read_ofText_escapes :
    let nodes : List Node := [.raw [0xC3, 0xA9] ⟨1, 1, 0, 2⟩,
      .tag (.identifier "a" ⟨1, 4, 3, 4⟩)
        [.string [.raw [0xC3, 0xBC, 0x22] ⟨1, 1, 0, 3⟩] ⟨1, 6, 5, 11⟩]
        (some [.raw [0xE2, 0x82, 0xAC, 0x7D] ⟨1, 1, 0, 4⟩]) ⟨1, 3, 2, 19⟩]
    (read Options.standard (Bytes.ofText "é#a(\"ü\\\"\")\x7b€\\\x7d\x7d")).result = .ok nodes ∧
      EachRawAmong
        (fun data => ∃ content : String, data = Bytes.ofText content ∧ data.text = content)
        (Node.trees nodes) := by
  intro nodes
  have h : (read Options.standard (Bytes.ofText "é#a(\"ü\\\"\")\x7b€\\\x7d\x7d")).result =
      .ok nodes := by
    with_unfolding_all rfl
  exact ⟨h, eachRaw_of_read_ofText h⟩

end Template

end TagTemplate
