import TagTemplate.Proofs.Balance
import TagTemplate.Proofs.Rendering

/-!
# Templates written with balanced bodies

Where no raw passage holds a brace, the only braces of a rendering are those around its bodies. They
are balanced, so that each body may be written as it is. Escaped sigils and quotes do not disturb
this, and the backslash in front of none of them comes before a right brace.
-/

namespace TagTemplate

namespace BalancedRendering

open Rendering (Elements Parameters ParameterList Parameter)
open TagTemplate.Tree

section

variable {text : Bytes}

theorem balanced_of_forall {P : Byte → Prop} (h : ∀ b ∈ text, P b) (hLeft : ¬P Byte.leftBrace)
    (hRight : ¬P Byte.rightBrace) : Balanced text := by
  apply Braceless.balanced
  intro b hb
  refine ⟨?_, ?_⟩
  · rintro rfl
    exact hLeft (h _ hb)
  · rintro rfl
    exact hRight (h _ hb)

theorem balanced_of_blank (h : Blank text) : Balanced text :=
  balanced_of_forall h (by decide) (by decide)

theorem balanced_of_alphanumeric (h : Template.Alphanumeric text) : Balanced text :=
  balanced_of_forall h (by decide) (by decide)

theorem balanced_of_literal {numeral : Numeral} (h : Numeral.Literal text numeral) :
    Balanced text :=
  balanced_of_forall h.isDigit_or (by decide) (by decide)

theorem balanced_operator (operator : Operator) (h : Balanced text) :
    Balanced (operator.byte :: text) := by
  cases operator <;> exact .byte (by decide) (by decide) h

theorem balanced_tag {sigil : Sigil} {name list gap rest : Bytes}
    (hName : Template.Alphanumeric name) (hList : Balanced list) (hGap : Blank gap)
    (hRest : Balanced rest) :
    Balanced (sigil.byte :: name ++ Byte.leftParenthesis :: list ++
      Byte.rightParenthesis :: gap ++ rest) := by
  have hSigil : Balanced (sigil.byte :: name) :=
    .byte (sigil.byte_ne (by decide)) (sigil.byte_ne (by decide)) (balanced_of_alphanumeric hName)
  have hOpen : Balanced (Byte.leftParenthesis :: list) := .byte (by decide) (by decide) hList
  have hClose : Balanced (Byte.rightParenthesis :: gap) :=
    .byte (by decide) (by decide) (balanced_of_blank hGap)
  exact ((hSigil.append hOpen).append hClose).append hRest

theorem balanced_string {gap : Bytes} (hGap : Blank gap) (h : Balanced text) :
    Balanced (gap ++ Byte.quote :: escape Byte.quote text ++ [Byte.quote]) := by
  have hText : Balanced (Byte.quote :: escape Byte.quote text) :=
    .byte (by decide) (by decide) (h.escape (by decide) (by decide))
  exact ((balanced_of_blank hGap).append hText).append (.byte (by decide) (by decide) .nil)

end

section

variable {sigil : Sigil}

theorem getLast?_ne_of_isNested {text : Bytes} {ts : List Tree}
    (h : Elements sigil.byte id text ts) (hNested : IsNested ts) :
    text.getLast? ≠ some Byte.backslash := by
  have hDerived : Grammar.Elements sigil.byte (fun _ _ => True) text ts :=
    Rendering.elements_derived (fun _ _ _ _ _ _ => trivial) h hNested.isTemplate
      (eachRawAmong_true ts)
  exact Grammar.getLast?_ne_of_isNested hDerived hNested

mutual

/-- A rendering without braces in its raw passages is balanced. -/
theorem elements_balanced : ∀ {buffer : Bytes} {ts : List Tree},
    Elements sigil.byte id buffer ts → IsTemplate ts → EachRawAmong Braceless ts → Balanced buffer
  | _, _, .nil, _, _ => .nil
  | _, _, @Elements.raw _ _ data _ _ hElements, hTemplate, hRaws => by
    obtain ⟨-, -, -, hTail⟩ := isTemplate_cons_iff.mp hTemplate
    have hBraceless : Braceless data := hRaws.1
    have hEscaped := hBraceless.balanced.escape (sigil.byte_ne (by decide))
      (sigil.byte_ne (by decide))
    exact hEscaped.append (elements_balanced hElements hTail hRaws.2)
  | _, _, .tag hParameters hGap hElements, hTemplate, hRaws => by
    obtain ⟨hTag, -, -, hTail⟩ := isTemplate_cons_iff.mp hTemplate
    obtain ⟨⟨word, hWord, hName⟩, hPs⟩ := isElement_tag_iff.mp hTag
    obtain rfl := Bytes.ascii_inj.mp (Tree.identifier.inj hName)
    have hList := parameters_balanced hParameters hPs hRaws.1.2.1
    exact balanced_tag hWord hList hGap (elements_balanced hElements hTail hRaws.2)
  | _, _, .tagWithBody hParameters hGap hText hElements, hTemplate, hRaws => by
    obtain ⟨hTag, -, -, hTail⟩ := isTemplate_cons_iff.mp hTemplate
    obtain ⟨⟨word, hWord, hName⟩, hPs, hNested⟩ := isElement_tagWithBody_iff.mp hTag
    obtain rfl := Bytes.ascii_inj.mp (Tree.identifier.inj hName)
    have hList := parameters_balanced hParameters hPs hRaws.1.2.1
    have hBody := elements_balanced hText hNested.isTemplate hRaws.1.2.2
    have hRest := elements_balanced hElements hTail hRaws.2
    rw [List.append_assoc]
    exact balanced_tag hWord hList hGap
      (.group hBody (getLast?_ne_of_isNested hText hNested) hRest)
termination_by structural _ _ h => h

theorem parameters_balanced : ∀ {list : Bytes} {ps : List Tree},
    Parameters sigil.byte id list ps → (∀ p ∈ ps, IsParameter p) → EachRawAmong Braceless ps →
    Balanced list
  | _, _, .none hGap, _, _ => balanced_of_blank hGap
  | _, _, .some hList, hPs, hRaws => parameterList_balanced hList hPs hRaws
termination_by structural _ _ h => h

theorem parameterList_balanced : ∀ {list : Bytes} {ps : List Tree},
    ParameterList sigil.byte id list ps → (∀ p ∈ ps, IsParameter p) → EachRawAmong Braceless ps →
    Balanced list
  | _, _, .last hParameter, hPs, hRaws =>
    parameter_balanced hParameter (List.forall_mem_singleton.mp hPs) hRaws.1
  | _, _, .more hParameter hList, hPs, hRaws => by
    obtain ⟨hFirst, hMore⟩ := List.forall_mem_cons.mp hPs
    have hBalanced := parameterList_balanced hList hMore hRaws.2
    exact (parameter_balanced hParameter hFirst hRaws.1).append
      (.byte (by decide) (by decide) hBalanced)
termination_by structural _ _ h => h

theorem parameter_balanced : ∀ {run : Bytes} {p : Tree},
    Parameter sigil.byte id run p → IsParameter p → EachRaw Braceless p → Balanced run
  | _, _, .identifier hGap hGap', hp, _ => by
    obtain ⟨word, hWord, hName⟩ := isParameter_identifier_iff.mp hp
    obtain rfl := Bytes.ascii_inj.mp hName
    have hBalanced := (balanced_of_blank hGap).append (balanced_of_alphanumeric hWord.alphanumeric)
    exact hBalanced.append (balanced_of_blank hGap')
  | _, _, .int hGap, hp, _ => by
    obtain ⟨n, hn, hValue⟩ := isParameter_int_iff.mp hp
    obtain rfl := Int.ofNat.inj hValue
    exact (balanced_of_blank hGap).append (balanced_of_literal (Numeral.literal_decimal hn))
  | _, _, .double hGap hLiteral, _, _ =>
    (balanced_of_blank hGap).append (balanced_of_literal hLiteral)
  | _, _, .string hGap hElements, hp, hRaws => by
    cases hp with
    | string hNested =>
      exact balanced_string hGap (elements_balanced hElements hNested.isTemplate hRaws)
  | _, _, @Parameter.expression _ _ _ word _ _ operator _ hGap hGap' hRight, hp, hRaws => by
    obtain ⟨⟨word', hWord, hName⟩, hp⟩ := isParameter_expression_iff.mp hp
    obtain rfl := Bytes.ascii_inj.mp (Tree.identifier.inj hName)
    have hFront := (balanced_of_blank hGap).append (balanced_of_alphanumeric hWord.alphanumeric)
    have hBalanced := parameter_balanced hRight hp hRaws.2
    exact (hFront.append (balanced_of_blank hGap')).append (balanced_operator operator hBalanced)
termination_by structural _ _ h => h

end

/-- A balanced text is a body as it stands. -/
theorem writesBodies :
    Rendering.WritesBodies sigil.byte id (Options.BodyText ⟨sigil, true⟩) Braceless := by
  intro text ts hText hNested hRaws hLast
  exact (elements_balanced hText hNested.isTemplate hRaws).enclosed hLast

end

/-- Where bodies are balanced, each template without braces in its raw passages has renderings that
leave its bodies as they are, and is read from all of them. -/
theorem read_balanced (sigil : Sigil) {ts : List Tree} (h : IsTemplate ts)
    (hRaws : EachRawAmong Braceless ts) :
    (∃ buffer, Elements sigil.byte id buffer ts) ∧
      ∀ buffer, Elements sigil.byte id buffer ts →
        ∃ nodes, (Template.read ⟨sigil, true⟩ buffer).result = .ok nodes ∧
          Node.trees nodes = ts := by
  refine ⟨Rendering.exists_rendering h, ?_⟩
  intro buffer hBuffer
  have hDerived := Rendering.elements_derived writesBodies hBuffer h hRaws
  exact (Grammar.read_ok_iff ⟨sigil, true⟩ buffer ts).mpr hDerived

/-- A tag with a body in a string in a body. -/
theorem read_balanced_string_in_body :
    let ts : List Tree := [.tag (.identifier (Bytes.ascii [0x61])) []
      (some [.tag (.identifier (Bytes.ascii [0x62]))
        [.string [.tag (.identifier (Bytes.ascii [0x63])) [] (some [.raw [0x78]])]] none])]
    IsTemplate ts ∧ EachRawAmong Braceless ts ∧
      (∃ buffer, Elements Sigil.standard.byte id buffer ts) ∧
      ∀ buffer, Elements Sigil.standard.byte id buffer ts →
        ∃ nodes, (Template.read ⟨Sigil.standard, true⟩ buffer).result = .ok nodes ∧
          Node.trees nodes = ts := by
  intro ts
  have hSingle {t : Tree} (ht : IsElement t) (hClosed : ¬t.EndsInBackslash) : IsNested [t] :=
    .intro (List.forall_mem_singleton.mpr ht) (.singleton t) (List.forall_mem_singleton.mpr hClosed)
  have hLast : ([0x78] : Bytes).getLast? ≠ some Byte.backslash := by decide
  have hRaw : IsNested [.raw [0x78]] := hSingle (.raw (by decide)) hLast
  have hInner : IsNested [.tag (.identifier (Bytes.ascii [0x63])) [] (some [.raw [0x78]])] :=
    hSingle (.tagWithBody (by decide) (List.forall_mem_nil _) hRaw) not_false
  have hOuter : IsElement (.tag (.identifier (Bytes.ascii [0x62]))
      [.string [.tag (.identifier (Bytes.ascii [0x63])) [] (some [.raw [0x78]])]] none) :=
    .tag (by decide) (List.forall_mem_singleton.mpr (.string hInner))
  have hTemplate : IsTemplate ts := by
    apply IsNested.isTemplate
    exact hSingle (.tagWithBody (by decide) (List.forall_mem_nil _) (hSingle hOuter not_false))
      not_false
  have hBraceless : Braceless [0x78] :=
    List.forall_mem_singleton.mpr ⟨by decide, by decide⟩
  have hRaws : EachRawAmong Braceless ts := by
    simpa [ts, EachRawAmong, EachRaw, EachRawInBody] using hBraceless
  exact ⟨hTemplate, hRaws, read_balanced Sigil.standard hTemplate hRaws⟩

end BalancedRendering

end TagTemplate
