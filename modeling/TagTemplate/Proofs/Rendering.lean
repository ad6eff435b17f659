import TagTemplate.Proofs.Shape

/-!
# Templates as they are written

A rendering of a tree escapes the sigil in each raw passage, and escapes once more the quote in the
whole text of each string. How the text of a body is written depends on how bodies are read: where
they are not balanced, the right brace is escaped in it. Spaces may stand before a parameter, around
an operator, behind an identifier, between empty parentheses and behind closed ones. A template is
what is read from each of its renderings, and it has one.
-/

namespace TagTemplate

namespace Rendering

section

variable (sigil : Byte) (write : Bytes → Bytes)

mutual

/-- The renderings in which `write` writes the text of each body. -/
inductive Elements : Bytes → List Tree → Prop
  | nil : Elements [] []
  | raw {data rest : Bytes} {ts : List Tree} :
      Elements rest ts → Elements (escape sigil data ++ rest) (.raw data :: ts)
  | tag {name list gap rest : Bytes} {ps ts : List Tree} :
      Parameters list ps → Blank gap → Elements rest ts →
      Elements
        (sigil :: name ++ Byte.leftParenthesis :: list ++ Byte.rightParenthesis :: gap ++ rest)
        (.tag (.identifier name.ascii) ps none :: ts)
  | tagWithBody {name list gap text rest : Bytes} {ps body ts : List Tree} :
      Parameters list ps → Blank gap → Elements text body → Elements rest ts →
      Elements
        (sigil :: name ++ Byte.leftParenthesis :: list ++ Byte.rightParenthesis :: gap ++
          Byte.leftBrace :: write text ++ Byte.rightBrace :: rest)
        (.tag (.identifier name.ascii) ps (some body) :: ts)

inductive Parameters : Bytes → List Tree → Prop
  | none {gap : Bytes} : Blank gap → Parameters gap []
  | some {list : Bytes} {ps : List Tree} : ParameterList list ps → Parameters list ps

inductive ParameterList : Bytes → List Tree → Prop
  | last {run : Bytes} {p : Tree} : Parameter run p → ParameterList run [p]
  | more {run list : Bytes} {p : Tree} {ps : List Tree} :
      Parameter run p → ParameterList list ps → ParameterList (run ++ Byte.comma :: list) (p :: ps)

inductive Parameter : Bytes → Tree → Prop
  | identifier {gap word gap' : Bytes} :
      Blank gap → Blank gap' → Parameter (gap ++ word ++ gap') (.identifier word.ascii)
  | int {gap : Bytes} {n : Nat} : Blank gap → Parameter (gap ++ Numeral.decimal n) (.int n)
  | double {gap run : Bytes} {value : Binary64} :
      Blank gap → Numeral.Literal run (.double value) → Parameter (gap ++ run) (.double value)
  | string {gap text : Bytes} {ts : List Tree} :
      Blank gap → Elements text ts →
      Parameter (gap ++ Byte.quote :: escape Byte.quote text ++ [Byte.quote]) (.string ts)
  | expression {gap word gap' right : Bytes} {operator : Operator} {p : Tree} :
      Blank gap → Blank gap' → Parameter right p →
      Parameter (gap ++ word ++ gap' ++ operator.byte :: right)
        (.expression operator (.identifier word.ascii) p)

end

end

open TagTemplate.Tree

section

/-- Holds where what is written for a body without a last backslash is a text of that body, if `P`
holds of the raw passages in it. -/
def WritesBodies (sigil : Byte) (write : Bytes → Bytes) (bodyText : Bytes → Bytes → Prop)
    (P : Bytes → Prop) : Prop :=
  ∀ text ts, Elements sigil write text ts → IsNested ts → EachRawAmong P ts →
    text.getLast? ≠ some Byte.backslash → bodyText (write text) text

variable {sigil : Sigil} {write : Bytes → Bytes} {bodyText : Bytes → Bytes → Prop}
  {P : Bytes → Prop}

mutual

theorem elements_derived (hBody : WritesBodies sigil.byte write bodyText P) :
    ∀ {buffer : Bytes} {ts : List Tree},
    Elements sigil.byte write buffer ts → IsTemplate ts → EachRawAmong P ts →
    Grammar.Elements sigil.byte bodyText buffer ts
  | _, _, .nil, _, _ => .nil
  | _, _, .raw hElements, hTemplate, hRaws => by
    obtain ⟨hRaw, hAdjacent, hClosed, hTail⟩ := isTemplate_cons_iff.mp hTemplate
    have hRest := elements_derived hBody hElements hTail hRaws.2
    exact Grammar.elements_escape hRaw hAdjacent hClosed hRest
  | _, _, .tag hParameters hGap hElements, hTemplate, hRaws => by
    obtain ⟨hTag, hAdjacent, -, hTail⟩ := isTemplate_cons_iff.mp hTemplate
    obtain ⟨⟨word, hWord, hName⟩, hPs⟩ := isElement_tag_iff.mp hTag
    obtain rfl := Bytes.ascii_inj.mp (Tree.identifier.inj hName)
    have hList := parameters_derived hBody hParameters hPs hRaws.1.2.1
    have hRest := elements_derived hBody hElements hTail hRaws.2
    obtain ⟨hSpace, hBrace⟩ := Grammar.head?_of_adjacent hRest hAdjacent
    exact .tag hWord hList hGap hSpace hBrace hRest
  | _, _, .tagWithBody hParameters hGap hText hElements, hTemplate, hRaws => by
    obtain ⟨hTag, -, -, hTail⟩ := isTemplate_cons_iff.mp hTemplate
    obtain ⟨⟨word, hWord, hName⟩, hPs, hNested⟩ := isElement_tagWithBody_iff.mp hTag
    obtain rfl := Bytes.ascii_inj.mp (Tree.identifier.inj hName)
    have hList := parameters_derived hBody hParameters hPs hRaws.1.2.1
    have hDerived := elements_derived hBody hText hNested.isTemplate hRaws.1.2.2
    have hLast := Grammar.getLast?_ne_of_isNested hDerived hNested
    exact .tagWithBody hWord hList hGap (hBody _ _ hText hNested hRaws.1.2.2 hLast) hDerived
      (elements_derived hBody hElements hTail hRaws.2)
termination_by structural _ _ h => h

theorem parameters_derived (hBody : WritesBodies sigil.byte write bodyText P) :
    ∀ {list : Bytes} {ps : List Tree},
    Parameters sigil.byte write list ps → (∀ p ∈ ps, IsParameter p) → EachRawAmong P ps →
    Grammar.Parameters sigil.byte bodyText list ps
  | _, _, .none hGap, _, _ => .none hGap
  | _, _, .some hList, hPs, hRaws => .some (parameterList_derived hBody hList hPs hRaws)
termination_by structural _ _ h => h

theorem parameterList_derived (hBody : WritesBodies sigil.byte write bodyText P) :
    ∀ {list : Bytes} {ps : List Tree},
    ParameterList sigil.byte write list ps → (∀ p ∈ ps, IsParameter p) → EachRawAmong P ps →
    Grammar.ParameterList sigil.byte bodyText list ps
  | _, _, .last hParameter, hPs, hRaws =>
    .last (parameter_derived hBody hParameter (List.forall_mem_singleton.mp hPs) hRaws.1)
  | _, _, .more hParameter hList, hPs, hRaws =>
    .more (parameter_derived hBody hParameter (List.forall_mem_cons.mp hPs).1 hRaws.1)
      (parameterList_derived hBody hList (List.forall_mem_cons.mp hPs).2 hRaws.2)
termination_by structural _ _ h => h

theorem parameter_derived (hBody : WritesBodies sigil.byte write bodyText P) :
    ∀ {run : Bytes} {p : Tree},
    Parameter sigil.byte write run p → IsParameter p → EachRaw P p →
    Grammar.Parameter sigil.byte bodyText run p
  | _, _, .identifier hGap hGap', hp, _ => by
    obtain ⟨word, hWord, hName⟩ := isParameter_identifier_iff.mp hp
    obtain rfl := Bytes.ascii_inj.mp hName
    exact .identifier hGap hWord hGap'
  | _, _, .int hGap, hp, _ => by
    obtain ⟨n, hn, hValue⟩ := isParameter_int_iff.mp hp
    obtain rfl := Int.ofNat.inj hValue
    exact .number hGap (Numeral.literal_decimal hn)
  | _, _, .double hGap hLiteral, _, _ => .number hGap hLiteral
  | _, _, .string hGap hElements, hp, hRaws => by
    cases hp with
    | string hNested =>
      have hDerived := elements_derived hBody hElements hNested.isTemplate hRaws
      have hQuoted := quoted_escape (by decide : Byte.quote ≠ Byte.backslash)
        (Grammar.getLast?_ne_of_isNested hDerived hNested)
      exact .string hGap hQuoted hDerived
  | _, _, .expression hGap hGap' hRight, hp, hRaws => by
    obtain ⟨⟨word, hWord, hName⟩, hp⟩ := isParameter_expression_iff.mp hp
    obtain rfl := Bytes.ascii_inj.mp (Tree.identifier.inj hName)
    exact .expression hGap hWord hGap' (parameter_derived hBody hRight hp hRaws.2)
termination_by structural _ _ h => h

end

end

section

variable {sigil : Byte} {write : Bytes → Bytes}

theorem exists_parameterList {p : Tree} {ps : List Tree}
    (h : ∀ q ∈ p :: ps, ∃ run, Parameter sigil write run q) :
    ∃ list, ParameterList sigil write list (p :: ps) := by
  induction ps generalizing p with
  | nil =>
    obtain ⟨run, hRun⟩ := h p List.mem_cons_self
    exact ⟨run, .last hRun⟩
  | cons q ps ih =>
    obtain ⟨run, hRun⟩ := h p List.mem_cons_self
    obtain ⟨list, hList⟩ := ih fun q' hq' => h q' (List.mem_cons_of_mem p hq')
    exact ⟨run ++ Byte.comma :: list, .more hRun hList⟩

theorem exists_parameters {ps : List Tree} (h : ∀ p ∈ ps, ∃ run, Parameter sigil write run p) :
    ∃ list, Parameters sigil write list ps := by
  cases ps with
  | nil => exact ⟨[], .none blank_nil⟩
  | cons p ps =>
    obtain ⟨list, hList⟩ := exists_parameterList h
    exact ⟨list, .some hList⟩

theorem exists_elements {ts : List Tree}
    (h : ∀ t ∈ ts, ∀ rest others, Elements sigil write rest others →
      ∃ buffer, Elements sigil write buffer (t :: others)) :
    ∃ buffer, Elements sigil write buffer ts := by
  induction ts with
  | nil => exact ⟨[], .nil⟩
  | cons t ts ih =>
    obtain ⟨rest, hRest⟩ := ih fun t' ht' => h t' (List.mem_cons_of_mem t ht')
    exact h t List.mem_cons_self rest ts hRest

mutual

theorem exists_element : ∀ {t : Tree}, IsElement t → ∀ rest others,
    Elements sigil write rest others → ∃ buffer, Elements sigil write buffer (t :: others)
  | _, .raw _, _, _, hRest => ⟨_, .raw hRest⟩
  | _, .tag _ hParameters, _, _, hRest => by
    obtain ⟨list, hList⟩ := exists_parameters fun p hp => exists_parameter (hParameters p hp)
    exact ⟨_, .tag hList blank_nil hRest⟩
  | _, .tagWithBody _ hParameters hBody, _, _, hRest => by
    obtain ⟨list, hList⟩ := exists_parameters fun p hp => exists_parameter (hParameters p hp)
    obtain ⟨text, hText⟩ := exists_nested hBody
    exact ⟨_, .tagWithBody hList blank_nil hText hRest⟩
termination_by structural _ h => h

theorem exists_parameter : ∀ {p : Tree}, IsParameter p → ∃ run, Parameter sigil write run p
  | _, .identifier _ => ⟨_, .identifier blank_nil blank_nil⟩
  | _, .int _ => ⟨_, .int blank_nil⟩
  | _, .double hLiteral => ⟨_, .double blank_nil hLiteral⟩
  | _, .string hTemplate => by
    obtain ⟨text, hText⟩ := exists_nested hTemplate
    exact ⟨_, .string blank_nil hText⟩
  | _, .expression _ hRight => by
    obtain ⟨right, hRight⟩ := exists_parameter hRight
    exact ⟨_, .expression blank_nil blank_nil hRight⟩
termination_by structural _ h => h

theorem exists_nested : ∀ {ts : List Tree}, IsNested ts → ∃ buffer, Elements sigil write buffer ts
  | _, .intro hElements _ _ => exists_elements fun t ht => exists_element (hElements t ht)
termination_by structural _ h => h

end

end

theorem exists_rendering {sigil : Byte} {write : Bytes → Bytes} {ts : List Tree}
    (h : IsTemplate ts) : ∃ buffer, Elements sigil write buffer ts :=
  exists_elements fun t ht => exists_element (h.isElement t ht)

theorem derived_escape {sigil : Sigil} {buffer : Bytes} {ts : List Tree}
    (hBuffer : Elements sigil.byte (escape Byte.rightBrace) buffer ts) (h : IsTemplate ts) :
    Grammar.Elements sigil.byte (Quoted Byte.rightBrace) buffer ts := by
  apply elements_derived _ hBuffer h (eachRawAmong_true ts)
  intro text body _ _ _ hLast
  exact quoted_escape (by decide) hLast

theorem read_of_elements {sigil : Sigil} {buffer : Bytes} {ts : List Tree}
    (hBuffer : Elements sigil.byte (escape Byte.rightBrace) buffer ts) (h : IsTemplate ts) :
    ∃ nodes, (Template.read ⟨sigil, false⟩ buffer).result = .ok nodes ∧ Node.trees nodes = ts := by
  have hDerived := derived_escape hBuffer h
  rw [← bodyText_of_unbalanced] at hDerived
  exact (Grammar.read_ok_iff ⟨sigil, false⟩ buffer ts).mpr hDerived

/-- The templates are the trees that can be read. -/
theorem isTemplate_iff_exists_read (sigil : Sigil) (ts : List Tree) :
    IsTemplate ts ↔ ∃ buffer nodes,
      (Template.read ⟨sigil, false⟩ buffer).result = .ok nodes ∧ Node.trees nodes = ts := by
  constructor
  · intro h
    obtain ⟨buffer, hBuffer⟩ := exists_rendering h
    exact ⟨buffer, read_of_elements hBuffer h⟩
  · rintro ⟨buffer, nodes, hNodes, rfl⟩
    exact Grammar.isTemplate_of_elements (Grammar.read_sound hNodes)

/-- Where bodies are not balanced, each template has renderings, and is read from all of them. -/
theorem read_rendering (sigil : Sigil) {ts : List Tree} (h : IsTemplate ts) :
    (∃ buffer, Elements sigil.byte (escape Byte.rightBrace) buffer ts) ∧
      ∀ buffer, Elements sigil.byte (escape Byte.rightBrace) buffer ts →
        ∃ nodes, (Template.read ⟨sigil, false⟩ buffer).result = .ok nodes ∧
          Node.trees nodes = ts := by
  refine ⟨exists_rendering h, ?_⟩
  intro buffer hBuffer
  exact read_of_elements hBuffer h

/-- A quote in a string and a right brace in the body of the same tag. -/
theorem read_rendering_delimiters :
    let ts : List Tree := [.tag (.identifier (Bytes.ascii [0x61]))
      [.expression .add (.identifier (Bytes.ascii [0x62])) (.string [.raw [0x22]]), .int 7]
      (some [.raw [0x7D]]), .raw [0x5C]]
    IsTemplate ts ∧
      (∃ buffer, Elements Sigil.standard.byte (escape Byte.rightBrace) buffer ts) ∧
      ∀ buffer, Elements Sigil.standard.byte (escape Byte.rightBrace) buffer ts →
        ∃ nodes, (Template.read ⟨Sigil.standard, false⟩ buffer).result = .ok nodes ∧
          Node.trees nodes = ts := by
  intro ts
  have hRaw {data : Bytes} (hData : data ≠ []) (hLast : data.getLast? ≠ some Byte.backslash) :
      IsNested [.raw data] := by
    refine .intro (List.forall_mem_singleton.mpr (.raw hData)) (.singleton _) ?_
    exact List.forall_mem_singleton.mpr hLast
  have hWord : Word [0x62] := ⟨by decide, 0x62, rfl, by decide⟩
  have hParameters : ∀ p ∈ [Tree.expression .add (.identifier (Bytes.ascii [0x62]))
      (.string [.raw [0x22]]), .int 7], IsParameter p := by
    refine List.forall_mem_cons.mpr ⟨.expression hWord (.string (hRaw (by decide) (by decide))), ?_⟩
    refine List.forall_mem_singleton.mpr (isParameter_int_iff.mpr ⟨7, ?_, rfl⟩)
    exact (Numeral.length_decimal_le_iff 7 (by decide)).mp (by decide)
  have hTemplate : IsTemplate ts := by
    refine isTemplate_cons_iff.mpr ⟨.tagWithBody (by decide) hParameters
      (hRaw (by decide) (by decide)), fun t _ => Grammar.adjacent_tagWithBody t,
      fun _ => not_false, ?_⟩
    exact isTemplate_cons_iff.mpr ⟨.raw (by decide), nofun, fun h => absurd rfl h, .nil⟩
  exact ⟨hTemplate, read_rendering Sigil.standard hTemplate⟩

end Rendering

end TagTemplate
