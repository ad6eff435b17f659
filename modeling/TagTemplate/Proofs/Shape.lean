import Mathlib.Data.List.Chain
import TagTemplate.Proofs.Completeness

/-!
# The shape of what is read

Raw passages and tags make up a template, and identifiers, numbers, strings and expressions make up
the parameters of a tag. No two raw passages stand side by side, and none holds what the tag before
it would have taken. These conditions hold at every depth of what is read.
-/

namespace TagTemplate

namespace Tree

def EndsInBackslash : Tree → Prop
  | raw data => data.getLast? = some Byte.backslash
  | _ => False

/-- Holds of what can stand side by side. -/
def Adjacent : Tree → Tree → Prop
  | raw _, raw _ => False
  | tag _ _ none, raw data =>
    data.head? ≠ some Byte.space ∧ data.head? ≠ some Byte.leftBrace
  | _, _ => True

mutual

inductive IsElement : Tree → Prop
  | raw {data : Bytes} : data ≠ [] → IsElement (.raw data)
  | tag {name : Bytes} {ps : List Tree} :
      Template.Alphanumeric name → (∀ p ∈ ps, IsParameter p) →
      IsElement (.tag (.identifier name.ascii) ps none)
  | tagWithBody {name : Bytes} {ps body : List Tree} :
      Template.Alphanumeric name → (∀ p ∈ ps, IsParameter p) → IsNested body →
      IsElement (.tag (.identifier name.ascii) ps (some body))

inductive IsParameter : Tree → Prop
  | identifier {word : Bytes} : Word word → IsParameter (.identifier word.ascii)
  | int {n : Nat} : n < Nat.pow 10 Decimal.maxDigits → IsParameter (.int n)
  | double {run : Bytes} {value : Binary64} :
      Numeral.Literal run (.double value) → IsParameter (.double value)
  | string {template : List Tree} : IsNested template → IsParameter (.string template)
  | expression {operator : Operator} {word : Bytes} {right : Tree} :
      Word word → IsParameter right →
      IsParameter (.expression operator (.identifier word.ascii) right)

/-- Holds of the templates of bodies and strings, whose last byte stands before a delimiter. -/
inductive IsNested : List Tree → Prop
  | intro {ts : List Tree} :
      (∀ t ∈ ts, IsElement t) → ts.IsChain Adjacent → (∀ t ∈ ts, ¬t.EndsInBackslash) → IsNested ts

end

/-- Holds of the templates of whole buffers. -/
structure IsTemplate (ts : List Tree) : Prop where
  isElement : ∀ t ∈ ts, IsElement t
  adjacent : ts.IsChain Adjacent
  closed : ∀ t ∈ ts.dropLast, ¬t.EndsInBackslash

theorem isElement_tag_iff {name : Tree} {ps : List Tree} :
    IsElement (.tag name ps none) ↔ (∃ word, Template.Alphanumeric word ∧
      name = .identifier word.ascii) ∧ ∀ p ∈ ps, IsParameter p := by
  constructor
  · intro h
    cases h with
    | tag hName hParameters => exact ⟨⟨_, hName, rfl⟩, hParameters⟩
  · rintro ⟨⟨word, hName, rfl⟩, hParameters⟩
    exact .tag hName hParameters

theorem isElement_tagWithBody_iff {name : Tree} {ps body : List Tree} :
    IsElement (.tag name ps (some body)) ↔ (∃ word, Template.Alphanumeric word ∧
      name = .identifier word.ascii) ∧ (∀ p ∈ ps, IsParameter p) ∧ IsNested body := by
  constructor
  · intro h
    cases h with
    | tagWithBody hName hParameters hBody => exact ⟨⟨_, hName, rfl⟩, hParameters, hBody⟩
  · rintro ⟨⟨word, hName, rfl⟩, hParameters, hBody⟩
    exact .tagWithBody hName hParameters hBody

theorem isParameter_identifier_iff {name : String} :
    IsParameter (.identifier name) ↔ ∃ word, Word word ∧ name = word.ascii := by
  constructor
  · intro h
    cases h with
    | identifier hWord => exact ⟨_, hWord, rfl⟩
  · rintro ⟨word, hWord, rfl⟩
    exact .identifier hWord

theorem isParameter_int_iff {value : Int} :
    IsParameter (.int value) ↔ ∃ n : Nat, n < Nat.pow 10 Decimal.maxDigits ∧ value = n := by
  constructor
  · intro h
    cases h with
    | int hValue => exact ⟨_, hValue, rfl⟩
  · rintro ⟨n, hValue, rfl⟩
    exact .int hValue

theorem isParameter_expression_iff {operator : Operator} {left right : Tree} :
    IsParameter (.expression operator left right) ↔
      (∃ word, Word word ∧ left = .identifier word.ascii) ∧ IsParameter right := by
  constructor
  · intro h
    cases h with
    | expression hWord hRight => exact ⟨⟨_, hWord, rfl⟩, hRight⟩
  · rintro ⟨⟨word, hWord, rfl⟩, hRight⟩
    exact .expression hWord hRight

theorem IsTemplate.nil : IsTemplate [] where
  isElement := List.forall_mem_nil _
  adjacent := .nil
  closed := List.forall_mem_nil _

theorem isTemplate_cons_iff {t : Tree} {ts : List Tree} :
    IsTemplate (t :: ts) ↔ IsElement t ∧ (∀ t' ∈ ts.head?, Adjacent t t') ∧
      (ts ≠ [] → ¬t.EndsInBackslash) ∧ IsTemplate ts := by
  constructor
  · rintro ⟨hElement, hAdjacent, hClosed⟩
    rw [List.isChain_cons] at hAdjacent
    refine ⟨hElement t List.mem_cons_self, hAdjacent.1, ?_,
      fun t' ht' => hElement t' (List.mem_cons_of_mem t ht'), hAdjacent.2, ?_⟩
    · intro hTail
      rw [List.dropLast_cons_of_ne_nil hTail] at hClosed
      exact hClosed t List.mem_cons_self
    · intro t' ht'
      cases ts with
      | nil => cases ht'
      | cons u ts =>
        rw [List.dropLast_cons_of_ne_nil (List.cons_ne_nil u ts)] at hClosed
        exact hClosed t' (List.mem_cons_of_mem t ht')
  · rintro ⟨hElement, hAdjacent, hClosed, hTail⟩
    refine ⟨List.forall_mem_cons.mpr ⟨hElement, hTail.isElement⟩,
      List.isChain_cons.mpr ⟨hAdjacent, hTail.adjacent⟩, ?_⟩
    intro t' ht'
    cases ts with
    | nil => cases ht'
    | cons u ts =>
      rw [List.dropLast_cons_of_ne_nil (List.cons_ne_nil u ts)] at ht'
      rcases List.mem_cons.mp ht' with rfl | ht'
      · exact hClosed (List.cons_ne_nil u ts)
      · exact hTail.closed t' ht'

theorem IsNested.isTemplate {ts : List Tree} (h : IsNested ts) : IsTemplate ts := by
  obtain ⟨hElement, hAdjacent, hClosed⟩ := h
  exact ⟨hElement, hAdjacent, fun t ht => hClosed t (List.dropLast_subset ts ht)⟩

theorem IsTemplate.isNested {ts : List Tree} (h : IsTemplate ts)
    (hLast : ∀ t ∈ ts.getLast?, ¬t.EndsInBackslash) : IsNested ts := by
  refine .intro h.isElement h.adjacent fun t ht => ?_
  have hNonempty : ts ≠ [] := List.ne_nil_of_mem ht
  rw [← List.dropLast_concat_getLast hNonempty] at ht
  rcases List.mem_append.mp ht with ht | ht
  · exact h.closed t ht
  · rw [List.mem_singleton] at ht
    exact hLast t (by rw [ht, List.getLast?_eq_some_getLast hNonempty]; rfl)

end Tree

namespace Grammar

open TagTemplate.Tree

section

variable {sigil : Sigil} {bodyText : Bytes → Bytes → Prop} {buffer : Bytes} {ts : List Tree}

theorem eq_nil_iff (h : Elements sigil.byte bodyText buffer ts) : buffer = [] ↔ ts = [] := by
  cases h with
  | nil => simp
  | raw hRun => simp [hRun]
  | tag => simp
  | tagWithBody => simp

/-- A derivation that starts with a raw passage takes an escaped text. -/
theorem raw_head {data : Bytes} (h : Elements sigil.byte bodyText buffer (.raw data :: ts)) :
    data ≠ [] ∧ buffer.head? = (escape sigil.byte data).head? := by
  cases h with
  | @raw run _ _ hRun hHead hGuarded hEnd hElements =>
    have hDelimiter := sigil.byte_ne_backslash
    rw [escape_unescape hDelimiter run hGuarded, List.head?_append_of_ne_nil _ hRun]
    refine ⟨fun hNil => hRun ?_, rfl⟩
    rw [← escape_unescape hDelimiter run hGuarded, hNil, escape_nil]

/-- A reserved byte is the first one of a raw passage exactly if it is the first one of its data. -/
theorem head?_eq_of_raw {data : Bytes} {b : Byte} (hb : b.isReserved = true)
    (hBackslash : b ≠ Byte.backslash)
    (h : Elements sigil.byte bodyText buffer (.raw data :: ts)) :
    buffer.head? = some b ↔ data.head? = some b := by
  rw [(raw_head h).2]
  exact head?_escape (Ne.symm (sigil.byte_ne hb)) hBackslash data

/-- Another raw passage would start where this one has not ended. -/
theorem adjacent_raw {run data : Bytes} (hEnd : Passage.EndsBefore sigil.byte run buffer)
    (h : Elements sigil.byte bodyText buffer ts) : ∀ t ∈ ts.head?, Adjacent (.raw data) t := by
  intro t ht
  obtain ⟨others, rfl⟩ := List.head?_eq_some_iff.mp ht
  cases t with
  | raw data' =>
    obtain ⟨-, hHead⟩ := raw_head h
    rcases hEnd with hNil | ⟨hSigil, -⟩
    · cases (eq_nil_iff h).mp hNil
    · rw [hHead] at hSigil
      exact head?_escape_ne sigil.byte_ne_backslash data' hSigil
  | _ => trivial

theorem adjacent_tag {name : Tree} {ps : List Tree} (hSpace : buffer.head? ≠ some Byte.space)
    (hBrace : buffer.head? ≠ some Byte.leftBrace) (h : Elements sigil.byte bodyText buffer ts) :
    ∀ t ∈ ts.head?, Adjacent (.tag name ps none) t := by
  intro t ht
  obtain ⟨others, rfl⟩ := List.head?_eq_some_iff.mp ht
  cases t with
  | raw data =>
    rw [ne_eq, head?_eq_of_raw (by decide) (by decide) h] at hSpace hBrace
    exact ⟨hSpace, hBrace⟩
  | _ => trivial

/-- A raw passage ends at a tag or at the end. -/
theorem endsBefore_of_adjacent {data : Bytes} (h : Elements sigil.byte bodyText buffer ts)
    (hAdjacent : ∀ t ∈ ts.head?, Adjacent (.raw data) t)
    (hClosed : ts ≠ [] → ¬(raw data).EndsInBackslash) :
    Passage.EndsBefore sigil.byte (escape sigil.byte data) buffer := by
  cases h with
  | nil => exact Or.inl rfl
  | raw => exact (hAdjacent _ rfl).elim
  | tag => exact Or.inr ⟨rfl, by rw [getLast?_escape]; exact hClosed (List.cons_ne_nil _ _)⟩
  | tagWithBody => exact Or.inr ⟨rfl, by rw [getLast?_escape]; exact hClosed (List.cons_ne_nil _ _)⟩

/-- A raw passage is derived from its escaped data in front of all that may follow it. -/
theorem elements_escape {data : Bytes} (hRaw : IsElement (.raw data))
    (hAdjacent : ∀ t ∈ ts.head?, Adjacent (.raw data) t)
    (hClosed : ts ≠ [] → ¬(raw data).EndsInBackslash)
    (h : Elements sigil.byte bodyText buffer ts) :
    Elements sigil.byte bodyText (escape sigil.byte data ++ buffer) (.raw data :: ts) := by
  have hDelimiter := sigil.byte_ne_backslash
  have hData : escape sigil.byte data ≠ [] := by
    cases hRaw with
    | raw hData => rwa [ne_eq, escape_eq_nil_iff]
  have hEnd := endsBefore_of_adjacent h hAdjacent hClosed
  have hDerived := Elements.raw hData (head?_escape_ne hDelimiter data)
    (guarded_escape hDelimiter data) hEnd h
  rwa [unescape_escape hDelimiter] at hDerived

/-- What follows a tag without a body adds neither a space to it nor a body. -/
theorem head?_of_adjacent {name : Tree} {ps : List Tree}
    (h : Elements sigil.byte bodyText buffer ts)
    (hAdjacent : ∀ t ∈ ts.head?, Adjacent (.tag name ps none) t) :
    buffer.head? ≠ some Byte.space ∧ buffer.head? ≠ some Byte.leftBrace := by
  have hSpace := sigil.byte_ne (by decide : Byte.space.isReserved = true)
  have hBrace := sigil.byte_ne (by decide : Byte.leftBrace.isReserved = true)
  cases h with
  | nil => simp
  | tag => simpa using ⟨hSpace, hBrace⟩
  | tagWithBody => simpa using ⟨hSpace, hBrace⟩
  | raw hRun hHead hGuarded hEnd hElements =>
    have hRaw := Elements.raw hRun hHead hGuarded hEnd hElements
    rw [ne_eq, ne_eq, head?_eq_of_raw (by decide) (by decide) hRaw,
      head?_eq_of_raw (by decide) (by decide) hRaw]
    exact hAdjacent _ rfl

theorem adjacent_tagWithBody {name : Tree} {ps body : List Tree} (t : Tree) :
    Adjacent (.tag name ps (some body)) t := by
  cases t <;> trivial

/-- A backslash at the end of the last raw passage ends the buffer. -/
theorem getLast?_of_endsInBackslash : ∀ {buffer : Bytes} {ts : List Tree},
    Elements sigil.byte bodyText buffer ts → ∀ t ∈ ts.getLast?, t.EndsInBackslash →
    buffer.getLast? = some Byte.backslash
  | _, _, .nil, _, ht, _ => nomatch ht
  | _, _, .raw hRun hHead hGuarded hEnd hElements, t, ht, hLast => by
    rcases getLast?_cons_eq_some_iff.mp ht with ⟨hNil, rfl⟩ | ht
    · have hDelimiter := sigil.byte_ne_backslash
      rw [(eq_nil_iff hElements).mpr hNil, List.append_nil, ← escape_unescape hDelimiter _ hGuarded,
        getLast?_escape]
      exact hLast
    · exact getLast?_append_eq_some_iff.mpr
        (Or.inr (getLast?_of_endsInBackslash hElements t ht hLast))
  | _, _, .tag _ _ _ _ _ hElements, t, ht, hLast => by
    rcases getLast?_cons_eq_some_iff.mp ht with ⟨-, rfl⟩ | ht
    · exact hLast.elim
    · exact getLast?_append_eq_some_iff.mpr
        (Or.inr (getLast?_of_endsInBackslash hElements t ht hLast))
  | _, _, .tagWithBody _ _ _ _ _ hElements, t, ht, hLast => by
    rcases getLast?_cons_eq_some_iff.mp ht with ⟨-, rfl⟩ | ht
    · exact hLast.elim
    · refine getLast?_append_eq_some_iff.mpr (Or.inr (getLast?_cons_eq_some_iff.mpr (Or.inr ?_)))
      exact getLast?_of_endsInBackslash hElements t ht hLast
termination_by structural _ _ h => h

/-- Only a raw passage can put a backslash at the end of a buffer. -/
theorem endsInBackslash_of_getLast? : ∀ {buffer : Bytes} {ts : List Tree},
    Elements sigil.byte bodyText buffer ts → buffer.getLast? = some Byte.backslash →
    ∃ t ∈ ts.getLast?, t.EndsInBackslash
  | _, _, .nil, hLast => nomatch hLast
  | _, _, @Elements.raw _ _ run _ _ hRun hHead hGuarded hEnd hElements, hLast => by
    rcases getLast?_append_eq_some_iff.mp hLast with ⟨hNil, hLast⟩ | hLast
    · rw [(eq_nil_iff hElements).mp hNil]
      refine ⟨.raw (unescape sigil.byte run), rfl, ?_⟩
      rwa [← escape_unescape sigil.byte_ne_backslash run hGuarded, getLast?_escape] at hLast
    · obtain ⟨t, ht, hEnds⟩ := endsInBackslash_of_getLast? hElements hLast
      exact ⟨t, getLast?_cons_eq_some_iff.mpr (Or.inr ht), hEnds⟩
  | _, _, .tag _ _ hGap _ _ hElements, hLast => by
    rcases getLast?_append_eq_some_iff.mp hLast with ⟨-, hLast⟩ | hLast
    · rw [List.getLast?_append_of_ne_nil _ (List.cons_ne_nil _ _)] at hLast
      rcases List.mem_cons.mp (List.mem_of_getLast? hLast) with hParenthesis | hSpace
      · cases hParenthesis
      · cases hGap _ hSpace
    · obtain ⟨t, ht, hEnds⟩ := endsInBackslash_of_getLast? hElements hLast
      exact ⟨t, getLast?_cons_eq_some_iff.mpr (Or.inr ht), hEnds⟩
  | _, _, .tagWithBody _ _ _ _ _ hElements, hLast => by
    rw [List.append_cons] at hLast
    rcases getLast?_append_eq_some_iff.mp hLast with ⟨-, hLast⟩ | hLast
    · rw [List.getLast?_concat] at hLast
      cases hLast
    · obtain ⟨t, ht, hEnds⟩ := endsInBackslash_of_getLast? hElements hLast
      exact ⟨t, getLast?_cons_eq_some_iff.mpr (Or.inr ht), hEnds⟩
termination_by structural _ _ h => h

theorem getLast?_ne_of_isNested (h : Elements sigil.byte bodyText buffer ts)
    (hNested : IsNested ts) : buffer.getLast? ≠ some Byte.backslash := by
  intro hLast
  obtain ⟨t, ht, hEnds⟩ := endsInBackslash_of_getLast? h hLast
  cases hNested with
  | intro _ _ hClosed => exact hClosed t (List.mem_of_getLast? ht) hEnds

theorem isNested_of_elements (h : Elements sigil.byte bodyText buffer ts)
    (hTemplate : IsTemplate ts) (hLast : buffer.getLast? ≠ some Byte.backslash) : IsNested ts :=
  hTemplate.isNested fun t ht hEnds => hLast (getLast?_of_endsInBackslash h t ht hEnds)

theorem isParameter_of_literal {run : Bytes} {numeral : Numeral}
    (h : Numeral.Literal run numeral) : IsParameter numeral.tree := by
  cases numeral with
  | double value => exact .double h
  | int value =>
    cases h with
    | int _ hDigits hLength => exact .int (Numeral.value_lt_of_length_le hDigits hLength)

end

section

variable {options : Options}

mutual

theorem isTemplate_of_elements : ∀ {buffer : Bytes} {ts : List Tree},
    Elements options.sigil.byte options.BodyText buffer ts → IsTemplate ts
  | _, _, .nil => IsTemplate.nil
  | _, _, .raw hRun hHead hGuarded hEnd hElements => by
    have hDelimiter := options.sigil.byte_ne_backslash
    have hRaw := raw_head (.raw hRun hHead hGuarded hEnd hElements)
    refine isTemplate_cons_iff.mpr ⟨.raw hRaw.1, adjacent_raw hEnd hElements, ?_,
      isTemplate_of_elements hElements⟩
    intro hNonempty hLast
    rcases hEnd with hNil | ⟨-, hEnd⟩
    · exact hNonempty ((eq_nil_iff hElements).mp hNil)
    · rw [← escape_unescape hDelimiter _ hGuarded, getLast?_escape] at hEnd
      exact hEnd hLast
  | _, _, .tag hName hParameters hGap hSpace hBrace hElements =>
    isTemplate_cons_iff.mpr ⟨.tag hName (isParameter_of_parameters hParameters),
      adjacent_tag hSpace hBrace hElements, fun _ => not_false, isTemplate_of_elements hElements⟩
  | _, _, .tagWithBody hName hParameters hGap hText hBody hElements =>
    isTemplate_cons_iff.mpr ⟨.tagWithBody hName (isParameter_of_parameters hParameters)
      (isNested_of_elements hBody (isTemplate_of_elements hBody) (hText.getLast?_ne (by decide))),
      fun t _ => adjacent_tagWithBody t, fun _ => not_false, isTemplate_of_elements hElements⟩
termination_by structural _ _ h => h

theorem isParameter_of_parameters : ∀ {list : Bytes} {ps : List Tree},
    Parameters options.sigil.byte options.BodyText list ps → ∀ p ∈ ps, IsParameter p
  | _, _, .none _ => List.forall_mem_nil _
  | _, _, .some hList => isParameter_of_parameterList hList
termination_by structural _ _ h => h

theorem isParameter_of_parameterList : ∀ {list : Bytes} {ps : List Tree},
    ParameterList options.sigil.byte options.BodyText list ps → ∀ p ∈ ps, IsParameter p
  | _, _, .last hParameter => List.forall_mem_singleton.mpr (isParameter_of_parameter hParameter)
  | _, _, .more hParameter hList => List.forall_mem_cons.mpr
    ⟨isParameter_of_parameter hParameter, isParameter_of_parameterList hList⟩
termination_by structural _ _ h => h

theorem isParameter_of_parameter : ∀ {run : Bytes} {p : Tree},
    Parameter options.sigil.byte options.BodyText run p → IsParameter p
  | _, _, .string _ hText hElements => by
    rw [← enclosed_none (by decide)] at hText
    exact .string (isNested_of_elements hElements (isTemplate_of_elements hElements)
      (hText.getLast?_ne (by decide)))
  | _, _, .number _ hLiteral => isParameter_of_literal hLiteral
  | _, _, .identifier _ hWord _ => .identifier hWord
  | _, _, .expression _ hWord _ hRight => .expression hWord (isParameter_of_parameter hRight)
termination_by structural _ _ h => h

end

end

/-- Whatever the buffer, what is read from it has the shape of a template. -/
theorem isTemplate_of_read {options : Options} {buffer : Bytes} {nodes : List Node}
    (h : (Template.read options buffer).result = .ok nodes) : IsTemplate (Node.trees nodes) :=
  isTemplate_of_elements (read_sound h)

/-- Balanced bodies keep the shape as well: a tag in the body of a tag. -/
theorem isTemplate_of_read_balanced :
    ∃ nodes, (Template.read ⟨Sigil.standard, true⟩
        [0x23, 0x61, 0x28, 0x62, 0x29, 0x7B, 0x23, 0x63, 0x28, 0x29, 0x7B, 0x64, 0x7D,
          0x7D]).result = .ok nodes ∧ IsTemplate (Node.trees nodes) := by
  obtain ⟨nodes, h⟩ : ∃ nodes, (Template.read ⟨Sigil.standard, true⟩
      [0x23, 0x61, 0x28, 0x62, 0x29, 0x7B, 0x23, 0x63, 0x28, 0x29, 0x7B, 0x64, 0x7D,
        0x7D]).result = .ok nodes := ⟨_, by with_unfolding_all rfl⟩
  exact ⟨nodes, h, isTemplate_of_read h⟩

end Grammar

end TagTemplate
