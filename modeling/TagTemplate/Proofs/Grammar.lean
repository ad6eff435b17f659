import TagTemplate.Proofs.Element
import TagTemplate.Proofs.Numeral

/-!
# The grammar of templates

A derivation tiles a buffer with raw runs and tags and names the tree of each. Texts that are cut
out of a buffer are derived after their delimiters are unescaped.
-/

namespace TagTemplate

/-- Holds where `run` in front of its delimiter says `text`. -/
structure Quoted (delimiter : Byte) (run text : Bytes) : Prop where
  guarded : Guarded delimiter run
  last : run.getLast? ≠ some Byte.backslash
  text : text = unescape delimiter run

theorem quoted_escape {delimiter : Byte} (hDelimiter : delimiter ≠ Byte.backslash) {text : Bytes}
    (hLast : text.getLast? ≠ some Byte.backslash) :
    Quoted delimiter (escape delimiter text) text where
  guarded := guarded_escape hDelimiter text
  last := by rwa [getLast?_escape]
  text := (unescape_escape hDelimiter text).symm

theorem enclosed_none {delimiter : Byte} (hDelimiter : delimiter ≠ Byte.backslash) :
    Enclosed delimiter none = Quoted delimiter := by
  funext run text
  apply propext
  rw [enclosed_none_iff hDelimiter]
  constructor
  · rintro ⟨hRun, hLast⟩
    obtain ⟨hGuarded, hText⟩ := (eq_escape_iff hDelimiter).mp hRun
    exact ⟨hGuarded, by rwa [hRun, getLast?_escape], hText⟩
  · rintro ⟨hGuarded, hLast, hText⟩
    have hRun := (eq_escape_iff hDelimiter).mpr ⟨hGuarded, hText⟩
    exact ⟨hRun, by rwa [hRun, getLast?_escape] at hLast⟩

def Options.BodyText (options : Options) : Bytes → Bytes → Prop :=
  Enclosed Byte.rightBrace options.bodyOpener

theorem bodyText_of_unbalanced (sigil : Sigil) :
    Options.BodyText ⟨sigil, false⟩ = Quoted Byte.rightBrace :=
  enclosed_none (by decide)

/-- Holds of the words that start with a letter. -/
structure Word (word : Bytes) : Prop where
  alphanumeric : Template.Alphanumeric word
  letter : ∃ b, word.head? = some b ∧ b.isLetter = true

theorem Word.ne_nil {word : Bytes} (h : Word word) : word ≠ [] := by
  rintro rfl
  obtain ⟨b, hHead, -⟩ := h.letter
  cases hHead

namespace Grammar

section

variable (sigil : Byte) (bodyText : Bytes → Bytes → Prop)

mutual

/-- The sequences of elements. A tag takes all the spaces behind its parameters, and a body if one
opens there. -/
inductive Elements : Bytes → List Tree → Prop
  | nil : Elements [] []
  | raw {run rest : Bytes} {ts : List Tree} :
      run ≠ [] → run.head? ≠ some sigil → Guarded sigil run → Passage.EndsBefore sigil run rest →
      Elements rest ts → Elements (run ++ rest) (.raw (unescape sigil run) :: ts)
  | tag {name list gap rest : Bytes} {ps ts : List Tree} :
      Template.Alphanumeric name → Parameters list ps → Blank gap →
      rest.head? ≠ some Byte.space → rest.head? ≠ some Byte.leftBrace → Elements rest ts →
      Elements
        (sigil :: name ++ Byte.leftParenthesis :: list ++ Byte.rightParenthesis :: gap ++ rest)
        (.tag (.identifier name.ascii) ps none :: ts)
  | tagWithBody {name list gap run text rest : Bytes} {ps body ts : List Tree} :
      Template.Alphanumeric name → Parameters list ps → Blank gap →
      bodyText run text → Elements text body → Elements rest ts →
      Elements
        (sigil :: name ++ Byte.leftParenthesis :: list ++ Byte.rightParenthesis :: gap ++
          Byte.leftBrace :: run ++ Byte.rightBrace :: rest)
        (.tag (.identifier name.ascii) ps (some body) :: ts)

inductive Parameters : Bytes → List Tree → Prop
  | none {gap : Bytes} : Blank gap → Parameters gap []
  | some {list : Bytes} {ps : List Tree} : ParameterList list ps → Parameters list ps

inductive ParameterList : Bytes → List Tree → Prop
  | last {run : Bytes} {p : Tree} : Parameter run p → ParameterList run [p]
  | more {run list : Bytes} {p : Tree} {ps : List Tree} :
      Parameter run p → ParameterList list ps → ParameterList (run ++ Byte.comma :: list) (p :: ps)

inductive Parameter : Bytes → Tree → Prop
  | string {gap run text : Bytes} {ts : List Tree} :
      Blank gap → Quoted Byte.quote run text → Elements text ts →
      Parameter (gap ++ Byte.quote :: run ++ [Byte.quote]) (.string ts)
  | number {gap run : Bytes} {numeral : Numeral} :
      Blank gap → Numeral.Literal run numeral → Parameter (gap ++ run) numeral.tree
  | identifier {gap word gap' : Bytes} :
      Blank gap → Word word → Blank gap' →
      Parameter (gap ++ word ++ gap') (.identifier word.ascii)
  | expression {gap word gap' right : Bytes} {operator : Operator} {p : Tree} :
      Blank gap → Word word → Blank gap' → Parameter right p →
      Parameter (gap ++ word ++ gap' ++ operator.byte :: right)
        (.expression operator (.identifier word.ascii) p)

end

end

end Grammar

end TagTemplate
