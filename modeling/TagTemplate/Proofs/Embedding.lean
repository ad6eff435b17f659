import TagTemplate.Proofs.Interruption

/-!
# Templates inside templates

A text that does not end in a backslash can be written as the string parameter of a tag, and as its
body where bodies are not balanced. Reading the tag reads the text: its nodes keep their places in
the text, and an error in it is the error of the whole. This iterates, since a tag does not end in a
backslash.
-/

namespace TagTemplate

namespace Embedding

open Template Scan

/-- A tag around a text. -/
structure Layer where
  enclosure : Enclosure
  name : Bytes
  alphanumeric : Alphanumeric name

namespace Layer

def write (sigil : Sigil) (layer : Layer) (text : Bytes) : Bytes :=
  match layer.enclosure with
  | .string => sigil.byte :: layer.name ++ Byte.leftParenthesis ::
      (Byte.quote :: escape Byte.quote text ++ [Byte.quote]) ++ [Byte.rightParenthesis]
  | .body => sigil.byte :: layer.name ++ Byte.leftParenthesis :: [Byte.rightParenthesis] ++
      (Byte.leftBrace :: escape Byte.rightBrace text ++ [Byte.rightBrace])

/-- The tag that is read, around the nodes of the text. -/
def node (sigil : Sigil) (layer : Layer) (text : Bytes) (template : List Node) : Node :=
  let nameStart := Position.origin.next sigil.byte
  let nameStop := nameStart.advance layer.name
  let name := Node.identifier layer.name.ascii (nameStart.to nameStop)
  let source := Position.origin.to (Position.origin.advance (layer.write sigil text))
  match layer.enclosure with
  | .string =>
    let start := nameStop.next Byte.leftParenthesis
    let stop := start.advance (Byte.quote :: escape Byte.quote text ++ [Byte.quote])
    .tag name [.string template (start.to stop)] none source
  | .body => .tag name [] (some template) source

end Layer

section

variable {options : Options} {nested : Bytes → Reading} {text : Bytes}

theorem elements_of_single {buffer : Bytes} {node : Node}
    (h : Gives (element options nested) (Cursor.start buffer) (some node)
      ⟨Position.origin.advance buffer, []⟩) :
    (elements options nested (Cursor.start buffer)).outcome = .ok [node] := by
  rw [elements_of_gives h, elements_of_nil rfl]
  rfl

theorem elements_string (name : Bytes) (hName : Alphanumeric name)
    (hText : text.getLast? ≠ some Byte.backslash) :
    (elements options nested
        (Cursor.start (Layer.write options.sigil ⟨.string, name, hName⟩ text))).outcome =
      (nested text).result.map fun ns =>
        [Layer.node options.sigil ⟨.string, name, hName⟩ text ns] := by
  have hEnclosed : Enclosed Byte.quote none (escape Byte.quote text) text :=
    (enclosed_none_iff (by decide)).mpr ⟨rfl, hText⟩
  have hWhole := Cursor.reads_start (Layer.write options.sigil ⟨.string, name, hName⟩ text)
  obtain ⟨c₄, hFront, hClose⟩ := Cursor.reads_append_iff.mp hWhole
  obtain ⟨c₂, hHead, hBack⟩ := Cursor.reads_append_iff.mp hFront
  obtain ⟨c₁, hSigil, hReadName⟩ := Cursor.reads_cons_iff.mp hHead
  obtain ⟨c₃, hOpen, hQuoted⟩ := Cursor.reads_cons_iff.mp hBack
  cases hResult : (nested text).result with
  | error e =>
    have hCuts : Cuts options nested _ text c₄ :=
      .string (.first (hHead.trans hOpen) hName) blank_nil hQuoted hEnclosed
    rw [elements_of_fails (fails_element_of_cuts hCuts hResult)]
    rfl
  | ok template =>
    have hString : Gives (stringParameter nested c₃.position) c₃
        (.string template (c₃.position.to c₄.position)) c₄ :=
      gives_stringParameter_iff.mpr ⟨_, text, template, hEnclosed, hQuoted, hResult, rfl⟩
    have hFirst := gives_parameter_some_iff.mpr ⟨[], c₃, Byte.quote, Cursor.Reads.refl c₃,
      blank_nil, hQuoted.peek_eq, by decide, Or.inl ⟨rfl, hString⟩⟩
    have hMore : Gives (moreParameters nested) c₄ [] c₄ := by
      refine gives_moreParameters_iff.mpr (Or.inl ⟨?_, rfl, rfl⟩)
      rw [hClose.peek_eq]
      decide
    have hParameters := gives_parameters_iff.mpr ⟨c₃, c₄, hOpen,
      gives_parameterList_iff.mpr (Or.inr ⟨_, [], c₄, hFirst, hMore, rfl⟩), hClose⟩
    refine elements_of_single (gives_element_some_iff.mpr (Or.inl (gives_tag_iff.mpr
      ⟨name, [], c₁, c₂, _, _, _, none, hSigil, hReadName, hName, hParameters, Cursor.Reads.refl _,
        blank_nil, nofun, gives_body?_iff.mpr (Or.inl ⟨nofun, rfl, rfl⟩), ?_⟩)))
    rw [hQuoted.position, hOpen.position, hReadName.position, hSigil.position]
    rfl

theorem elements_body (name : Bytes) (hName : Alphanumeric name)
    (hBalanced : options.balancedBodies = false) (hText : text.getLast? ≠ some Byte.backslash) :
    (elements options nested
        (Cursor.start (Layer.write options.sigil ⟨.body, name, hName⟩ text))).outcome =
      (nested text).result.map fun ns =>
        [Layer.node options.sigil ⟨.body, name, hName⟩ text ns] := by
  have hEnclosed :
      Enclosed Byte.rightBrace options.bodyOpener (escape Byte.rightBrace text) text := by
    rw [Options.bodyOpener, hBalanced]
    exact (enclosed_none_iff (by decide)).mpr ⟨rfl, hText⟩
  have hWhole := Cursor.reads_start (Layer.write options.sigil ⟨.body, name, hName⟩ text)
  obtain ⟨c₄, hFront, hBody⟩ := Cursor.reads_append_iff.mp hWhole
  obtain ⟨c₂, hHead, hBack⟩ := Cursor.reads_append_iff.mp hFront
  obtain ⟨c₁, hSigil, hReadName⟩ := Cursor.reads_cons_iff.mp hHead
  obtain ⟨c₃, hOpen, hClose⟩ := Cursor.reads_cons_iff.mp hBack
  have hNone : Gives (parameter nested) c₃ none c₃ :=
    gives_parameter_none_iff.mpr ⟨[], Cursor.Reads.refl c₃, blank_nil, hClose.peek_eq⟩
  have hParameters : Gives (parameters nested) c₂ [] c₄ := gives_parameters_iff.mpr
    ⟨c₃, c₃, hOpen, gives_parameterList_iff.mpr (Or.inl ⟨hNone, rfl⟩), hClose⟩
  cases hResult : (nested text).result with
  | error e =>
    have hCuts : Cuts options nested _ text _ :=
      .body hHead hName hParameters blank_nil hBody hEnclosed
    rw [elements_of_fails (fails_element_of_cuts hCuts hResult)]
    rfl
  | ok template =>
    have hSpace : c₄.peek ≠ some Byte.space := by
      rw [hBody.peek_eq]
      decide
    have hContent := gives_body?_iff.mpr (Or.inr ⟨template,
      gives_body_iff.mpr ⟨_, text, hEnclosed, hBody, hResult⟩, rfl⟩)
    refine elements_of_single (gives_element_some_iff.mpr (Or.inl (gives_tag_iff.mpr
      ⟨name, [], c₁, c₂, c₄, c₄, [], some template, hSigil, hReadName, hName, hParameters,
        Cursor.Reads.refl c₄, blank_nil, hSpace, hContent, ?_⟩)))
    rw [hReadName.position, hSigil.position]
    rfl

/-- Holds where the layers can be used under the options. -/
def Fits (options : Options) (layers : List Layer) : Prop :=
  ∀ layer ∈ layers, layer.enclosure = .body → options.balancedBodies = false

/-- The text inside all the layers, the first of which is the outermost. -/
def nest (sigil : Sigil) (layers : List Layer) (text : Bytes) : Bytes :=
  layers.foldr (Layer.write sigil) text

def nodes (sigil : Sigil) : List Layer → Bytes → List Node → List Node
  | [], _, template => template
  | layer :: layers, text, template =>
    [layer.node sigil (nest sigil layers text) (nodes sigil layers text template)]

theorem getLast?_write (sigil : Sigil) (layer : Layer) (text : Bytes) :
    (layer.write sigil text).getLast? ≠ some Byte.backslash := by
  obtain ⟨enclosure, name, hName⟩ := layer
  cases enclosure with
  | string =>
    rw [Layer.write, List.getLast?_concat]
    decide
  | body =>
    dsimp only [Layer.write]
    rw [← List.append_assoc, List.getLast?_concat]
    decide

theorem getLast?_nest (sigil : Sigil) (layers : List Layer)
    (hText : text.getLast? ≠ some Byte.backslash) :
    (nest sigil layers text).getLast? ≠ some Byte.backslash := by
  cases layers with
  | nil => exact hText
  | cons layer layers => exact getLast?_write sigil layer _

theorem read_write (layer : Layer)
    (hFits : layer.enclosure = .body → options.balancedBodies = false)
    (hText : text.getLast? ≠ some Byte.backslash) :
    (read options (layer.write options.sigil text)).result =
      (read options text).result.map fun ns => [layer.node options.sigil text ns] := by
  rw [read_result]
  obtain ⟨enclosure, name, hName⟩ := layer
  cases enclosure with
  | string => exact elements_string name hName hText
  | body => exact elements_body name hName (hFits rfl) hText

/-- Reading a text inside layers is reading the text. -/
theorem read_nest (layers : List Layer) (hFits : Fits options layers)
    (hText : text.getLast? ≠ some Byte.backslash) :
    (read options (nest options.sigil layers text)).result =
      (read options text).result.map (nodes options.sigil layers text) := by
  induction layers with
  | nil =>
    cases h : (read options text).result with
    | ok ns => exact h
    | error e => exact h
  | cons layer layers ih =>
    have hInner := ih fun layer' h => hFits layer' (List.mem_cons_of_mem layer h)
    have hOuter := read_write layer (hFits layer List.mem_cons_self)
      (getLast?_nest options.sigil layers hText)
    rw [hInner] at hOuter
    cases h : (read options text).result with
    | ok ns =>
      rw [h] at hOuter
      exact hOuter
    | error e =>
      rw [h] at hOuter
      exact hOuter

/-- A right brace and a quote, in a string in a body. -/
theorem read_nest_string_in_body :
    let layers : List Layer := [⟨.body, [0x61], by decide⟩, ⟨.string, [0x62], by decide⟩]
    (read Options.standard (nest Sigil.standard layers [0x7D, 0x22])).result =
      .ok (nodes Sigil.standard layers [0x7D, 0x22] [.raw [0x7D, 0x22] ⟨1, 1, 0, 2⟩]) := by
  intro layers
  have hFits : Fits Options.standard layers := fun _ _ _ => rfl
  have hLast : List.getLast? [0x7D, 0x22] ≠ some Byte.backslash := by decide
  have hRead : (read Options.standard [0x7D, 0x22]).result =
      .ok [.raw [0x7D, 0x22] ⟨1, 1, 0, 2⟩] := by
    with_unfolding_all rfl
  have hNest := read_nest layers hFits hLast
  rw [hRead] at hNest
  exact hNest

end

end Embedding

end TagTemplate
