import Mathlib.Algebra.Ring.Int.Defs
import TagTemplate.Node.Describe
import TagTemplate.Proofs.Shape
import TagTemplate.Proofs.ShortestText

/-!
# Unique reading of descriptions

The description of a tag is the same text as that of another one only if the two have the same
name, the same parameters and both or neither a body, as long as no string stands among the
parameters. A name ends at its backtick, an operator at a space and a number at a comma or at a
parenthesis, so each description is told from what follows it, and a list of them falls apart in
one way only.
-/

namespace TagTemplate

namespace Tree

/-- Holds of elements, of parameters and of the names of both. -/
def IsPart (t : Tree) : Prop :=
  IsElement t ∨ IsParameter t ∨ ∃ name, t = .identifier name

theorem IsPart.isElement_tag {name : Tree} {ps : List Tree} {body : Option (List Tree)}
    (h : IsPart (.tag name ps body)) : IsElement (.tag name ps body) := by
  rcases h with hElement | hParameter | ⟨_, hName⟩
  · exact hElement
  · cases hParameter
  · cases hName

theorem IsNested.isPart {ts : List Tree} (h : IsNested ts) : ∀ t ∈ ts, IsPart t :=
  fun t ht => Or.inl (h.isTemplate.isElement t ht)

theorem IsElement.name_and_parameters {name : Tree} {ps : List Tree} {body : Option (List Tree)}
    (h : IsElement (.tag name ps body)) :
    (∃ word, Template.Alphanumeric word ∧ name = .identifier word.ascii) ∧
      ∀ p ∈ ps, IsParameter p := by
  cases body with
  | none => exact isElement_tag_iff.mp h
  | some body =>
    obtain ⟨hName, hParameters, -⟩ := isElement_tagWithBody_iff.mp h
    exact ⟨hName, hParameters⟩

theorem IsPart.of_string {ts : List Tree} (h : IsPart (.string ts)) : ∀ t ∈ ts, IsPart t := by
  rcases h with hElement | hParameter | ⟨_, hName⟩
  · cases hElement
  · cases hParameter with
    | string hNested => exact hNested.isPart
  · cases hName

theorem IsPart.of_expression {operator : Operator} {left right : Tree}
    (h : IsPart (.expression operator left right)) : IsPart left ∧ IsPart right := by
  rcases h with hElement | hParameter | ⟨_, hName⟩
  · cases hElement
  · obtain ⟨⟨word, -, hLeft⟩, hRight⟩ := isParameter_expression_iff.mp hParameter
    exact ⟨Or.inr (Or.inr ⟨_, hLeft⟩), Or.inr (Or.inl hRight)⟩
  · cases hName

end Tree

namespace Node

open TagTemplate.Tree

mutual

/-- The node itself and all nodes in it, at any depth. -/
def parts : Node → List Node
  | node@(raw _ _) | node@(identifier _ _) | node@(int _ _) | node@(double _ _) => [node]
  | node@(tag name parameters body _) =>
    node :: (parts name ++ partsEach parameters ++ partsBody body)
  | node@(string template _) => node :: partsEach template
  | node@(expression _ left right _) => node :: (parts left ++ parts right)

def partsEach : List Node → List Node
  | [] => []
  | node :: nodes => parts node ++ partsEach nodes

def partsBody : Option (List Node) → List Node
  | none => []
  | some nodes => partsEach nodes

end

def isString : Node → Bool
  | string _ _ => true
  | _ => false

/-- Holds where there is no string in any of the nodes, at any depth. -/
def StringFree (nodes : List Node) : Prop :=
  ∀ part ∈ partsEach nodes, part.isString = false

instance (nodes : List Node) : Decidable (StringFree nodes) :=
  List.decidableBAll (fun part : Node => part.isString = false) (partsEach nodes)

mutual

theorem isPart_of_mem_parts : ∀ {node : Node}, IsPart node.tree → ∀ part ∈ parts node,
    IsPart part.tree
  | .raw _ _, h | .identifier _ _, h | .int _ _, h | .double _ _, h =>
    List.forall_mem_singleton.mpr h
  | .tag name ps body _, h => by
    obtain ⟨⟨word, -, hName⟩, hParameters⟩ := h.isElement_tag.name_and_parameters
    refine List.forall_mem_cons.mpr ⟨h, List.forall_mem_append.mpr
      ⟨List.forall_mem_append.mpr ⟨isPart_of_mem_parts (Or.inr (Or.inr ⟨_, hName⟩)), ?_⟩, ?_⟩⟩
    · exact isPart_of_mem_partsEach fun t ht => Or.inr (Or.inl (hParameters t ht))
    · exact isPart_of_mem_partsBody h.isElement_tag
  | .string _ _, h => List.forall_mem_cons.mpr ⟨h, isPart_of_mem_partsEach h.of_string⟩
  | .expression _ _ _ _, h => List.forall_mem_cons.mpr ⟨h, List.forall_mem_append.mpr
      ⟨isPart_of_mem_parts h.of_expression.1, isPart_of_mem_parts h.of_expression.2⟩⟩

theorem isPart_of_mem_partsEach : ∀ {nodes : List Node}, (∀ t ∈ trees nodes, IsPart t) →
    ∀ part ∈ partsEach nodes, IsPart part.tree
  | [], _ => List.forall_mem_nil _
  | _ :: _, h => List.forall_mem_append.mpr
      ⟨isPart_of_mem_parts (List.forall_mem_cons.mp h).1,
        isPart_of_mem_partsEach (List.forall_mem_cons.mp h).2⟩

theorem isPart_of_mem_partsBody : ∀ {body : Option (List Node)} {name : Tree} {ps : List Tree},
    IsElement (.tag name ps (bodyTrees body)) → ∀ part ∈ partsBody body, IsPart part.tree
  | none, _, _, _ => List.forall_mem_nil _
  | some _, _, _, h => isPart_of_mem_partsEach (isElement_tagWithBody_iff.mp h).2.2.isPart

end

/-- Holds of the names that the backtick behind them ends. -/
def Unticked (name : String) : Prop :=
  ∀ c ∈ name.toList, (c != '`') = true

theorem unticked_ascii {word : Bytes} (h : Template.Alphanumeric word) : Unticked word.ascii := by
  intro c hc
  rw [Bytes.ascii, String.toList_ofList] at hc
  obtain ⟨b, hb, rfl⟩ := List.mem_map.mp hc
  refine bne_iff_ne.mpr fun hBacktick => ?_
  have hByte : b = 0x60 := by
    rw [← UInt8.toNat_inj, ← Byte.toNat_toChar, hBacktick]
    rfl
  have hAlphanumeric := h b hb
  rw [hByte] at hAlphanumeric
  cases hAlphanumeric

/-- Holds of identifiers, of numbers and of the expressions that are made of them. -/
inductive IsTerm : Node → Prop
  | identifier {name : String} {s : Source} : Unticked name → IsTerm (.identifier name s)
  | int {n : Nat} {s : Source} : IsTerm (.int n s)
  | double {x : Binary64} {s : Source} : IsTerm (.double x s)
  | expression {operator : Operator} {name : String} {right : Node} {s s' : Source} :
      Unticked name → IsTerm right → IsTerm (.expression operator (.identifier name s) right s')

theorem eq_identifier_of_tree {node : Node} {name : String} (h : node.tree = .identifier name) :
    ∃ s, node = .identifier name s := by
  cases node with
  | identifier name' s =>
    obtain rfl := Tree.identifier.inj h
    exact ⟨s, rfl⟩
  | _ => cases h

theorem isTerm_of_isParameter : ∀ {p : Node}, IsParameter p.tree →
    (∀ part ∈ parts p, part.isString = false) → IsTerm p
  | .raw _ _, h, _ => nomatch h
  | .tag _ _ _ _, h, _ => nomatch h
  | .identifier _ _, h, _ => by
    obtain ⟨word, hWord, rfl⟩ := isParameter_identifier_iff.mp h
    exact .identifier (unticked_ascii hWord.alphanumeric)
  | .int _ _, h, _ => by
    obtain ⟨n, -, rfl⟩ := isParameter_int_iff.mp h
    exact .int
  | .double _ _, _, _ => .double
  | .string _ _, _, hFree => nomatch hFree _ List.mem_cons_self
  | .expression _ left right _, h, hFree => by
    obtain ⟨⟨word, hWord, hLeft⟩, hRight⟩ := isParameter_expression_iff.mp h
    obtain ⟨s, rfl⟩ := eq_identifier_of_tree hLeft
    refine .expression (unticked_ascii hWord.alphanumeric) (isTerm_of_isParameter hRight ?_)
    exact fun part hPart => hFree part (List.mem_cons_of_mem _ (List.mem_append_right _ hPart))

section

variable {front front' rest rest' : List Char}

/-- A text falls apart in one way only at its first character that is not of a kind. -/
theorem append_eq_append_iff_of_span {p : Char → Bool} (hFront : ∀ c ∈ front, p c = true)
    (hFront' : ∀ c ∈ front', p c = true) (hRest : ∀ c ∈ rest.head?, p c = false)
    (hRest' : ∀ c ∈ rest'.head?, p c = false) :
    front ++ rest = front' ++ rest' ↔ front = front' ∧ rest = rest' := by
  constructor
  · intro hText
    have hSpan := Decimal.span_append hFront hRest
    rw [hText, Decimal.span_append hFront' hRest'] at hSpan
    exact (Prod.mk.inj hSpan).imp Eq.symm Eq.symm
  · rintro ⟨rfl, rfl⟩
    rfl

theorem unticked_append_iff {name name' : String} (h : Unticked name) (h' : Unticked name') :
    name.toList ++ '`' :: rest = name'.toList ++ '`' :: rest' ↔ name = name' ∧ rest = rest' := by
  rw [append_eq_append_iff_of_span h h' (by simp) (by simp), String.toList_inj, List.cons_inj_right]

theorem operator_append_iff {operator operator' : Operator} :
    operator.name.toList ++ ' ' :: rest = operator'.name.toList ++ ' ' :: rest' ↔
      operator = operator' ∧ rest = rest' := by
  have hName : ∀ operator : Operator, ∀ c ∈ operator.name.toList, (c != ' ') = true := by
    intro operator
    cases operator <;> simp [Operator.name]
  rw [append_eq_append_iff_of_span (hName operator) (hName operator') (by simp) (by simp),
    List.cons_inj_right, String.toList_inj]
  refine and_congr_left fun _ => ⟨?_, congrArg Operator.name⟩
  cases operator <;> cases operator' <;> decide

/-- Holds of what can stand behind a parameter. -/
def Delimits (rest : List Char) : Prop :=
  ∀ c ∈ rest.head?, c = ',' ∨ c = ')'

theorem delimits_parenthesis (rest : List Char) : Delimits (')' :: rest) := by
  rintro c ⟨⟩
  exact Or.inr rfl

/-- Holds of the characters that numbers are written with, among others. -/
def inNumber (c : Char) : Bool :=
  c != ',' && c != ')'

theorem number_append_iff (h : ∀ c ∈ front, inNumber c = true)
    (h' : ∀ c ∈ front', inNumber c = true) (hRest : Delimits rest) (hRest' : Delimits rest') :
    front ++ rest = front' ++ rest' ↔ front = front' ∧ rest = rest' := by
  have hEnd : ∀ {rest : List Char}, Delimits rest → ∀ c ∈ rest.head?, inNumber c = false := by
    intro rest hRest c hc
    rcases hRest c hc with rfl | rfl <;> rfl
  exact append_eq_append_iff_of_span h h' (hEnd hRest) (hEnd hRest')

theorem inNumber_of_isDigit {c : Char} (h : c.isDigit = true) : inNumber c = true := by
  refine Bool.and_eq_true_iff.mpr ⟨bne_iff_ne.mpr ?_, bne_iff_ne.mpr ?_⟩ <;>
  · rintro rfl
    cases h

theorem inNumber_of_mem_digitsOf {n : Nat} : ∀ c ∈ Decimal.digitsOf n, inNumber c = true :=
  fun c hc => inNumber_of_isDigit (Decimal.areDigits_digitsOf n c hc)

theorem inNumber_of_mem_chars {x : Binary64} : ∀ c ∈ x.chars, inNumber c = true := by
  have hMarks : ∀ c ∈ ['.', 'e', '+', '-', 'i', 'n', 'f', 'a'], inNumber c = true := by
    simp [inNumber]
  exact fun c hc => (x.mem_chars c hc).elim inNumber_of_isDigit (hMarks c)

theorem digitsOf_ne_chars (n : Nat) (x : Binary64) : Decimal.digitsOf n ≠ x.chars := by
  intro hText
  obtain ⟨c, hc, hMark⟩ := x.exists_mem_chars
  have hDigit := Decimal.areDigits_digitsOf n c (hText ▸ hc)
  rw [hMark] at hDigit
  cases hDigit

theorem digitsOf_inj {n n' : Nat} : Decimal.digitsOf n = Decimal.digitsOf n' ↔ n = n' := by
  refine ⟨fun hText => ?_, congrArg Decimal.digitsOf⟩
  have hValue := congrArg (fun text => Nat.ofDigitChars 10 text 0) hText
  simpa [Decimal.digitsOf, Nat.ofDigitChars_toDigits] using hValue

theorem identifier_text (name : String) (s : Source) :
    (identifier name s).describe.toList ++ rest = '`' :: (name.toList ++ '`' :: rest) := by
  simp [describe]

theorem int_text (n : Nat) (s : Source) :
    (int n s).describe.toList ++ rest = 'c' :: ':' :: (Decimal.digitsOf n ++ rest) := by
  simp [describe, Decimal.digitsOf, Int.repr]

theorem double_text (x : Binary64) (s : Source) :
    (double x s).describe.toList ++ rest = 'c' :: ':' :: (x.chars ++ rest) := by
  simp [describe, Binary64.text]

theorem expression_text (operator : Operator) (left right : Node) (s : Source) :
    (expression operator left right s).describe.toList ++ rest =
      'E' :: ("xpr: (".toList ++ (left.describe.toList ++ ' ' :: (operator.name.toList ++ ' ' ::
        (right.describe.toList ++ ')' :: rest)))) := by
  simp [describe]

/-- The description of a parameter without strings is told from the delimiter behind it. -/
theorem describe_append_iff {p q : Node} (hp : IsTerm p) (hq : IsTerm q) (hRest : Delimits rest)
    (hRest' : Delimits rest') :
    p.describe.toList ++ rest = q.describe.toList ++ rest' ↔ p.tree = q.tree ∧ rest = rest' := by
  -- What follows is arbitrary, since a right operand stands before the end of its expression.
  induction hp generalizing q rest rest' with
  | identifier hName =>
    cases hq with
    | identifier hName' =>
      simp [identifier_text, unticked_append_iff hName hName', tree]
    | int => simp [identifier_text, int_text, tree]
    | double => simp [identifier_text, double_text, tree]
    | expression => simp [identifier_text, expression_text, tree]
  | int =>
    cases hq with
    | int =>
      simp [int_text, tree, digitsOf_inj,
        number_append_iff inNumber_of_mem_digitsOf inNumber_of_mem_digitsOf hRest hRest']
    | double =>
      simp [int_text, double_text, tree, digitsOf_ne_chars,
        number_append_iff inNumber_of_mem_digitsOf inNumber_of_mem_chars hRest hRest']
    | identifier => simp [int_text, identifier_text, tree]
    | expression => simp [int_text, expression_text, tree]
  | double =>
    cases hq with
    | int =>
      simp [int_text, double_text, tree, (digitsOf_ne_chars _ _).symm,
        number_append_iff inNumber_of_mem_chars inNumber_of_mem_digitsOf hRest hRest']
    | double =>
      simp [double_text, tree, Binary64.chars_injective.eq_iff,
        number_append_iff inNumber_of_mem_chars inNumber_of_mem_chars hRest hRest']
    | identifier => simp [double_text, identifier_text, tree]
    | expression => simp [double_text, expression_text, tree]
  | expression hName hRight ih =>
    cases hq with
    | expression hName' hRight' =>
      have hRightText := ih hRight' (delimits_parenthesis rest) (delimits_parenthesis rest')
      simp [expression_text, identifier_text, tree, unticked_append_iff hName hName',
        operator_append_iff, hRightText, and_assoc, and_left_comm]
    | identifier => simp [expression_text, identifier_text, tree]
    | int => simp [expression_text, int_text, tree]
    | double => simp [expression_text, double_text, tree]

theorem describe_append_ne {p : Node} (hp : IsTerm p) (rest rest' : List Char) :
    p.describe.toList ++ rest ≠ ')' :: rest' := by
  cases hp with
  | identifier => simp [identifier_text]
  | int => simp [int_text]
  | double => simp [double_text]
  | expression => simp [expression_text]

/-- The descriptions of parameters that stand behind another one. -/
def others (ps : List Node) : List Char :=
  ps.flatMap fun p => ',' :: ' ' :: p.describe.toList

theorem others_cons (p : Node) (ps : List Node) :
    others (p :: ps) = ',' :: ' ' :: (p.describe.toList ++ others ps) := by
  simp [others]

theorem delimits_others (ps : List Node) : Delimits (others ps ++ ')' :: rest) := by
  cases ps with
  | nil => exact delimits_parenthesis rest
  | cons p ps =>
    rw [others_cons]
    rintro c ⟨⟩
    exact Or.inl rfl

theorem others_append_iff {ps qs : List Node} (hps : ∀ p ∈ ps, IsTerm p)
    (hqs : ∀ q ∈ qs, IsTerm q) :
    others ps ++ ')' :: rest = others qs ++ ')' :: rest' ↔ trees ps = trees qs ∧ rest = rest' := by
  induction ps generalizing qs with
  | nil =>
    cases qs with
    | nil => simp [others, trees]
    | cons q qs => simp [others, trees]
  | cons p ps ih =>
    cases qs with
    | nil => simp [others, trees]
    | cons q qs =>
      obtain ⟨hp, hps⟩ := List.forall_mem_cons.mp hps
      obtain ⟨hq, hqs⟩ := List.forall_mem_cons.mp hqs
      simp [others_cons, trees, ih hps hqs, and_assoc,
        describe_append_iff hp hq (delimits_others ps) (delimits_others qs)]

theorem toList_intercalate_cons (p : Node) (ps : List Node) :
    (", ".intercalate (describeEach (p :: ps))).toList = p.describe.toList ++ others ps := by
  induction ps generalizing p with
  | nil => simp [describeEach, others]
  | cons q qs ih =>
    rw [describeEach, describeEach, String.intercalate_cons_cons, ← describeEach,
      String.toList_append, ih, others_cons]
    simp

/-- A list of parameters without strings is told from what stands behind its parenthesis. -/
theorem describeEach_append_iff {ps qs : List Node} (hps : ∀ p ∈ ps, IsTerm p)
    (hqs : ∀ q ∈ qs, IsTerm q) :
    (", ".intercalate (describeEach ps)).toList ++ ')' :: rest =
        (", ".intercalate (describeEach qs)).toList ++ ')' :: rest' ↔
      trees ps = trees qs ∧ rest = rest' := by
  cases ps with
  | nil =>
    cases qs with
    | nil => simp [describeEach, trees]
    | cons q qs =>
      have hText := describe_append_ne (hqs q List.mem_cons_self) (others qs ++ ')' :: rest') rest
      rw [toList_intercalate_cons, List.append_assoc]
      simpa [describeEach, trees] using hText.symm
  | cons p ps =>
    cases qs with
    | nil =>
      have hText := describe_append_ne (hps p List.mem_cons_self) (others ps ++ ')' :: rest) rest'
      rw [toList_intercalate_cons, List.append_assoc]
      simpa [describeEach, trees] using hText
    | cons q qs =>
      obtain ⟨hp, hps⟩ := List.forall_mem_cons.mp hps
      obtain ⟨hq, hqs⟩ := List.forall_mem_cons.mp hqs
      rw [toList_intercalate_cons, toList_intercalate_cons, List.append_assoc, List.append_assoc,
        describe_append_iff hp hq (delimits_others ps) (delimits_others qs),
        others_append_iff hps hqs, ← and_assoc]
      simp [trees]

theorem tag_text (name : Node) (ps : List Node) (body : Option (List Node)) (s : Source) :
    (tag name ps body s).describe.toList =
      "Tag: ".toList ++ (name.describe.toList ++ '(' ::
        ((", ".intercalate (describeEach ps)).toList ++ ')' ::
          (" Body: ".toList ++ (if body.isSome then "True" else "False").toList))) := by
  simp [describe]

end

theorem isTerm_of_stringFree {ps : List Node} (h : ∀ t ∈ trees ps, IsParameter t)
    (hFree : StringFree ps) : ∀ p ∈ ps, IsTerm p := by
  induction ps with
  | nil => exact List.forall_mem_nil _
  | cons p ps ih =>
    obtain ⟨hFirst, hOthers⟩ := List.forall_mem_cons.mp h
    obtain ⟨hFreeFirst, hFreeOthers⟩ := List.forall_mem_append.mp hFree
    exact List.forall_mem_cons.mpr
      ⟨isTerm_of_isParameter hFirst hFreeFirst, ih hOthers hFreeOthers⟩

section

variable {name name' : Node} {ps ps' : List Node} {body body' : Option (List Node)}
  {s s' : Source}

theorem describe_eq_iff_of_isElement (hTag : IsElement (tag name ps body s).tree)
    (hTag' : IsElement (tag name' ps' body' s').tree) (hFree : StringFree ps)
    (hFree' : StringFree ps') :
    (tag name ps body s).describe = (tag name' ps' body' s').describe ↔
      name.tree = name'.tree ∧ trees ps = trees ps' ∧ body.isSome = body'.isSome := by
  obtain ⟨⟨word, hWord, hName⟩, hParameters⟩ := IsElement.name_and_parameters hTag
  obtain ⟨⟨word', hWord', hName'⟩, hParameters'⟩ := IsElement.name_and_parameters hTag'
  obtain ⟨_, rfl⟩ := eq_identifier_of_tree hName
  obtain ⟨_, rfl⟩ := eq_identifier_of_tree hName'
  have hBody : (" Body: ".toList ++ (if body.isSome then "True" else "False").toList =
      " Body: ".toList ++ (if body'.isSome then "True" else "False").toList) ↔
      body.isSome = body'.isSome := by
    cases body.isSome <;> cases body'.isSome <;> decide
  rw [← String.toList_inj, tag_text, tag_text, List.append_right_inj, identifier_text,
    identifier_text, List.cons_inj_right,
    unticked_append_iff (unticked_ascii hWord) (unticked_ascii hWord'), List.cons_inj_right,
    describeEach_append_iff (isTerm_of_stringFree hParameters hFree)
      (isTerm_of_stringFree hParameters' hFree'), hBody, tree, tree, Tree.identifier.injEq]

theorem isElement_of_readFrom {options : Options} {c : Cursor} {nodes : List Node}
    (h : (Template.readFrom options c).outcome = .ok nodes)
    (hTag : tag name ps body s ∈ partsEach nodes) : IsElement (tag name ps body s).tree := by
  have hElements : Grammar.Elements options.sigil.byte options.BodyText c.rest (trees nodes) :=
    Grammar.elements_sound (fun _ _ _ hText => Grammar.read_sound hText) h
  have hTemplate := Grammar.isTemplate_of_elements hElements
  have hPart := isPart_of_mem_partsEach (fun t ht => Or.inl (hTemplate.isElement t ht)) _ hTag
  exact hPart.isElement_tag

/-- Two tags that readings give at any depth, with no string among their parameters, have the same
description exactly if they have the same name and the same parameters, wherever these stand, and
both or neither a body. -/
theorem describe_tag_eq_iff {options options' : Options} {c c' : Cursor} {nodes nodes' : List Node}
    (h : (Template.readFrom options c).outcome = .ok nodes)
    (h' : (Template.readFrom options' c').outcome = .ok nodes')
    (hTag : tag name ps body s ∈ partsEach nodes)
    (hTag' : tag name' ps' body' s' ∈ partsEach nodes')
    (hFree : StringFree ps) (hFree' : StringFree ps') :
    (tag name ps body s).describe = (tag name' ps' body' s').describe ↔
      name.tree = name'.tree ∧ trees ps = trees ps' ∧ body.isSome = body'.isSome :=
  describe_eq_iff_of_isElement (isElement_of_readFrom h hTag) (isElement_of_readFrom h' hTag')
    hFree hFree'

/-- A tag with a body, and one in a string of another tag that is written with more spaces. -/
theorem describe_tag_eq_iff_in_string :
    let value := Binary64.signed false (Magnitude.ofDecimal ⟨25, -1⟩)
    let outer := tag (.identifier "a" ⟨1, 2, 1, 2⟩)
      [.expression .add (.identifier "b" ⟨1, 4, 3, 4⟩) (.double value ⟨1, 6, 5, 8⟩) ⟨1, 4, 3, 8⟩]
      (some [.raw [0x78] ⟨1, 1, 0, 1⟩]) ⟨1, 1, 0, 12⟩
    let inner := tag (.identifier "a" ⟨1, 2, 1, 2⟩)
      [.expression .add (.identifier "b" ⟨1, 5, 4, 5⟩) (.double value ⟨1, 9, 8, 11⟩) ⟨1, 5, 4, 11⟩]
      (some []) ⟨1, 1, 0, 14⟩
    let around := tag (.identifier "z" ⟨1, 2, 1, 2⟩) [.string [inner] ⟨1, 4, 3, 19⟩] none
      ⟨1, 1, 0, 20⟩
    (Template.readFrom Options.standard (Cursor.start [0x23, 0x61, 0x28, 0x62, 0x2B, 0x32, 0x2E,
        0x35, 0x29, 0x7B, 0x78, 0x7D])).outcome = .ok [outer] ∧
      (Template.readFrom Options.standard (Cursor.start [0x23, 0x7A, 0x28, 0x22, 0x23, 0x61, 0x28,
        0x20, 0x62, 0x20, 0x2B, 0x20, 0x32, 0x2E, 0x35, 0x29, 0x7B, 0x7D, 0x22,
        0x29])).outcome = .ok [around] ∧
      outer.describe = inner.describe := by
  intro value outer inner around
  have h : (Template.readFrom Options.standard (Cursor.start [0x23, 0x61, 0x28, 0x62, 0x2B, 0x32,
      0x2E, 0x35, 0x29, 0x7B, 0x78, 0x7D])).outcome = .ok [outer] := by
    with_unfolding_all rfl
  have h' : (Template.readFrom Options.standard (Cursor.start [0x23, 0x7A, 0x28, 0x22, 0x23, 0x61,
      0x28, 0x20, 0x62, 0x20, 0x2B, 0x20, 0x32, 0x2E, 0x35, 0x29, 0x7B, 0x7D, 0x22,
      0x29])).outcome = .ok [around] := by
    with_unfolding_all rfl
  have hOuter : outer ∈ partsEach [outer] := List.mem_append_left _ List.mem_cons_self
  have hInner : inner ∈ partsEach [around] := by
    simp [around, partsEach, parts, inner]
  exact ⟨h, h', (describe_tag_eq_iff h h' hOuter hInner (by decide) (by decide)).mpr
    ⟨rfl, rfl, rfl⟩⟩

end

end Node

end TagTemplate
