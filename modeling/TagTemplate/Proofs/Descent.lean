import TagTemplate.Proofs.Errors
import TagTemplate.Proofs.Soundness

/-!
# How far reading goes down

A text that is cut out of a buffer leaves a sigil, a parenthesis and two delimiters behind at least,
and a right operand leaves its operator and a byte of the left one. So reading goes down to smaller
readings only: its equations have one solution, and what is read has no more nodes than the buffer
has bytes, nor more levels than a fifth of them.
-/

namespace TagTemplate

namespace Tree

mutual

/-- The number of nodes. -/
def size : Tree → Nat
  | raw _ | identifier _ | int _ | double _ => 1
  | tag name parameters body => 1 + name.size + sizeEach parameters + sizeBody body
  | string template => 1 + sizeEach template
  | expression _ left right => 1 + left.size + right.size

def sizeEach : List Tree → Nat
  | [] => 0
  | t :: ts => t.size + sizeEach ts

def sizeBody : Option (List Tree) → Nat
  | none => 0
  | some ts => sizeEach ts

end

mutual

/-- The number of bodies and strings that lie one in the other. -/
def depth : Tree → Nat
  | raw _ | identifier _ | int _ | double _ => 0
  | tag name parameters body => max name.depth (max (depthEach parameters) (depthBody body))
  | string template => depthEach template + 1
  | expression _ left right => max left.depth right.depth

def depthEach : List Tree → Nat
  | [] => 0
  | t :: ts => max t.depth (depthEach ts)

def depthBody : Option (List Tree) → Nat
  | none => 0
  | some ts => depthEach ts + 1

end

@[simp] theorem size_numeral (numeral : Numeral) : numeral.tree.size = 1 := by
  cases numeral <;> rfl

@[simp] theorem depth_numeral (numeral : Numeral) : numeral.tree.depth = 0 := by
  cases numeral <;> rfl

end Tree

namespace Grammar

open TagTemplate.Tree

section

variable {options : Options}

theorem length_le_of_quoted {run text : Bytes} (h : Quoted Byte.quote run text) :
    text.length ≤ run.length := by
  have hEnclosed : Enclosed Byte.quote none run text := by
    rwa [enclosed_none (by decide)]
  exact hEnclosed.length_le

mutual

theorem elements_bounded : ∀ {buffer : Bytes} {ts : List Tree},
    Elements options.sigil.byte options.BodyText buffer ts →
    sizeEach ts ≤ buffer.length ∧ 5 * depthEach ts ≤ buffer.length
  | _, _, .nil => ⟨Nat.le_refl 0, Nat.le_refl 0⟩
  | _, _, .raw hRun _ _ _ hElements => by
    obtain ⟨hSize, hDepth⟩ := elements_bounded hElements
    have hLength := List.length_pos_iff.mpr hRun
    simp only [sizeEach, size, depthEach, depth, List.length_append]
    omega
  | _, _, .tag _ hParameters _ _ _ hElements => by
    obtain ⟨hSize, hDepth⟩ := elements_bounded hElements
    obtain ⟨hSizes, hDepths⟩ := parameters_bounded hParameters
    simp only [sizeEach, size, sizeBody, depthEach, depth, depthBody, List.length_append,
      List.length_cons]
    omega
  | _, _, .tagWithBody _ hParameters _ hBody hText hElements => by
    obtain ⟨hSize, hDepth⟩ := elements_bounded hElements
    obtain ⟨hSizes, hDepths⟩ := parameters_bounded hParameters
    obtain ⟨hSizeText, hDepthText⟩ := elements_bounded hText
    have hLength := Enclosed.length_le hBody
    simp only [sizeEach, size, sizeBody, depthEach, depth, depthBody, List.length_append,
      List.length_cons]
    omega
termination_by structural _ _ h => h

theorem parameters_bounded : ∀ {list : Bytes} {ps : List Tree},
    Parameters options.sigil.byte options.BodyText list ps →
    sizeEach ps ≤ list.length ∧ 5 * depthEach ps ≤ list.length + 3
  | _, _, .none _ => ⟨Nat.zero_le _, Nat.zero_le _⟩
  | _, _, .some hList => parameterList_bounded hList
termination_by structural _ _ h => h

theorem parameterList_bounded : ∀ {list : Bytes} {ps : List Tree},
    ParameterList options.sigil.byte options.BodyText list ps →
    sizeEach ps ≤ list.length ∧ 5 * depthEach ps ≤ list.length + 3
  | _, _, .last hParameter => by
    obtain ⟨hSize, hDepth⟩ := parameter_bounded hParameter
    simp only [sizeEach, depthEach]
    omega
  | _, _, .more hParameter hList => by
    obtain ⟨hSize, hDepth⟩ := parameter_bounded hParameter
    obtain ⟨hSizes, hDepths⟩ := parameterList_bounded hList
    simp only [sizeEach, depthEach, List.length_append, List.length_cons]
    omega
termination_by structural _ _ h => h

/-- A parameter stands between two bytes of its tag, behind the sigil. -/
theorem parameter_bounded : ∀ {run : Bytes} {p : Tree},
    Parameter options.sigil.byte options.BodyText run p →
    p.size ≤ run.length ∧ 5 * p.depth ≤ run.length + 3
  | _, _, .string _ hText hElements => by
    obtain ⟨hSize, hDepth⟩ := elements_bounded hElements
    have hLength := length_le_of_quoted hText
    simp only [size, depth, List.length_append, List.length_cons, List.length_nil]
    omega
  | _, _, .number _ hLiteral => by
    obtain ⟨b, digits, rfl, -⟩ := hLiteral.head
    simp only [size_numeral, depth_numeral, List.length_append, List.length_cons]
    omega
  | _, _, .identifier _ hWord _ => by
    have hLength := List.length_pos_iff.mpr hWord.ne_nil
    simp only [size, depth, List.length_append]
    omega
  | _, _, .expression _ hWord _ hRight => by
    obtain ⟨hSize, hDepth⟩ := parameter_bounded hRight
    have hLength := List.length_pos_iff.mpr hWord.ne_nil
    simp only [size, depth, List.length_append, List.length_cons]
    omega
termination_by structural _ _ h => h

end

end

end Grammar

namespace Template

open Scan

section

variable {options : Options} {nested : Bytes → Reading} {c e : Cursor} {text : Bytes}

/-- What the tag takes up to the end of a text that is cut out of it. -/
theorem Cuts.length_lt (h : Cuts options nested c text e) :
    text.length + 3 + e.rest.length < c.rest.length := by
  cases h with
  | string hCalls _ hRead hText =>
    obtain ⟨front, b, hFront, -⟩ := hCalls.reads
    have hTextLength := hText.length_le
    have hLength := (hFront.trans hRead).length_eq
    simp only [List.length_append, List.length_cons, List.length_nil] at hLength
    omega
  | body hRead _ hList _ hRead' hText =>
    have hListLength := length_lt_of_parameters hList
    have hTextLength := hText.length_le
    have hLength := hRead.length_eq
    have hLength' := hRead'.length_eq
    simp only [List.length_append, List.length_cons, List.length_nil] at hLength hLength'
    omega

theorem CutOut.length_lt {buffer : Bytes} {stop : Nat} (h : CutOut options buffer text stop) :
    text.length + 3 < buffer.length := by
  obtain ⟨nodes, c, d, hPasses, hCuts, -⟩ := h
  obtain ⟨front, hFront⟩ := hPasses.reads
  have hLength : buffer.length = front.length + c.rest.length := hFront.length_eq
  have hLess := hCuts.length_lt
  omega

/-- Every element takes a byte, also one that fails. -/
theorem length_lt_of_element_ne_none (h : (element options nested c).outcome ≠ .ok none) :
    (element options nested c).cursor.rest.length < c.rest.length := by
  rcases gives_or_fails (element options nested) c with ⟨node?, hElement⟩ | ⟨failure, hFails⟩
  · cases node? with
    | none => exact absurd hElement.1 h
    | some node => exact length_lt_of_element hElement
  · obtain ⟨hSigil, hTag⟩ := fails_element_iff.mp hFails
    obtain ⟨taken, hTaken⟩ := (breaksOff_of_tag hSigil hTag).reads
    rw [hTaken.length_eq, List.length_cons]
    omega

end

/-- There is one reader of parameters that calls itself for the right operands. -/
theorem parameter_unique {nested : Bytes → Reading} {self : Scan (Option Node)} :
    self = parameterWith nested self ↔ self = parameter nested := by
  constructor
  · intro hSelf
    funext c
    induction hLength : c.rest.length using Nat.strongRecOn generalizing c with
    | ind n ih =>
      rw [hSelf, parameter_eq]
      apply parameterWith_congr (ReadAlike.refl _ nested)
      intro d hLess
      exact ih d.rest.length (hLength ▸ hLess) d rfl
  · rintro rfl
    exact parameter_eq nested

/-- There is one reader of buffers that calls itself for the texts that are cut out of them. -/
theorem reader_unique {options : Options} {reader : Bytes → Reading} :
    (∀ buffer, reader buffer = ⟨(elements options reader (Cursor.start buffer)).outcome,
        (elements options reader (Cursor.start buffer)).trace⟩) ↔
      reader = read options := by
  constructor
  · intro hReader
    funext buffer
    induction hLength : buffer.length using Nat.strongRecOn generalizing buffer with
    | ind n ih =>
      have hAlike : ReadAlike ((Cursor.start buffer).rest.length - 3) reader (read options) := by
        intro text hText
        have hLess : text.length < buffer.length := Nat.lt_of_lt_of_le hText (Nat.sub_le _ 3)
        exact ih text.length (hLength ▸ hLess) text rfl
      rw [hReader, read_eq, readFrom, elements_congr hAlike]
  · rintro rfl
    exact read_eq options

/-- Holds where reading the buffer, whether it fails or not, goes down to smaller readings only. -/
structure Descends (options : Options) (buffer : Bytes) : Prop where
  /-- A text that is cut out has at least four bytes less. -/
  cut : ∀ text stop, CutOut options buffer text stop → text.length + 4 ≤ buffer.length
  /-- How texts with more bytes would be read makes no difference. -/
  alike : ∀ nested nested' : Bytes → Reading,
    (∀ text : Bytes, text.length + 4 ≤ buffer.length → nested text = nested' text) →
      elements options nested (Cursor.start buffer) = elements options nested' (Cursor.start buffer)
  element : ∀ (nested : Bytes → Reading) (c : Cursor), Cursor.Over buffer c →
    (Template.element options nested c).outcome ≠ .ok none →
      (Template.element options nested c).cursor.rest.length + 1 ≤ c.rest.length
  /-- How a parameter would be read less than two bytes behind the start of a left operand makes no
  difference. -/
  operand : ∀ (self self' : Scan (Option Node)) (start : Position) (first : Byte) (c : Cursor),
    Cursor.Over buffer c →
    (∀ d : Cursor, d.rest.length + 2 ≤ c.rest.length → self d = self' d) →
      wordParameter self start first c = wordParameter self' start first c

theorem descends (options : Options) (buffer : Bytes) : Descends options buffer where
  cut _ _ hCut := hCut.length_lt
  alike _ _ h := elements_congr fun text hText => h text (Nat.add_lt_of_lt_sub hText)
  element _ _ _ h := length_lt_of_element_ne_none h
  operand _ _ start first _ _ h :=
    wordParameter_congr (fun d hLess => h d (Nat.add_lt_of_lt_sub hLess)) start first

/-- What is read of a buffer is bounded by its length, in nodes and in levels, and so is what is
read on the way: the descent ends without any bound on its depth, at the only reader that satisfies
its equations. -/
theorem size_and_depth_bounded (options : Options) (buffer : Bytes) :
    (∀ nodes, (read options buffer).result = .ok nodes →
        Tree.sizeEach (Node.trees nodes) ≤ buffer.length ∧
          5 * Tree.depthEach (Node.trees nodes) ≤ buffer.length) ∧
      Descends options buffer ∧
      (∀ reader : Bytes → Reading,
        (∀ text, reader text = ⟨(elements options reader (Cursor.start text)).outcome,
            (elements options reader (Cursor.start text)).trace⟩) ↔ reader = read options) ∧
      ∀ (nested : Bytes → Reading) (self : Scan (Option Node)),
        self = parameterWith nested self ↔ self = parameter nested :=
  ⟨fun _ h => Grammar.elements_bounded (Grammar.read_sound h), descends options buffer,
    fun _ => reader_unique, fun _ _ => parameter_unique⟩

/-- Tags without names or parameters, each the body of the one around it, take five bytes a level. -/
theorem size_and_depth_bounded_empty_bodies :
    let buffer : Bytes := [0x23, 0x28, 0x29, 0x7B, 0x23, 0x28, 0x29, 0x7B, 0x7D, 0x7D]
    ∃ nodes, (read ⟨Sigil.standard, true⟩ buffer).result = .ok nodes ∧
      5 * Tree.depthEach (Node.trees nodes) = buffer.length ∧
      Tree.sizeEach (Node.trees nodes) ≤ buffer.length ∧
      5 * Tree.depthEach (Node.trees nodes) ≤ buffer.length := by
  have hRead : (read ⟨Sigil.standard, true⟩
      [0x23, 0x28, 0x29, 0x7B, 0x23, 0x28, 0x29, 0x7B, 0x7D, 0x7D]).result =
    .ok [.tag (.identifier "" ⟨1, 2, 1, 1⟩) []
      (some [.tag (.identifier "" ⟨1, 2, 1, 1⟩) [] (some []) ⟨1, 1, 0, 5⟩]) ⟨1, 1, 0, 10⟩] := by
    with_unfolding_all rfl
  exact ⟨_, hRead, rfl, (size_and_depth_bounded _ _).1 _ hRead⟩

end Template

end TagTemplate
