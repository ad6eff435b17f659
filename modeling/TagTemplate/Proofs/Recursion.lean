import TagTemplate.Proofs.Progress

/-!
# The equations of the reader

The reader of one buffer asks for the templates in bodies and strings, all of them shorter than
what it still has in front of it by the delimiters around them at least. Hence reading does not
depend on how longer texts would be read, and `read`, `elements`, `parameter` and `moreParameters`
satisfy the equations that their guarded definitions stand for.
-/

namespace TagTemplate

namespace Template

open Scan

/-- Holds where two ways to read nested templates agree on all texts of less than `n` bytes. -/
def ReadAlike (n : Nat) (nested nested' : Bytes → Reading) : Prop :=
  ∀ text : Bytes, text.length < n → nested text = nested' text

theorem ReadAlike.refl (n : Nat) (nested : Bytes → Reading) : ReadAlike n nested nested :=
  fun _ _ => rfl

theorem ReadAlike.mono {m n : Nat} {nested nested' : Bytes → Reading}
    (h : ReadAlike n nested nested') (hLe : m ≤ n) : ReadAlike m nested nested' :=
  fun text hText => h text (Nat.lt_of_lt_of_le hText hLe)

theorem length_lt_of_expect {b : Byte} {u : Unit} {c c' : Cursor} (h : Gives (expect b) c u c') :
    c'.rest.length < c.rest.length := by
  rw [(gives_expect_iff.mp h).length_eq]
  simp

theorem length_lt_of_pop {u : PUnit} {c c' : Cursor} (h : Gives (discard pop) c u c') :
    c'.rest.length < c.rest.length := by
  obtain ⟨b, hb⟩ := gives_discard_iff.mp h
  rw [(gives_pop_iff.mp hb).length_eq]
  simp

theorem length_lt_of_identifier {left : Node} {c c' : Cursor} (h : Gives identifier c left c')
    (hEmpty : ¬left.source.isEmpty = true) : c'.rest.length < c.rest.length := by
  simp only [identifier, gives_bind_iff, gives_position_iff, gives_pure_iff] at h
  obtain ⟨_, _, ⟨rfl, rfl⟩, name, d, hRun, _, _, ⟨rfl, rfl⟩, rfl, rfl⟩ := h
  obtain ⟨hRead, -, -⟩ := gives_run_iff.mp hRun
  have hName : name ≠ [] := fun hNil => hEmpty (hRead.isEmpty_iff.mpr hNil)
  have hPositive := List.length_pos_iff.mpr hName
  rw [hRead.length_eq]
  omega

theorem length_le_of_upTo {delimiter : Byte} {opener : Option Byte} {text : Bytes}
    {c c' : Cursor} (h : Gives (upTo delimiter opener) c text c') :
    text.length + c'.rest.length ≤ c.rest.length := by
  obtain ⟨written, hRead, hPassage⟩ := gives_upTo_iff.mp h
  have hContent := length_content_delimited_le delimiter opener c.rest
  rw [hPassage] at hContent
  rw [hRead.length_eq]
  exact Nat.add_le_add_right hContent _

section

variable {options : Options} {nested nested' : Bytes → Reading} {c : Cursor}

theorem enclosed_congr (enclosure : Enclosure) {text : Bytes} (h : nested text = nested' text) :
    enclosed nested enclosure text = enclosed nested' enclosure text := by
  rw [enclosed, enclosed, h]

theorem stringParameter_congr (h : ReadAlike (c.rest.length - 1) nested nested')
    (start : Position) : stringParameter nested start c = stringParameter nested' start c := by
  refine bind_congr rfl fun _ c₁ h₁ => bind_congr rfl fun text c₂ h₂ =>
    bind_congr rfl fun _ c₃ h₃ => ?_
  have hText : text.length < c.rest.length - 1 := by
    have hLt₁ := length_lt_of_expect h₁
    have hLe₂ := length_le_of_upTo h₂
    have hLt₃ := length_lt_of_expect h₃
    omega
  rw [enclosed_congr .string (h text hText)]

theorem operand_congr {self self' : Scan (Option Node)}
    (h : AgreeBelow (c.rest.length + 1) self self') : operand self c = operand self' c := by
  refine bind_congr rfl fun _ c₁ h₁ => bind_congr rfl fun next c₂ h₂ => ?_
  have hLe₁ := advances_skipSpaces.length_le h₁
  have hLe₂ := advances_peek.length_le h₂
  split
  · rfl
  · exact bind_congr (h c₂ (by omega)) fun _ _ _ => rfl

/-- A right operand is read behind at least one byte of the left one and the operator. -/
theorem wordParameter_congr {self self' : Scan (Option Node)}
    (h : AgreeBelow (c.rest.length - 1) self self') (start : Position) (first : Byte) :
    wordParameter self start first c = wordParameter self' start first c := by
  refine bind_congr rfl fun left c₁ h₁ => ?_
  split
  · rfl
  · rename_i hEmpty
    have hLt₁ := length_lt_of_identifier h₁ hEmpty
    refine bind_congr rfl fun _ c₂ h₂ => bind_congr rfl fun next c₃ h₃ => ?_
    have hLe₂ := advances_skipSpaces.length_le h₂
    have hLe₃ := advances_peek.length_le h₃
    cases next.bind Operator.ofByte? with
    | none => rfl
    | some operator =>
      refine bind_congr rfl fun _ c₄ h₄ => ?_
      have hLt := length_lt_of_pop h₄
      exact bind_congr (operand_congr (h.mono (by omega))) fun _ _ _ => rfl

theorem parameterWith_congr {self self' : Scan (Option Node)}
    (h : ReadAlike (c.rest.length - 1) nested nested') (hSelf : AgreeBelow c.rest.length self self') :
    parameterWith nested self c = parameterWith nested' self' c := by
  refine bind_congr rfl fun _ c₁ h₁ => bind_congr rfl fun start c₂ h₂ =>
    bind_congr rfl fun next c₃ h₃ => ?_
  have hLe₁ := advances_skipSpaces.length_le h₁
  have hLe₂ := advances_position.length_le h₂
  have hLe₃ := advances_peek.length_le h₃
  split
  · rfl
  · split
    · rfl
    · split
      · exact map_congr (stringParameter_congr (h.mono (by omega)) start) some
      · split
        · rfl
        · exact map_congr (wordParameter_congr (hSelf.mono (by omega)) start _) some

theorem parameter_eq (nested : Bytes → Reading) :
    parameter nested = parameterWith nested (parameter nested) :=
  fix_eq fun _ _ _ hSelf => parameterWith_congr (ReadAlike.refl _ nested) hSelf

theorem parameter_congr (h : ReadAlike (c.rest.length - 1) nested nested') :
    parameter nested c = parameter nested' c := by
  induction hLength : c.rest.length using Nat.strongRecOn generalizing c with
  | ind n ih =>
    rw [parameter_eq nested, parameter_eq nested']
    apply parameterWith_congr h
    intro c' hLess
    exact ih c'.rest.length (hLength ▸ hLess) (h.mono (by omega)) rfl

theorem moreParametersWith_congr {self self' : Scan (List Node)}
    (h : ReadAlike (c.rest.length - 1) nested nested') (hSelf : AgreeBelow c.rest.length self self') :
    moreParametersWith nested self c = moreParametersWith nested' self' c := by
  refine bind_congr rfl fun next c₁ h₁ => ?_
  have hLe₁ := advances_peek.length_le h₁
  split
  · refine bind_congr rfl fun _ c₂ h₂ => ?_
    have hLt := length_lt_of_expect h₂
    refine bind_congr (parameter_congr (h.mono (by omega))) fun next c₃ h₃ => ?_
    have hLe := (advances_parameter nested').length_le h₃
    split
    · rfl
    · exact bind_congr (hSelf c₃ (by omega)) fun _ _ _ => rfl
  · rfl

theorem moreParameters_eq (nested : Bytes → Reading) :
    moreParameters nested = moreParametersWith nested (moreParameters nested) :=
  fix_eq fun _ _ _ hSelf => moreParametersWith_congr (ReadAlike.refl _ nested) hSelf

theorem moreParameters_congr (h : ReadAlike (c.rest.length - 1) nested nested') :
    moreParameters nested c = moreParameters nested' c := by
  induction hLength : c.rest.length using Nat.strongRecOn generalizing c with
  | ind n ih =>
    rw [moreParameters_eq nested, moreParameters_eq nested']
    apply moreParametersWith_congr h
    intro c' hLess
    exact ih c'.rest.length (hLength ▸ hLess) (h.mono (by omega)) rfl

theorem parameterList_congr (h : ReadAlike (c.rest.length - 1) nested nested') :
    parameterList nested c = parameterList nested' c := by
  refine bind_congr (parameter_congr h) fun first c₁ h₁ => ?_
  have hLe := (advances_parameter nested').length_le h₁
  split
  · rfl
  · exact bind_congr (moreParameters_congr (h.mono (by omega))) fun _ _ _ => rfl

theorem parameters_congr (h : ReadAlike (c.rest.length - 2) nested nested') :
    parameters nested c = parameters nested' c := by
  refine bind_congr rfl fun _ c₁ h₁ => ?_
  have hLt := length_lt_of_expect h₁
  exact bind_congr (parameterList_congr (h.mono (by omega))) fun _ _ _ => rfl

theorem body_congr (h : ReadAlike (c.rest.length - 1) nested nested') :
    body options nested c = body options nested' c := by
  refine bind_congr rfl fun _ c₁ h₁ => bind_congr rfl fun text c₂ h₂ =>
    bind_congr rfl fun _ c₃ h₃ => ?_
  have hText : text.length < c.rest.length - 1 := by
    have hLt₁ := length_lt_of_expect h₁
    have hLe₂ := length_le_of_upTo h₂
    have hLt₃ := length_lt_of_expect h₃
    omega
  rw [enclosed_congr .body (h text hText)]

theorem body?_congr (h : ReadAlike (c.rest.length - 1) nested nested') :
    body? options nested c = body? options nested' c := by
  refine bind_congr rfl fun next c₁ h₁ => ?_
  have hLe₁ := advances_peek.length_le h₁
  split
  · exact map_congr (body_congr (h.mono (by omega))) some
  · rfl

theorem length_lt_of_parameters {list : List Node} {c' : Cursor}
    (h : Gives (parameters nested) c list c') : c'.rest.length + 1 < c.rest.length := by
  simp only [parameters, gives_bind_iff, gives_pure_iff] at h
  obtain ⟨_, d, hOpen, _, d', hList, _, _, hClose, -, rfl⟩ := h
  have hLtOpen := length_lt_of_expect hOpen
  have hLe := (advances_parameterList nested).length_le hList
  have hLtClose := length_lt_of_expect hClose
  omega

/-- A tag takes its sigil, a parenthesis and a delimiter on each side of a text that it cuts out. -/
theorem tag_congr (h : ReadAlike (c.rest.length - 3) nested nested') :
    tag options nested c = tag options nested' c := by
  refine bind_congr rfl fun _ c₁ h₁ => bind_congr rfl fun _ c₂ h₂ =>
    bind_congr rfl fun _ c₃ h₃ => ?_
  have hLe₁ := advances_position.length_le h₁
  have hLt₂ := length_lt_of_expect h₂
  have hLe₃ := advances_identifier.length_le h₃
  refine bind_congr (parameters_congr (h.mono (by omega))) fun _ c₄ h₄ =>
    bind_congr rfl fun _ c₅ h₅ => ?_
  have hLt₄ := length_lt_of_parameters h₄
  have hLe₅ := advances_skipSpaces.length_le h₅
  exact bind_congr (body?_congr (h.mono (by omega))) fun _ _ _ => rfl

theorem element_congr (h : ReadAlike (c.rest.length - 3) nested nested') :
    element options nested c = element options nested' c := by
  refine bind_congr rfl fun next c₁ h₁ => ?_
  have hLe₁ := advances_peek.length_le h₁
  split
  · rfl
  · split
    · exact map_congr (tag_congr (h.mono (by omega))) some
    · rfl

theorem locatedElement_congr (h : ReadAlike (c.rest.length - 3) nested nested') :
    locatedElement options nested c = locatedElement options nested' c := by
  rw [locatedElement, locatedElement, element_congr h]

theorem elements_congr (h : ReadAlike (c.rest.length - 3) nested nested') :
    elements options nested c = elements options nested' c := by
  induction hLength : c.rest.length using Nat.strongRecOn generalizing c with
  | ind n ih =>
    rw [elements.eq_def options nested c, elements.eq_def options nested' c,
      locatedElement_congr h]
    generalize locatedElement options nested' c = s
    dsimp only
    split
    · rfl
    · rfl
    · split
      · rename_i hLess
        rw [ih s.cursor.rest.length (hLength ▸ hLess) (h.mono (by omega)) rfl]
      · rfl

end

/-- Reading a buffer is reading all of it from its start, and so are the templates that it
holds read. -/
theorem read_eq (options : Options) (buffer : Bytes) :
    read options buffer =
      ⟨(readFrom options (Cursor.start buffer)).outcome,
        (readFrom options (Cursor.start buffer)).trace⟩ := by
  rw [read, readFrom]
  have h : ReadAlike (Cursor.start buffer).rest.length
      (fun text => if text.length < buffer.length then read options text else ⟨.ok [], []⟩)
      (read options) :=
    fun text hText => if_pos hText
  rw [elements_congr (h.mono (Nat.sub_le _ 3))]

end Template

end TagTemplate
