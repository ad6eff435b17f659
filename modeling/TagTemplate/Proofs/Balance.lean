import TagTemplate.Proofs.Grammar

/-!
# Balanced braces

In a balanced text each left brace has its right brace, in front of which no backslash stands. A
passage that counts left braces copies such a text as it is, at any depth and whatever follows. So a
balanced text that does not end in a backslash may stand between braces without any escapes.
-/

namespace TagTemplate

/-- Holds of the texts in which every left brace opens a group that a right brace closes. -/
inductive Balanced : Bytes → Prop
  | nil : Balanced []
  | byte {b : Byte} {rest : Bytes} :
      b ≠ Byte.leftBrace → b ≠ Byte.rightBrace → Balanced rest → Balanced (b :: rest)
  | group {inner rest : Bytes} :
      Balanced inner → inner.getLast? ≠ some Byte.backslash → Balanced rest →
      Balanced (Byte.leftBrace :: inner ++ Byte.rightBrace :: rest)

/-- Holds of the texts without braces. -/
def Braceless (text : Bytes) : Prop :=
  ∀ b ∈ text, b ≠ Byte.leftBrace ∧ b ≠ Byte.rightBrace

namespace Passage

/-- Tells whether a backslash stands right before what follows the text. -/
def escapedAfter (escaped : Bool) (text : Bytes) : Bool :=
  text.foldl (fun _ b => b = Byte.backslash) escaped

theorem escapedAfter_append (escaped : Bool) (front back : Bytes) :
    escapedAfter escaped (front ++ back) = escapedAfter (escapedAfter escaped front) back :=
  List.foldl_append

theorem escapedAfter_eq_false {text : Bytes} (h : text.getLast? ≠ some Byte.backslash) :
    escapedAfter false text = false := by
  induction text using List.reverseRecOn with
  | nil => rfl
  | append_singleton front b =>
    rw [escapedAfter_append]
    simpa [escapedAfter] using h

/-- Holds where a passage that counts braces takes what is written for the text and comes from one
depth to another. -/
def Says (escaped : Bool) (depth : Nat) (written text : Bytes) (depth' : Nat) : Prop :=
  ∃ content, content ++ pending (escapedAfter escaped written) = pending escaped ++ text ∧
    ∀ rest, scan Byte.rightBrace (some Byte.leftBrace) escaped depth (written ++ rest) =
      let tail :=
        scan Byte.rightBrace (some Byte.leftBrace) (escapedAfter escaped written) depth' rest
      ⟨written ++ tail.written, content ++ tail.content, tail.rest⟩

/-- Holds where a passage that counts braces takes the text as it is and comes from one depth to
another. -/
def Copies (escaped : Bool) (depth : Nat) (text : Bytes) (depth' : Nat) : Prop :=
  Says escaped depth text text depth'

variable {escaped : Bool} {depth depth' depth'' : Nat} {front back text : Bytes} {b : Byte}

theorem Says.append {said said' : Bytes} (hFront : Says escaped depth front said depth')
    (hBack : Says (escapedAfter escaped front) depth' back said' depth'') :
    Says escaped depth (front ++ back) (said ++ said') depth'' := by
  obtain ⟨content, hContent, hScan⟩ := hFront
  obtain ⟨content', hContent', hScan'⟩ := hBack
  refine ⟨content ++ content', ?_, ?_⟩
  · rw [escapedAfter_append, List.append_assoc, hContent', ← List.append_assoc, hContent,
      List.append_assoc]
  · intro rest
    rw [List.append_assoc, hScan, hScan', escapedAfter_append]
    simp only [List.append_assoc]

/-- What a passage without open braces takes for a text may stand between braces. -/
theorem Says.enclosed {said : Bytes} (h : Says false 0 text said 0)
    (hLast : text.getLast? ≠ some Byte.backslash) :
    Enclosed Byte.rightBrace (some Byte.leftBrace) text said := by
  obtain ⟨content, hContent, hScan⟩ := h
  rw [escapedAfter_eq_false hLast] at hContent hScan
  obtain rfl : content = said := by simpa [pending] using hContent
  rw [Enclosed, delimited, hScan]
  simp [scan]

theorem copies_nil (escaped : Bool) (depth : Nat) : Copies escaped depth [] depth :=
  ⟨[], (List.append_nil (pending escaped)).symm, fun _ => rfl⟩

theorem Copies.append (hFront : Copies escaped depth front depth')
    (hBack : Copies (escapedAfter escaped front) depth' back depth'') :
    Copies escaped depth (front ++ back) depth'' :=
  Says.append hFront hBack

theorem copies_byte (hb : b ≠ Byte.rightBrace) (escaped : Bool) (depth : Nat) :
    Copies escaped depth [b]
      (depthAfter Byte.rightBrace (some Byte.leftBrace) escaped depth b) := by
  refine ⟨contribution Byte.rightBrace escaped b, contribution_append_pending hb escaped, ?_⟩
  intro rest
  rw [List.singleton_append, scan, if_neg fun hStop => hb hStop.1]
  rfl

theorem copies_leftBrace (escaped : Bool) (depth : Nat) :
    Copies escaped depth [Byte.leftBrace] (depth + 1) := by
  have hByte : Byte.leftBrace ≠ Byte.rightBrace := by decide
  have hDepth : depthAfter Byte.rightBrace (some Byte.leftBrace) escaped depth Byte.leftBrace =
      depth + 1 := by
    rw [depthAfter, if_neg fun hStop => hByte hStop.1, if_pos rfl]
  exact hDepth ▸ copies_byte hByte escaped depth

theorem copies_rightBrace (depth : Nat) : Copies false (depth + 1) [Byte.rightBrace] depth := by
  refine ⟨[Byte.rightBrace], rfl, ?_⟩
  intro rest
  rw [List.singleton_append, scan, if_neg fun hStop => Nat.succ_ne_zero depth hStop.2.2]
  rfl

end Passage

theorem Braceless.balanced {text : Bytes} (h : Braceless text) : Balanced text := by
  induction text with
  | nil => exact .nil
  | cons b rest ih =>
    obtain ⟨⟨hLeft, hRight⟩, hRest⟩ := List.forall_mem_cons.mp h
    exact .byte hLeft hRight (ih hRest)

namespace Balanced

variable {text : Bytes}

theorem append {back : Bytes} (h : Balanced text) (hBack : Balanced back) :
    Balanced (text ++ back) := by
  induction h with
  | nil => exact hBack
  | byte hLeft hRight _ ih => exact .byte hLeft hRight ih
  | group hInner hLast _ _ ih =>
    rw [List.append_assoc]
    exact .group hInner hLast ih

/-- A byte that is no brace can be escaped without a brace losing its partner. -/
theorem escape {delimiter : Byte} (hLeft : delimiter ≠ Byte.leftBrace)
    (hRight : delimiter ≠ Byte.rightBrace) (h : Balanced text) :
    Balanced (escape delimiter text) := by
  induction h with
  | nil => exact .nil
  | @byte b rest hb hb' _ ih =>
    by_cases hDelimiter : b = delimiter
    · rw [hDelimiter, escape_cons_self]
      exact .byte (by decide) (by decide) (.byte hLeft hRight ih)
    · rw [escape_cons_of_ne hDelimiter]
      exact .byte hb hb' ih
  | @group inner rest _ hLast _ ihInner ihRest =>
    have hEscape : TagTemplate.escape delimiter
        (Byte.leftBrace :: inner ++ Byte.rightBrace :: rest) =
        Byte.leftBrace :: TagTemplate.escape delimiter inner ++
          Byte.rightBrace :: TagTemplate.escape delimiter rest := by
      simp [TagTemplate.escape, Ne.symm hLeft, Ne.symm hRight]
    rw [hEscape]
    exact .group ihInner (by rwa [getLast?_escape]) ihRest

theorem copies (h : Balanced text) (escaped : Bool) (depth : Nat) :
    Passage.Copies escaped depth text depth := by
  induction h generalizing escaped depth with
  | nil => exact Passage.copies_nil escaped depth
  | @byte b rest hLeft hRight _ ih =>
    have hDepth : Passage.depthAfter Byte.rightBrace (some Byte.leftBrace) escaped depth b =
        depth := by
      rw [Passage.depthAfter, if_neg fun hStop => hRight hStop.1,
        if_neg fun hOpener => hLeft (Option.some.inj hOpener).symm]
    have hByte := Passage.copies_byte hRight escaped depth
    rw [hDepth] at hByte
    exact hByte.append (ih _ depth)
  | @group inner rest _ hLast _ ihInner ihRest =>
    have hOpen := Passage.copies_leftBrace escaped depth
    have hInner := hOpen.append (ihInner _ (depth + 1))
    -- No backslash stands in front of the right brace, which therefore closes the group.
    have hEscaped : Passage.escapedAfter escaped ([Byte.leftBrace] ++ inner) = false := by
      rw [Passage.escapedAfter_append]
      exact Passage.escapedAfter_eq_false hLast
    have hClose := Passage.copies_rightBrace depth
    rw [← hEscaped] at hClose
    have hGroup := (hInner.append hClose).append (ihRest _ depth)
    rwa [List.append_assoc] at hGroup

theorem enclosed (h : Balanced text) (hLast : text.getLast? ≠ some Byte.backslash) :
    Enclosed Byte.rightBrace (some Byte.leftBrace) text text :=
  Passage.Says.enclosed (h.copies false 0) hLast

end Balanced

end TagTemplate
