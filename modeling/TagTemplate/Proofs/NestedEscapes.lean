import Mathlib.Logic.Function.Iterate
import TagTemplate.Proofs.BalancedRendering
import TagTemplate.Proofs.BracesApart

/-!
# Escapes in balanced bodies

A body is read after the backslashes in front of its right braces are dropped, and this goes for the
bodies in it as well: where bodies are balanced, each of the bodies around a right brace takes one
backslash away from it. So a right brace has to be escaped once for each of them, and what is escaped
only once is a right brace of its body only where that stands in no other one.
-/

namespace TagTemplate

namespace Passage

theorem says_escaped (escaped : Bool) (depth : Nat) :
    Says escaped depth [Byte.backslash, Byte.rightBrace] [Byte.rightBrace] depth := by
  have hBackslash : depthAfter Byte.rightBrace (some Byte.leftBrace) escaped depth Byte.backslash =
      depth := by
    rw [depthAfter, if_neg fun hStop => absurd hStop.1 (by decide), if_neg (by decide)]
  have hBrace : depthAfter Byte.rightBrace (some Byte.leftBrace) true depth Byte.rightBrace =
      depth := by
    rw [depthAfter, if_neg (by simp), if_neg (by decide)]
  have hNext : escapedAfter escaped [Byte.backslash, Byte.rightBrace] =
      decide (Byte.rightBrace = Byte.backslash) := rfl
  have hContent : contribution Byte.rightBrace true Byte.rightBrace = [Byte.rightBrace] := by decide
  refine ⟨pending escaped ++ [Byte.rightBrace], List.append_nil _, ?_⟩
  intro rest
  rw [List.cons_append, List.singleton_append, scan, if_neg fun hStop => absurd hStop.1 (by decide),
    contribution_backslash (by decide), hBackslash, decide_eq_true rfl, scan, if_neg (by simp),
    hBrace, hContent, hNext]
  simp only [List.append_assoc, List.cons_append, List.nil_append]

theorem says_escape {text : Bytes} (hText : Byte.leftBrace ∉ text) (escaped : Bool) (depth : Nat) :
    Says escaped depth (escape Byte.rightBrace text) text depth := by
  induction text generalizing escaped with
  | nil => exact copies_nil escaped depth
  | cons b text ih =>
    rw [List.mem_cons, not_or] at hText
    by_cases hb : b = Byte.rightBrace
    · rw [hb, escape_cons_self]
      exact (says_escaped escaped depth).append (ih hText.2 _)
    · have hDepth : depthAfter Byte.rightBrace (some Byte.leftBrace) escaped depth b = depth := by
        rw [depthAfter, if_neg fun hStop => hb hStop.1,
          if_neg fun hOpener => hText.1 (Option.some.inj hOpener)]
      have hByte := copies_byte hb escaped depth
      rw [hDepth] at hByte
      rw [escape_cons_of_ne hb]
      exact Says.append hByte (ih hText.2 _)

end Passage

namespace NestedBodies

open Template

/-- A tag without parameters around a body. -/
def wrap (sigil : Byte) (name body : Bytes) : Bytes :=
  sigil :: name ++ [Byte.leftParenthesis, Byte.rightParenthesis, Byte.leftBrace] ++ body ++
    [Byte.rightBrace]

/-- The text inside of tags, the first of which is the outermost. -/
def nest (sigil : Byte) (names : List Bytes) (text : Bytes) : Bytes :=
  names.foldr (wrap sigil) text

def trees (names : List Bytes) (template : List Tree) : List Tree :=
  names.foldr (fun name body => [.tag (.identifier name.ascii) [] (some body)]) template

/-- Holds of the texts that are one raw passage of a body when their right braces are escaped. -/
structure Plain (sigil : Sigil) (text : Bytes) : Prop where
  nonempty : text ≠ []
  sigil : sigil.byte ∉ text
  leftBrace : Byte.leftBrace ∉ text
  last : text.getLast? ≠ some Byte.backslash

section

variable {sigil : Sigil} {names : List Bytes} {name text : Bytes}

theorem Plain.escape (h : Plain sigil text) : Plain sigil (escape Byte.rightBrace text) where
  nonempty := by
    rw [ne_eq, escape_eq_nil_iff]
    exact h.nonempty
  sigil := by
    rw [mem_escape_iff (by decide) sigil.byte_ne_backslash]
    exact h.sigil
  leftBrace := by
    rw [mem_escape_iff (by decide) (by decide)]
    exact h.leftBrace
  last := by
    rw [getLast?_escape]
    exact h.last

theorem Plain.iterate (h : Plain sigil text) (n : Nat) :
    Plain sigil ((TagTemplate.escape Byte.rightBrace)^[n] text) := by
  induction n with
  | zero => exact h
  | succ n ih =>
    rw [Function.iterate_succ_apply']
    exact ih.escape

theorem iterate_escape_of_notMem (h : Byte.rightBrace ∉ text) (n : Nat) :
    (escape Byte.rightBrace)^[n] text = text :=
  Function.iterate_fixed (escape_of_notMem h) n

theorem iterate_escape_ne (h : Byte.rightBrace ∈ text) (n : Nat) :
    (escape Byte.rightBrace)^[n + 1] text ≠ text := by
  have hLess : text.length < ((escape Byte.rightBrace)^[n + 1] text).length := by
    induction n with
    | zero => exact length_lt_length_escape h
    | succ n ih =>
      rw [Function.iterate_succ_apply']
      exact ih.trans_le (length_le_length_escape _ _)
  intro hText
  rw [hText] at hLess
  exact Nat.lt_irrefl _ hLess

theorem getLast?_nest (hText : text.getLast? ≠ some Byte.backslash) (names : List Bytes) :
    (nest sigil.byte names text).getLast? ≠ some Byte.backslash := by
  cases names with
  | nil => exact hText
  | cons name names =>
    rw [nest, List.foldr_cons, wrap, List.getLast?_concat]
    decide

/-- At any depth, a body is taken for what it says, and so is the tag around it. -/
theorem says_wrap (hName : Alphanumeric name) {run said : Bytes} {depth : Nat}
    (h : Passage.Says false (depth + 1) run said (depth + 1))
    (hLast : run.getLast? ≠ some Byte.backslash) :
    Passage.Says false depth (wrap sigil.byte name run) (wrap sigil.byte name said) depth := by
  have hTag : Balanced (sigil.byte :: name ++ [Byte.leftParenthesis, Byte.rightParenthesis]) := by
    have hBalanced := @BalancedRendering.balanced_tag sigil name [] [] [] hName .nil blank_nil .nil
    simpa using hBalanced
  have hFront := (hTag.copies false depth).append (Passage.copies_leftBrace _ depth)
  have hNext : Passage.escapedAfter false (sigil.byte :: name ++ [Byte.leftParenthesis,
      Byte.rightParenthesis] ++ [Byte.leftBrace]) = false := by
    apply Passage.escapedAfter_eq_false
    rw [List.getLast?_concat]
    decide
  rw [← hNext] at h
  have hBody := Passage.Says.append hFront h
  have hClosed : Passage.escapedAfter false (sigil.byte :: name ++ [Byte.leftParenthesis,
      Byte.rightParenthesis] ++ [Byte.leftBrace] ++ run) = false := by
    rw [Passage.escapedAfter_append, hNext]
    exact Passage.escapedAfter_eq_false hLast
  have hClose := Passage.copies_rightBrace depth
  rw [← hClosed] at hClose
  have hWrap := hBody.append hClose
  simpa [wrap] using hWrap

theorem elements_raw_iff {bodyText : Bytes → Bytes → Prop} {buffer data : Bytes}
    (hBuffer : sigil.byte ∉ buffer) :
    Grammar.Elements sigil.byte bodyText buffer [.raw data] ↔ buffer ≠ [] ∧ data = buffer := by
  constructor
  · intro h
    cases h with
    | raw hRun _ _ _ hRest =>
      cases hRest
      rw [List.append_nil] at hBuffer ⊢
      exact ⟨hRun, unescape_of_notMem sigil.byte_ne_backslash hBuffer⟩
  · rintro ⟨hNonempty, rfl⟩
    have hHead : data.head? ≠ some sigil.byte := fun hHead => hBuffer (List.mem_of_head? hHead)
    have hGuarded : Guarded sigil.byte data := by
      rintro front back rfl
      exact absurd hBuffer (by simp)
    have hRaw : Grammar.Elements sigil.byte bodyText (data ++ []) [.raw (unescape sigil.byte data)] :=
      .raw hNonempty hHead hGuarded (Or.inl rfl) .nil
    rwa [List.append_nil, unescape_of_notMem sigil.byte_ne_backslash hBuffer] at hRaw

/-- A tag with a body that is all of a buffer. -/
theorem exists_of_elements_tag {bodyText : Bytes → Bytes → Prop} {buffer : Bytes} {body : List Tree}
    (h : Grammar.Elements sigil.byte bodyText buffer
      [.tag (.identifier name.ascii) [] (some body)]) :
    ∃ list gap run text, Blank list ∧ Blank gap ∧ bodyText run text ∧
      Grammar.Elements sigil.byte bodyText text body ∧
      buffer = sigil.byte :: name ++ Byte.leftParenthesis :: list ++
        Byte.rightParenthesis :: gap ++ Byte.leftBrace :: run ++ [Byte.rightBrace] := by
  generalize hTrees : [Tree.tag (.identifier name.ascii) [] (some body)] = ts at h
  cases h with
  | nil => cases hTrees
  | raw => cases (List.cons.inj hTrees).1
  | tag => cases (Tree.tag.inj (List.cons.inj hTrees).1).2.2
  | @tagWithBody name' list gap run text rest ps body' ts _ hParameters hGap hBody hText hRest =>
    obtain ⟨hTag, rfl⟩ := List.cons.inj hTrees
    obtain ⟨hIdentifier, rfl, hContent⟩ := Tree.tag.inj hTag
    obtain rfl := Option.some.inj hContent
    obtain rfl := Bytes.ascii_inj.mp (Tree.identifier.inj hIdentifier)
    cases hRest
    have hList : Blank list := by
      cases hParameters with
      | none hList => exact hList
      | some hList => cases hList
    exact ⟨list, gap, run, text, hList, hGap, hBody, hText, rfl⟩

theorem elements_wrap_iff {bodyText : Bytes → Bytes → Prop} {run : Bytes} {body : List Tree}
    (hName : Alphanumeric name) :
    Grammar.Elements sigil.byte bodyText (wrap sigil.byte name run)
        [.tag (.identifier name.ascii) [] (some body)] ↔
      ∃ text, bodyText run text ∧ Grammar.Elements sigil.byte bodyText text body := by
  constructor
  · intro h
    obtain ⟨list, gap, run', text, hList, hGap, hBody, hText, hBuffer⟩ := exists_of_elements_tag h
    simp only [wrap, List.append_assoc, List.cons_append, List.nil_append, List.cons.injEq,
      List.append_cancel_left_eq, true_and] at hBuffer
    obtain ⟨-, hClose⟩ := hList.eq_nil_of_append (by decide) hBuffer
    obtain ⟨-, hOpen⟩ := hGap.eq_nil_of_append (by decide) (List.cons.inj hClose).2
    obtain rfl := List.append_cancel_right (List.cons.inj hOpen).2
    exact ⟨text, hBody, hText⟩
  · rintro ⟨text, hBody, hText⟩
    have hTag := Grammar.Elements.tagWithBody hName (.none blank_nil) blank_nil hBody hText .nil
    rw [wrap]
    simpa using hTag

theorem says_nest (hNames : ∀ name ∈ names, Alphanumeric name) (hPlain : Plain sigil text)
    (depth : Nat) :
    Passage.Says false depth (nest sigil.byte names (escape Byte.rightBrace text))
      (nest sigil.byte names text) depth := by
  induction names generalizing depth with
  | nil => exact Passage.says_escape hPlain.leftBrace false depth
  | cons name names ih =>
    obtain ⟨hName, hNames⟩ := List.forall_mem_cons.mp hNames
    exact says_wrap hName (ih hNames (depth + 1)) (getLast?_nest hPlain.escape.last names)

/-- Around bodies, one backslash fewer is read in front of each right brace of the innermost. -/
theorem enclosed_nest (hNames : ∀ name ∈ names, Alphanumeric name) (hPlain : Plain sigil text) :
    Enclosed Byte.rightBrace (some Byte.leftBrace)
      (nest sigil.byte names (escape Byte.rightBrace text)) (nest sigil.byte names text) :=
  (says_nest hNames hPlain 0).enclosed (getLast?_nest hPlain.escape.last names)

/-- What is read as nested tags is at least as long as the tags around the text. -/
theorem length_nest_le {bodyText : Bytes → Bytes → Prop}
    (hLength : ∀ run said, bodyText run said → said.length ≤ run.length) {buffer : Bytes}
    (h : Grammar.Elements sigil.byte bodyText buffer (trees names [.raw text])) :
    (nest sigil.byte names text).length ≤ buffer.length := by
  induction names generalizing buffer with
  | nil =>
    cases h with
    | @raw run rest _ _ _ _ _ _ =>
      have hLe := (strips_unescape sigil.byte run).length_le
      simp only [nest, List.foldr_nil, List.length_append]
      omega
  | cons name names ih =>
    obtain ⟨list, gap, run, said, -, -, hBody, hSaid, rfl⟩ := exists_of_elements_tag h
    have hInner := ih hSaid
    have hRun := hLength run said hBody
    simp only [nest, List.foldr_cons, wrap, List.length_append, List.length_cons,
      List.length_nil] at hInner ⊢
    omega

theorem elements_nest (hNames : ∀ name ∈ names, Alphanumeric name) (hPlain : Plain sigil text) :
    Grammar.Elements sigil.byte (Options.BodyText ⟨sigil, true⟩)
      (nest sigil.byte names ((escape Byte.rightBrace)^[names.length] text))
      (trees names [.raw text]) := by
  induction names with
  | nil => exact (elements_raw_iff hPlain.sigil).mpr ⟨hPlain.nonempty, rfl⟩
  | cons name names ih =>
    obtain ⟨hName, hNames⟩ := List.forall_mem_cons.mp hNames
    have hBody := enclosed_nest hNames (hPlain.iterate names.length)
    rw [← Function.iterate_succ_apply' (escape Byte.rightBrace)] at hBody
    exact (elements_wrap_iff hName).mpr ⟨_, hBody, ih hNames⟩

theorem length_eq_of_elements (hNames : ∀ name ∈ names, Alphanumeric name)
    (hPlain : Plain sigil text) (hMem : Byte.rightBrace ∈ text) {n : Nat}
    (h : Grammar.Elements sigil.byte (Options.BodyText ⟨sigil, true⟩)
      (nest sigil.byte names ((escape Byte.rightBrace)^[n] text)) (trees names [.raw text])) :
    n = names.length := by
  induction names generalizing n with
  | nil =>
    cases n with
    | zero => rfl
    | succ n =>
      obtain ⟨-, hText⟩ := (elements_raw_iff (hPlain.iterate (n + 1)).sigil).mp h
      exact absurd hText.symm (iterate_escape_ne hMem n)
  | cons name names ih =>
    obtain ⟨hName, hNames⟩ := List.forall_mem_cons.mp hNames
    obtain ⟨said, hBody, hSaid⟩ := (elements_wrap_iff hName).mp h
    cases n with
    | succ n =>
      rw [Function.iterate_succ_apply'] at hBody
      obtain rfl := hBody.text_eq (enclosed_nest hNames (hPlain.iterate n))
      exact congrArg Nat.succ (ih hNames hSaid)
    | zero =>
      -- As long as it is written, the body is read as it is written, down to the innermost one,
      -- which ends at its first right brace.
      have hLe := length_nest_le (fun _ _ hSays => Enclosed.length_le hSays) hSaid
      have hWritten := (Enclosed.strips (by decide) hBody).eq_of_length hLe
      rw [Function.iterate_zero_apply] at hBody hWritten
      rw [← hWritten] at hBody hSaid
      obtain rfl := List.eq_nil_of_length_eq_zero (@ih hNames 0 hSaid).symm
      have hText : text = escape Byte.rightBrace text :=
        hBody.written_eq (by decide) (by decide) hPlain.leftBrace
      exact absurd hText.symm (iterate_escape_ne hMem 0)

theorem elements_nest_iff (hNames : ∀ name ∈ names, Alphanumeric name) (hPlain : Plain sigil text)
    (n : Nat) :
    Grammar.Elements sigil.byte (Options.BodyText ⟨sigil, true⟩)
        (nest sigil.byte names ((escape Byte.rightBrace)^[n] text)) (trees names [.raw text]) ↔
      n = names.length ∨ Byte.rightBrace ∉ text := by
  by_cases hMem : Byte.rightBrace ∈ text
  · simp only [hMem, not_true, or_false]
    constructor
    · exact length_eq_of_elements hNames hPlain hMem
    · rintro rfl
      exact elements_nest hNames hPlain
  · have hElements := elements_nest hNames hPlain
    rw [iterate_escape_of_notMem hMem] at hElements ⊢
    exact iff_of_true hElements (Or.inr hMem)

/-- In nested balanced bodies, the innermost text is read back if its right braces are escaped once
for each of the bodies around them, and, where it has any, only then. -/
theorem read_nest_escaped_iff (hNames : ∀ name ∈ names, Alphanumeric name)
    (hPlain : Plain sigil text) (n : Nat) :
    (∃ nodes,
        (read ⟨sigil, true⟩ (nest sigil.byte names ((escape Byte.rightBrace)^[n] text))).result =
            .ok nodes ∧
          Node.trees nodes = trees names [.raw text]) ↔
      n = names.length ∨ Byte.rightBrace ∉ text :=
  (Grammar.read_ok_iff ⟨sigil, true⟩ _ _).trans (elements_nest_iff hNames hPlain n)

/-- A right brace in two bodies, escaped twice. -/
theorem read_nest_escaped_twice :
    let text : Bytes := [0x78, 0x7D, 0x79]
    (∀ name ∈ ([[0x61], [0x61]] : List Bytes), Alphanumeric name) ∧ Plain Sigil.standard text ∧
      ∃ nodes,
        (read ⟨Sigil.standard, true⟩ (nest Sigil.standard.byte [[0x61], [0x61]]
            ((escape Byte.rightBrace)^[2] text))).result = .ok nodes ∧
          Node.trees nodes = trees [[0x61], [0x61]] [.raw text] := by
  intro text
  have hNames : ∀ name ∈ ([[0x61], [0x61]] : List Bytes), Alphanumeric name := by decide
  have hPlain : Plain Sigil.standard text :=
    ⟨by decide, by decide, by decide, by decide⟩
  exact ⟨hNames, hPlain, (read_nest_escaped_iff hNames hPlain 2).mpr (Or.inl rfl)⟩

/-- In two bodies, a right brace that is escaped once ends the inner one. -/
theorem not_read_nest_escaped_once :
    let text : Bytes := [0x78, 0x7D, 0x79]
    Plain Sigil.standard text ∧
      ¬∃ nodes,
        (read ⟨Sigil.standard, true⟩ (nest Sigil.standard.byte [[0x61], [0x61]]
            (escape Byte.rightBrace text))).result = .ok nodes ∧
          Node.trees nodes = trees [[0x61], [0x61]] [.raw text] := by
  have hRead : (read ⟨Sigil.standard, true⟩ (nest Sigil.standard.byte [[0x61], [0x61]]
      (escape Byte.rightBrace [0x78, 0x7D, 0x79]))).result =
      .ok [.tag (.identifier "a" ⟨1, 2, 1, 2⟩) []
        (some [.tag (.identifier "a" ⟨1, 2, 1, 2⟩) [] (some [.raw [0x78] ⟨1, 1, 0, 1⟩])
            ⟨1, 1, 0, 7⟩, .raw [0x79, 0x7D] ⟨1, 8, 7, 9⟩]) ⟨1, 1, 0, 16⟩] := by
    with_unfolding_all rfl
  intro text
  refine ⟨⟨by decide, by decide, by decide, by decide⟩, ?_⟩
  rintro ⟨nodes, hNodes, hTrees⟩
  rw [hRead] at hNodes
  cases hNodes
  simp [Node.trees, Node.tree, Node.bodyTrees, trees] at hTrees

end

end NestedBodies

end TagTemplate
