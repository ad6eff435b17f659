import Mathlib.Data.Nat.Count
import Mathlib.Order.Bounds.Defs
import TagTemplate.Proofs.Provenance

/-!
# Where a passage with an opener closes

A passage that counts openers ends at the first place where its delimiter stands unescaped and no
opener in front of it waits for a delimiter of its own, or else at the end of the buffer. This is a
matter of the bytes alone: the openers are as many as the unescaped delimiters. What the passage
says is what is written in it without the backslashes in front of its delimiters.
-/

namespace TagTemplate

namespace Bytes

/-- Holds of the places from `start` on where the delimiter stands and no backslash right before it.
What stands before `start` does not count. -/
def Unescaped (buffer : Bytes) (delimiter : Byte) (start i : Nat) : Prop :=
  start ≤ i ∧ buffer[i]? = some delimiter ∧
    (i = start ∨ buffer[i - 1]? ≠ some Byte.backslash)

instance (buffer : Bytes) (delimiter : Byte) (start : Nat) :
    DecidablePred (buffer.Unescaped delimiter start) :=
  fun _ => inferInstanceAs (Decidable (_ ∧ _ ∧ _))

/-- Holds where the delimiter stands unescaped and, between `start` and it, there are as many
openers as unescaped delimiters. -/
def Closes (buffer : Bytes) (delimiter opener : Byte) (start i : Nat) : Prop :=
  buffer.Unescaped delimiter start i ∧
    (buffer.slice start i).count opener = Nat.count (buffer.Unescaped delimiter start) i

variable {buffer : Bytes} {delimiter opener b : Byte} {start i : Nat}

@[simp] theorem slice_self (buffer : Bytes) (start : Nat) : buffer.slice start start = [] :=
  List.drop_eq_nil_of_le (List.length_take_le start buffer)

theorem slice_succ (hStart : start ≤ i) (hb : buffer[i]? = some b) :
    buffer.slice start (i + 1) = buffer.slice start i ++ [b] := by
  obtain ⟨hLength, -⟩ := List.getElem?_eq_some_iff.mp hb
  rw [slice, slice, List.take_add_one, hb, Option.toList_some, List.drop_append_of_le_length]
  rw [List.length_take]
  omega

theorem getElem?_of_drop {rest : Bytes} (h : buffer.drop i = b :: rest) : buffer[i]? = some b := by
  rw [← List.head?_drop, h, List.head?_cons]

theorem drop_succ {rest : Bytes} (h : buffer.drop i = b :: rest) : buffer.drop (i + 1) = rest := by
  rw [← List.tail_drop, h, List.tail_cons]

/-- Whether a place is escaped shows in the last byte that has been taken before it. -/
theorem unescaped_iff (hStart : start ≤ i) :
    buffer.Unescaped delimiter start i ↔
      buffer[i]? = some delimiter ∧ (buffer.slice start i).getLast? ≠ some Byte.backslash := by
  rw [Unescaped, and_iff_right hStart]
  refine and_congr_right fun hDelimiter => ?_
  rcases hStart.eq_or_lt with rfl | hLess
  · simp
  · obtain ⟨j, rfl⟩ := Nat.exists_eq_add_one_of_ne_zero (Nat.ne_zero_of_lt hLess)
    obtain ⟨hLength, -⟩ := List.getElem?_eq_some_iff.mp hDelimiter
    have hb := List.getElem?_eq_getElem (Nat.lt_of_succ_lt hLength)
    rw [slice_succ (Nat.le_of_lt_succ hLess) hb, List.getLast?_concat, Nat.add_sub_cancel, hb,
      or_iff_right hLess.ne']

theorem not_closes_of_length_le (h : buffer.length ≤ i) :
    ¬buffer.Closes delimiter opener start i := by
  rintro ⟨⟨-, hDelimiter, -⟩, -⟩
  rw [List.getElem?_eq_none h] at hDelimiter
  cases hDelimiter

end Bytes

namespace Passage

variable {delimiter opener : Byte}

theorem unescape_cons_of_ne {b : Byte} (hb : b ≠ Byte.backslash) (rest : Bytes) :
    unescape delimiter (b :: rest) = b :: unescape delimiter rest := by
  rw [unescape, if_neg fun hPair => hb hPair.1]

theorem unescape_backslash_cons {b : Byte} (hb : b ≠ delimiter) (rest : Bytes) :
    unescape delimiter (Byte.backslash :: b :: rest) =
      Byte.backslash :: unescape delimiter (b :: rest) := by
  have hKept : ¬(Byte.backslash = Byte.backslash ∧ (b :: rest).head? = some delimiter) :=
    fun hPair => hb (Option.some.inj hPair.2)
  exact (unescape.eq_2 delimiter Byte.backslash (b :: rest)).trans (if_neg hKept)

theorem unescape_backslash_self (rest : Bytes) :
    unescape delimiter (Byte.backslash :: delimiter :: rest) =
      unescape delimiter (delimiter :: rest) :=
  (unescape.eq_2 delimiter Byte.backslash (delimiter :: rest)).trans (if_pos ⟨rfl, rfl⟩)

/-- One byte of a passage adds to its content what it adds to the unescaped text. -/
theorem unescape_pending (hDelimiter : delimiter ≠ Byte.backslash) (escaped : Bool) (b : Byte)
    (rest : Bytes) :
    unescape delimiter (pending escaped ++ b :: rest) =
      contribution delimiter escaped b ++
        unescape delimiter (pending (b = Byte.backslash) ++ rest) := by
  by_cases hb : b = Byte.backslash
  · rw [hb, contribution_backslash hDelimiter, decide_eq_true rfl]
    cases escaped with
    | false => rfl
    | true => exact unescape_backslash_cons (Ne.symm hDelimiter) rest
  · have hByte := @unescape_cons_of_ne delimiter b hb rest
    rw [decide_eq_false hb, contribution, if_neg hb]
    cases escaped with
    | false => exact hByte
    | true =>
      by_cases hEscaped : b = delimiter
      · rw [if_neg fun hKept => hKept.2 hEscaped]
        subst hEscaped
        exact (unescape_backslash_self rest).trans hByte
      · rw [if_pos ⟨rfl, hEscaped⟩]
        exact (unescape_backslash_cons hEscaped rest).trans (congrArg (Byte.backslash :: ·) hByte)

/-- What a passage says is what is written in it without the backslashes in front of its
delimiters. -/
theorem content_eq_unescape (hDelimiter : delimiter ≠ Byte.backslash) (opener : Option Byte)
    (escaped : Bool) (depth : Nat) (bytes : Bytes) :
    (scan delimiter opener escaped depth bytes).content =
      unescape delimiter
        (pending escaped ++ (scan delimiter opener escaped depth bytes).written) := by
  induction bytes generalizing escaped depth with
  | nil => cases escaped <;> simp [scan, pending, unescape]
  | cons b bytes ih =>
    rw [scan]
    split
    · rename_i hStop
      rw [hStop.2.1]
      rfl
    · rw [unescape_pending hDelimiter, ← ih]

/-- Whether a backslash stands right before a place that a passage from `start` has come to. -/
def escapedAt (buffer : Bytes) (start i : Nat) : Bool :=
  (buffer.slice start i).getLast? = some Byte.backslash

section

variable {buffer : Bytes} {b : Byte} {start i stop depth : Nat}

theorem unescaped_iff_escapedAt (hStart : start ≤ i) (hb : buffer[i]? = some b) :
    buffer.Unescaped delimiter start i ↔ b = delimiter ∧ escapedAt buffer start i = false := by
  rw [Bytes.unescaped_iff hStart, hb, Option.some.injEq, escapedAt, decide_eq_false_iff_not]

theorem escapedAt_succ (hStart : start ≤ i) (hb : buffer[i]? = some b) :
    escapedAt buffer start (i + 1) = decide (b = Byte.backslash) := by
  rw [escapedAt, Bytes.slice_succ hStart hb, List.getLast?_concat]
  simp

/-- The depth counts the openers that the unescaped delimiters have not closed yet. -/
theorem depthAfter_add_count (hOpener : opener ≠ delimiter) (hStart : start ≤ i)
    (hb : buffer[i]? = some b)
    (hGoes : ¬(b = delimiter ∧ escapedAt buffer start i = false ∧ depth = 0))
    (hDepth : depth + Nat.count (buffer.Unescaped delimiter start) i =
      (buffer.slice start i).count opener) :
    depthAfter delimiter (some opener) (escapedAt buffer start i) depth b +
        Nat.count (buffer.Unescaped delimiter start) (i + 1) =
      (buffer.slice start (i + 1)).count opener := by
  rw [Nat.count_succ, Bytes.slice_succ hStart hb, List.count_append, ← hDepth, depthAfter]
  simp only [unescaped_iff_escapedAt hStart hb]
  split
  · rename_i hCloses
    have hPositive : depth ≠ 0 := fun hZero => hGoes ⟨hCloses.1, hCloses.2, hZero⟩
    have hNone : List.count opener [b] = 0 := List.count_eq_zero.mpr fun hMem =>
      hOpener ((List.mem_singleton.mp hMem).trans hCloses.1)
    omega
  · split
    · rename_i hOpens
      rw [Option.some.inj hOpens, List.count_singleton_self]
      omega
    · rename_i hOther
      have hNone : List.count opener [b] = 0 := List.count_eq_zero.mpr fun hMem =>
        hOther (congrArg some (List.mem_singleton.mp hMem))
      omega

/-- A passage that has come to a place goes on to the next one that closes it, or to the end. -/
theorem scan_drop (hOpener : opener ≠ delimiter) (hStart : start ≤ i) (hEnd : i ≤ buffer.length)
    (hDepth : depth + Nat.count (buffer.Unescaped delimiter start) i =
      (buffer.slice start i).count opener)
    (hStop : i + (scan delimiter (some opener) (escapedAt buffer start i) depth
      (buffer.drop i)).written.length = stop) :
    (buffer.Closes delimiter opener start stop ∨ stop = buffer.length) ∧
      ∀ j, i ≤ j → j < stop → ¬buffer.Closes delimiter opener start j := by
  induction hRest : buffer.drop i generalizing i depth with
  | nil =>
    have hLength := List.drop_eq_nil_iff.mp hRest
    rw [hRest] at hStop
    obtain rfl : i = stop := hStop
    exact ⟨Or.inr (Nat.le_antisymm hEnd hLength), fun j hLe hLess => absurd hLess hLe.not_gt⟩
  | cons b rest ih =>
    have hb := Bytes.getElem?_of_drop hRest
    have hUnescaped := @unescaped_iff_escapedAt delimiter _ _ _ _ hStart hb
    rw [hRest, scan] at hStop
    split at hStop
    · rename_i hCloses
      obtain rfl : i = stop := hStop
      refine ⟨Or.inl ⟨hUnescaped.mpr ⟨hCloses.1, hCloses.2.1⟩, ?_⟩,
        fun j hLe hLess => absurd hLess hLe.not_gt⟩
      simpa [hCloses.2.2] using hDepth.symm
    · rename_i hGoes
      have hTail := Bytes.drop_succ hRest
      have hNext := ih (Nat.le_succ_of_le hStart) (List.getElem?_eq_some_iff.mp hb).1
        (depthAfter_add_count hOpener hStart hb hGoes hDepth)
        (by rw [escapedAt_succ hStart hb, hTail, ← hStop, List.length_cons]; omega) hTail
      refine ⟨hNext.1, fun j hLe hLess => ?_⟩
      rcases hLe.eq_or_lt with rfl | hBehind
      · rintro ⟨hAt, hCount⟩
        obtain ⟨hDelimiter, hEscaped⟩ := hUnescaped.mp hAt
        exact hGoes ⟨hDelimiter, hEscaped, by omega⟩
      · exact hNext.2 j hBehind hLess

theorem delimited_drop (hOpener : opener ≠ delimiter) (hStart : start ≤ buffer.length)
    (hStop : start +
      (delimited delimiter (some opener) (buffer.drop start)).written.length = stop) :
    IsLeast {i | buffer.Closes delimiter opener start i} stop ∨
      stop = buffer.length ∧ ∀ i, ¬buffer.Closes delimiter opener start i := by
  -- At the start nothing is escaped, and no opener waits.
  have hEscaped : escapedAt buffer start start = false := by simp [escapedAt]
  have hCount : 0 + Nat.count (buffer.Unescaped delimiter start) start =
      (buffer.slice start start).count opener := by
    have hNone := Nat.count_iff_forall_not.mpr fun i (hLess : i < start)
      (h : buffer.Unescaped delimiter start i) => h.1.not_gt hLess
    rw [Bytes.slice_self, List.count_nil, Nat.zero_add, hNone]
  rw [delimited, ← hEscaped] at hStop
  obtain ⟨hAt, hBefore⟩ := scan_drop hOpener le_rfl hStart hCount hStop
  rcases hAt with hCloses | rfl
  · refine Or.inl ⟨hCloses, fun i hi => ?_⟩
    by_contra hLess
    exact hBefore i hi.1.1 (Nat.lt_of_not_le hLess) hi
  · refine Or.inr ⟨rfl, fun i hi => ?_⟩
    rcases Nat.lt_or_ge i buffer.length with hLess | hLe
    · exact hBefore i hi.1.1 hLess hi
    · exact Bytes.not_closes_of_length_le hLe hi

end

end Passage

namespace Scan

open Bytes

/-- A passage with an opener ends at the first place that closes it, or at the end of the buffer if
there is none, and says what stands before that place without the backslashes in front of
delimiters. -/
theorem upTo_closes {delimiter opener : Byte} (hDelimiter : delimiter ≠ Byte.backslash)
    (hOpener : opener ≠ delimiter) {buffer : Bytes} {c : Cursor} (hOver : Cursor.Over buffer c) :
    ∃ c', Gives (upTo delimiter (some opener)) c
        (unescape delimiter (buffer.slice c.position.offset c'.position.offset)) c' ∧
      Cursor.Over buffer c' ∧
      (IsLeast {i | buffer.Closes delimiter opener c.position.offset i} c'.position.offset ∨
        c'.position.offset = buffer.length ∧
          ∀ i, ¬buffer.Closes delimiter opener c.position.offset i) := by
  obtain ⟨text, hGives⟩ : ∃ text, Gives (upTo delimiter (some opener)) c text
      (upTo delimiter (some opener) c).cursor := ⟨_, rfl, rfl⟩
  obtain ⟨written, hRead, hPassage⟩ := gives_upTo_iff.mp hGives
  have hOver' := hOver.reads hRead
  have hText : text = unescape delimiter written := by
    have hContent := Passage.content_eq_unescape hDelimiter (some opener) false 0 c.rest
    change (delimited delimiter (some opener) c.rest).content =
      unescape delimiter (delimited delimiter (some opener) c.rest).written at hContent
    rwa [hPassage] at hContent
  refine ⟨_, ?_, hOver', ?_⟩
  · rw [hOver.slice hRead, ← hText]
    exact hGives
  · obtain ⟨front, hFront⟩ := Cursor.over_iff_reads.mp hOver
    apply Passage.delimited_drop hOpener hFront.offset_le
    rw [← hOver.rest_eq, hPassage, hRead.offset_eq]

/-- Two groups with an escaped right brace between them and an escaped left brace in the second. -/
theorem upTo_closes_groups :
    ∃ c', Gives (upTo Byte.rightBrace (some Byte.leftBrace))
        (Cursor.start [0x7B, 0x7D, 0x5C, 0x7D, 0x5C, 0x7B, 0x61, 0x7D, 0x7D, 0x62, 0x7D])
        [0x7B, 0x7D, 0x7D, 0x5C, 0x7B, 0x61, 0x7D] c' ∧
      c'.rest = [0x7D, 0x62, 0x7D] ∧
      IsLeast {i | Closes [0x7B, 0x7D, 0x5C, 0x7D, 0x5C, 0x7B, 0x61, 0x7D, 0x7D, 0x62, 0x7D]
        Byte.rightBrace Byte.leftBrace 0 i} 8 := by
  have hRun : Gives (upTo Byte.rightBrace (some Byte.leftBrace))
      (Cursor.start [0x7B, 0x7D, 0x5C, 0x7D, 0x5C, 0x7B, 0x61, 0x7D, 0x7D, 0x62, 0x7D])
      [0x7B, 0x7D, 0x7D, 0x5C, 0x7B, 0x61, 0x7D] ⟨⟨8, 1, 9⟩, [0x7D, 0x62, 0x7D]⟩ := by
    with_unfolding_all exact ⟨rfl, rfl⟩
  obtain ⟨c', hGives, -, hStop⟩ :=
    @upTo_closes Byte.rightBrace Byte.leftBrace (by decide) (by decide) _ _ (Cursor.over_start
      [0x7B, 0x7D, 0x5C, 0x7D, 0x5C, 0x7B, 0x61, 0x7D, 0x7D, 0x62, 0x7D])
  obtain ⟨-, rfl⟩ := hGives.eq hRun
  exact ⟨_, hRun, rfl, hStop.resolve_right fun hEnd => absurd hEnd.1 (by decide)⟩

end Scan

end TagTemplate
