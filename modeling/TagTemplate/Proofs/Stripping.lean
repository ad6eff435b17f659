import TagTemplate.Proofs.Grammar

/-!
# What a passage leaves out

What a passage says is what is written in it without some of its backslashes. So it has all the
other bytes of it, and is all of it where it is as long.
-/

namespace TagTemplate

/-- Holds where `text` is what is written, less some backslashes. -/
inductive Strips : Bytes → Bytes → Prop
  | nil : Strips [] []
  | keep {b : Byte} {written text : Bytes} : Strips written text → Strips (b :: written) (b :: text)
  | drop {written text : Bytes} : Strips written text → Strips (Byte.backslash :: written) text

namespace Strips

variable {written text : Bytes}

theorem append_left (front : Bytes) (h : Strips written text) :
    Strips (front ++ written) (front ++ text) := by
  induction front with
  | nil => exact h
  | cons b front ih => exact .keep ih

theorem refl (text : Bytes) : Strips text text := by
  have h := append_left text .nil
  rwa [List.append_nil] at h

theorem length_le (h : Strips written text) : text.length ≤ written.length := by
  induction h with
  | nil => exact Nat.le_refl 0
  | keep _ ih => exact Nat.succ_le_succ ih
  | drop _ ih => exact Nat.le_succ_of_le ih

theorem eq_of_length (h : Strips written text) (hLength : written.length ≤ text.length) :
    written = text := by
  induction h with
  | nil => rfl
  | @keep b _ _ _ ih => exact congrArg (b :: ·) (ih (Nat.le_of_succ_le_succ hLength))
  | drop hStrips _ =>
    have hLe := hStrips.length_le
    rw [List.length_cons] at hLength
    omega

theorem mem_iff {b : Byte} (hb : b ≠ Byte.backslash) (h : Strips written text) :
    b ∈ text ↔ b ∈ written := by
  induction h with
  | nil => exact Iff.rfl
  | keep _ ih => rw [List.mem_cons, List.mem_cons, ih]
  | drop _ ih => rw [List.mem_cons, ih, or_iff_right hb]

end Strips

theorem strips_unescape (delimiter : Byte) :
    ∀ run : Bytes, Strips run (unescape delimiter run)
  | [] => .nil
  | b :: rest => by
    rw [unescape]
    split
    · rename_i hPair
      rw [hPair.1]
      exact .drop (strips_unescape delimiter rest)
    · exact .keep (strips_unescape delimiter rest)

theorem mem_escape_iff {delimiter b : Byte} (hDelimiter : delimiter ≠ Byte.backslash)
    (hb : b ≠ Byte.backslash) {text : Bytes} : b ∈ escape delimiter text ↔ b ∈ text := by
  have hStrips := strips_unescape delimiter (escape delimiter text)
  rw [unescape_escape hDelimiter] at hStrips
  exact (hStrips.mem_iff hb).symm

theorem Quoted.strips {delimiter : Byte} {run text : Bytes} (h : Quoted delimiter run text) :
    Strips run text := by
  rw [h.text]
  exact strips_unescape delimiter run

namespace Passage

variable {delimiter : Byte}

theorem strips_contribution {escaped : Bool} {b : Byte} (hb : b ≠ Byte.backslash)
    {written content : Bytes} (h : Strips written content) :
    Strips (pending escaped ++ b :: written) (contribution delimiter escaped b ++ content) := by
  rw [contribution, if_neg hb]
  cases escaped with
  | false => exact .keep h
  | true =>
    by_cases hDelimiter : b = delimiter
    · rw [if_neg fun hKept => hKept.2 hDelimiter]
      exact .drop (.keep h)
    · rw [if_pos ⟨rfl, hDelimiter⟩]
      exact .keep (.keep h)

theorem strips_scan (hDelimiter : delimiter ≠ Byte.backslash) (opener : Option Byte)
    (escaped : Bool) (depth : Nat) (bytes : Bytes) :
    Strips (pending escaped ++ (scan delimiter opener escaped depth bytes).written)
      (scan delimiter opener escaped depth bytes).content := by
  induction bytes generalizing escaped depth with
  | nil =>
    rw [scan, List.append_nil]
    exact .refl (pending escaped)
  | cons b bytes ih =>
    rw [scan]
    split
    · rename_i hStop
      rw [hStop.2.1]
      exact .nil
    · have hTail := ih (b = Byte.backslash) (depthAfter delimiter opener escaped depth b)
      by_cases hb : b = Byte.backslash
      · rw [hb, contribution_backslash hDelimiter]
        rw [decide_eq_true hb, hb] at hTail
        exact hTail.append_left (pending escaped)
      · rw [decide_eq_false hb] at hTail ⊢
        exact strips_contribution hb hTail

end Passage

theorem Enclosed.strips {delimiter : Byte} (hDelimiter : delimiter ≠ Byte.backslash)
    {opener : Option Byte} {written text : Bytes} (h : Enclosed delimiter opener written text) :
    Strips written text := by
  have hScan := Passage.strips_scan hDelimiter opener false 0 (written ++ [delimiter])
  change Strips (delimited delimiter opener _).written (delimited delimiter opener _).content
    at hScan
  rwa [h] at hScan

end TagTemplate
