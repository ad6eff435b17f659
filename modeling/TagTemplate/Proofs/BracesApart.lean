import TagTemplate.Proofs.Correspondence
import TagTemplate.Proofs.Stripping

/-!
# Braces that do not nest

A body that counts left braces ends elsewhere than one that does not only if it holds one. Where in
a buffer no left brace follows another one before a right brace that is not escaped, no body holds
any, nor does one in the texts that are cut out of the buffer: it does not matter whether bodies are
balanced.
-/

namespace TagTemplate

/-- Holds of the buffers in which a right brace that no backslash precedes stands between any two
left braces. -/
def BracesApart (buffer : Bytes) : Prop :=
  ∀ front middle back,
    buffer = front ++ Byte.leftBrace :: middle ++ Byte.leftBrace :: back →
      ¬Guarded Byte.rightBrace middle

namespace BracesApart

variable {first second text : Bytes}

theorem of_notMem (h : Byte.leftBrace ∉ text) : BracesApart text := by
  rintro front middle back rfl
  simp at h

theorem byte {b : Byte} (hb : b ≠ Byte.leftBrace) (h : BracesApart text) :
    BracesApart (b :: text) := by
  intro front middle back hText
  cases front with
  | nil => exact absurd (List.cons.inj hText).1 hb
  | cons c front => exact h front middle back (List.cons.inj hText).2

theorem exists_of_append_eq (hFirst : Byte.leftBrace ∉ first) {front back : Bytes}
    (h : first ++ Byte.rightBrace :: text = front ++ Byte.leftBrace :: back) :
    ∃ rest, front = first ++ Byte.rightBrace :: rest ∧ text = rest ++ Byte.leftBrace :: back := by
  rcases List.append_eq_append_iff.mp h with ⟨tail, rfl, hTail⟩ | ⟨tail, rfl, hTail⟩
  · cases tail with
    | nil => exact absurd (List.cons.inj hTail).1 (by decide)
    | cons b tail =>
      obtain ⟨rfl, rfl⟩ := List.cons.inj hTail
      exact ⟨tail, rfl, rfl⟩
  · cases tail with
    | nil => exact absurd (List.cons.inj hTail).1 (by decide)
    | cons b tail =>
      obtain ⟨rfl, -⟩ := List.cons.inj hTail
      simp at hFirst

theorem group (hFirst : Byte.leftBrace ∉ first) (hLast : first.getLast? ≠ some Byte.backslash)
    (h : BracesApart text) : BracesApart (Byte.leftBrace :: first ++ Byte.rightBrace :: text) := by
  intro front middle back hText hGuarded
  rw [List.append_assoc] at hText
  cases front with
  | nil =>
    obtain ⟨rest, rfl, -⟩ := exists_of_append_eq hFirst (List.cons.inj hText).2
    exact hLast (hGuarded first rest rfl)
  | cons b front =>
    obtain ⟨rest, -, rfl⟩ := exists_of_append_eq hFirst (List.cons.inj hText).2
    exact h rest middle back (by simp) hGuarded

theorem behind (h : BracesApart (first ++ second)) : BracesApart second := by
  rintro front middle back rfl
  exact h (first ++ front) middle back (by simp)

theorem front (h : BracesApart (first ++ second)) : BracesApart first := by
  rintro front middle back rfl
  exact h front middle (back ++ second) (by simp)

/-- Nothing that is guarded against right braces behind a left brace holds another one. -/
theorem notMem (h : BracesApart (Byte.leftBrace :: first ++ second))
    (hGuarded : Guarded Byte.rightBrace first) : Byte.leftBrace ∉ first := by
  intro hMem
  obtain ⟨middle, back, rfl⟩ := List.append_of_mem hMem
  exact h [] middle (back ++ second) (by simp) hGuarded.front

theorem of_escape {delimiter : Byte} (hLeft : Byte.leftBrace ≠ delimiter)
    (hRight : Byte.rightBrace ≠ delimiter) (h : BracesApart (escape delimiter text)) :
    BracesApart text := by
  rintro front middle back rfl hGuarded
  refine h (escape delimiter front) (escape delimiter middle) (escape delimiter back) ?_
    (hGuarded.escape hRight (by decide))
  simp [escape, hLeft]

end BracesApart

namespace Template

theorem bracesApart_correspondence (sigil : Sigil) :
    Correspondence id ⟨sigil, false⟩ ⟨sigil, true⟩ BracesApart where
  recoding := recoding_id
  sigil := rfl
  behind := BracesApart.behind
  string := by
    intro written text rest h hWritten
    obtain ⟨rfl, -⟩ := (enclosed_none_iff (by decide)).mp hWritten
    have hFront : BracesApart (Byte.quote :: escape Byte.quote text) := h.front
    have hEscape : BracesApart ([Byte.quote] ++ escape Byte.quote text) := hFront
    exact hEscape.behind.of_escape (by decide) (by decide)
  passage := by
    intro bytes h
    obtain ⟨hBytes, hWritten, -⟩ :=
      (delimited_none_iff (by decide : Byte.rightBrace ≠ Byte.backslash)).mp
        (rfl : delimited Byte.rightBrace none bytes = _)
    have hGuarded := guarded_escape (by decide : Byte.rightBrace ≠ Byte.backslash)
      (delimited Byte.rightBrace none bytes).content
    rw [← hWritten] at hGuarded
    rw [List.map_id, Passage.recode_id]
    apply Passage.scan_of_notMem
    rw [hBytes, ← List.cons_append] at h
    exact h.notMem hGuarded
  body := by
    intro written text rest h hWritten
    apply BracesApart.of_notMem
    rw [(Enclosed.strips (by decide) hWritten).mem_iff (by decide)]
    obtain ⟨rfl, -⟩ := (enclosed_none_iff (by decide)).mp hWritten
    exact h.notMem (guarded_escape (by decide) text)

/-- Where braces do not nest, balanced bodies are read as other bodies are. -/
theorem read_balanced_of_bracesApart (sigil : Sigil) {buffer : Bytes} (h : BracesApart buffer) :
    read ⟨sigil, true⟩ buffer = read ⟨sigil, false⟩ buffer := by
  have hRead := read_recode (bracesApart_correspondence sigil) h
  rwa [List.map_id, Reading.recode_id] at hRead

/-- An escaped right brace in a body, and a pair of braces behind it. -/
theorem read_balanced_of_bracesApart_pairs :
    let buffer : Bytes := [0x23, 0x61, 0x28, 0x29, 0x7B, 0x78, 0x5C, 0x7D, 0x79, 0x7D, 0x7B, 0x7D]
    BracesApart buffer ∧
      read ⟨Sigil.standard, true⟩ buffer = read ⟨Sigil.standard, false⟩ buffer ∧
      (read ⟨Sigil.standard, true⟩ buffer).result =
        .ok [.tag (.identifier "a" ⟨1, 2, 1, 2⟩) [] (some [.raw [0x78, 0x7D, 0x79] ⟨1, 1, 0, 3⟩])
            ⟨1, 1, 0, 10⟩, .raw [0x7B, 0x7D] ⟨1, 11, 10, 12⟩] := by
  have hPair : BracesApart [0x7B, 0x7D] :=
    @BracesApart.group [] [] (by decide) (by decide) (.of_notMem (by decide))
  have hBody : BracesApart [0x7B, 0x78, 0x5C, 0x7D, 0x79, 0x7D, 0x7B, 0x7D] :=
    @BracesApart.group [0x78, 0x5C, 0x7D, 0x79] _ (by decide) (by decide) hPair
  have hBuffer : BracesApart
      [0x23, 0x61, 0x28, 0x29, 0x7B, 0x78, 0x5C, 0x7D, 0x79, 0x7D, 0x7B, 0x7D] :=
    .byte (by decide) (.byte (by decide) (.byte (by decide) (.byte (by decide) hBody)))
  exact ⟨hBuffer, read_balanced_of_bracesApart Sigil.standard hBuffer, by with_unfolding_all rfl⟩

end Template

end TagTemplate
