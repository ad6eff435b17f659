import TagTemplate.Proofs.Escape

/-!
# What a passage reads

A passage ends at the end of the buffer, or at a delimiter that the last byte of its content does
not escape. Without an opener it is the escaped form of its content, and these two facts determine
it.
-/

namespace TagTemplate

namespace Passage

/-- Holds where a passage with this content can end in front of `rest`. -/
def EndsBefore (delimiter : Byte) (content rest : Bytes) : Prop :=
  rest = [] ∨ rest.head? = some delimiter ∧ content.getLast? ≠ some Byte.backslash

/-- The backslash that waits for the byte after it. -/
def pending (escaped : Bool) : Bytes :=
  if escaped then [Byte.backslash] else []

variable {delimiter : Byte}

theorem EndsBefore.of_append (front : Bytes) {content rest : Bytes}
    (h : EndsBefore delimiter (front ++ content) rest) : EndsBefore delimiter content rest := by
  refine h.imp id (fun ⟨hHead, hLast⟩ => ⟨hHead, ?_⟩)
  intro hContent
  rw [List.getLast?_append, hContent] at hLast
  exact hLast rfl

theorem contribution_ne_nil (hDelimiter : delimiter ≠ Byte.backslash) {escaped : Bool} {b : Byte}
    (h : escaped = true ∨ b ≠ Byte.backslash) : contribution delimiter escaped b ≠ [] := by
  by_cases hb : b = Byte.backslash
  · have hEscaped : escaped = true := h.resolve_right (fun hne => hne hb)
    simp [contribution, hb, hEscaped, Ne.symm hDelimiter]
  · simp [contribution, hb]

theorem getLast?_contribution {escaped : Bool} {b : Byte} (hb : b ≠ Byte.backslash) :
    (contribution delimiter escaped b).getLast? = some b := by
  rw [contribution, if_neg hb, List.getLast?_concat]

/-- A backslash right before the passage shows in its content, alone or through the byte that it
escapes. -/
theorem content_ne_nil (hDelimiter : delimiter ≠ Byte.backslash) (opener : Option Byte)
    (depth : Nat) (bytes : Bytes) : (scan delimiter opener true depth bytes).content ≠ [] := by
  cases bytes with
  | nil => simp [scan]
  | cons b rest =>
    rw [scan, if_neg (by simp)]
    exact List.append_ne_nil_of_left_ne_nil (contribution_ne_nil hDelimiter (Or.inl rfl)) _

theorem endsBefore_rest (hDelimiter : delimiter ≠ Byte.backslash) (opener : Option Byte)
    (escaped : Bool) (depth : Nat) (bytes : Bytes) :
    EndsBefore delimiter (scan delimiter opener escaped depth bytes).content
      (scan delimiter opener escaped depth bytes).rest := by
  induction bytes generalizing escaped depth with
  | nil => exact Or.inl rfl
  | cons b rest ih =>
    rw [scan]
    split
    · rename_i hStop
      exact Or.inr ⟨congrArg some hStop.1, by simp⟩
    · refine (ih (b = Byte.backslash) (depthAfter delimiter opener escaped depth b)).imp id ?_
      rintro ⟨hHead, hLast⟩
      refine ⟨hHead, ?_⟩
      rw [List.getLast?_append]
      by_cases hb : b = Byte.backslash
      · have hContent := content_ne_nil hDelimiter opener
          (depthAfter delimiter opener escaped depth b) rest
        rw [← decide_eq_true hb] at hContent
        rwa [List.getLast?_eq_some_getLast hContent, Option.some_or,
          ← List.getLast?_eq_some_getLast hContent]
      · rw [getLast?_contribution hb]
        cases hTail : (scan delimiter opener (b = Byte.backslash)
            (depthAfter delimiter opener escaped depth b) rest).content.getLast? with
        | none => simpa using hb
        | some c => rwa [hTail] at hLast

theorem length_content_le (delimiter : Byte) (opener : Option Byte) (escaped : Bool) (depth : Nat)
    (bytes : Bytes) :
    (scan delimiter opener escaped depth bytes).content.length ≤
      (pending escaped).length + (scan delimiter opener escaped depth bytes).written.length := by
  induction bytes generalizing escaped depth with
  | nil => cases escaped <;> simp [scan, pending]
  | cons b rest ih =>
    rw [scan]
    split
    · exact Nat.zero_le _
    · have hTail := ih (b = Byte.backslash) (depthAfter delimiter opener escaped depth b)
      have hByte : (contribution delimiter escaped b).length +
          (pending (decide (b = Byte.backslash))).length ≤ (pending escaped).length + 1 := by
        by_cases hb : b = Byte.backslash <;> cases escaped <;> simp [contribution, pending, hb] <;>
          split <;> simp
      simp only [List.length_append, List.length_cons]
      omega

theorem contribution_backslash (hDelimiter : delimiter ≠ Byte.backslash) (escaped : Bool) :
    contribution delimiter escaped Byte.backslash = pending escaped := by
  simp [contribution, pending, Ne.symm hDelimiter]

theorem contribution_append_pending {b : Byte} (hb : b ≠ delimiter) (escaped : Bool) :
    contribution delimiter escaped b ++ pending (b = Byte.backslash) = pending escaped ++ [b] := by
  by_cases hBackslash : b = Byte.backslash
  · subst hBackslash
    cases escaped <;> simp [contribution, pending, hb]
  · cases escaped <;> simp [contribution, pending, hb, hBackslash]

theorem escape_contribution (hDelimiter : delimiter ≠ Byte.backslash) {escaped : Bool} {b : Byte}
    (hb : b ≠ Byte.backslash) (h : ¬(b = delimiter ∧ escaped = false)) (content : Bytes) :
    escape delimiter (contribution delimiter escaped b ++ content) =
      pending escaped ++ b :: escape delimiter content := by
  by_cases hb' : b = delimiter
  · subst hb'
    have hEscaped : escaped = true := by simpa using h
    simp [pending, contribution, hb, hEscaped]
  · have hEscape := escape_cons_of_ne hb' content
    cases escaped with
    | false => simp [pending, contribution, hb, hEscape]
    | true => simp [pending, contribution, hb, hb', Ne.symm hDelimiter, hEscape]

/-- One byte of a passage without an opener, for which no depth builds up. -/
theorem scan_cons {escaped : Bool} {b : Byte} (h : ¬(b = delimiter ∧ escaped = false))
    (bytes : Bytes) :
    scan delimiter none escaped 0 (b :: bytes) =
      ⟨b :: (scan delimiter none (b = Byte.backslash) 0 bytes).written,
        contribution delimiter escaped b ++
          (scan delimiter none (b = Byte.backslash) 0 bytes).content,
        (scan delimiter none (b = Byte.backslash) 0 bytes).rest⟩ := by
  have hDepth : depthAfter delimiter none escaped 0 b = 0 := by simp [depthAfter]
  rw [scan, if_neg (fun hStop => h ⟨hStop.1, hStop.2.1⟩), hDepth]

/-- What stands in the buffer is the escaped form of what it says. -/
theorem pending_append_written (hDelimiter : delimiter ≠ Byte.backslash) (escaped : Bool)
    (bytes : Bytes) :
    pending escaped ++ (scan delimiter none escaped 0 bytes).written =
      escape delimiter (scan delimiter none escaped 0 bytes).content := by
  have hBackslash := escape_cons_of_ne (Ne.symm hDelimiter)
  induction bytes generalizing escaped with
  | nil => cases escaped <;> simp [scan, pending, hBackslash]
  | cons b bytes ih =>
    by_cases hStop : b = delimiter ∧ escaped = false
    · simp [scan, hStop.1, hStop.2, pending]
    · have hTail := ih (b = Byte.backslash)
      rw [scan_cons hStop]
      by_cases hb : b = Byte.backslash
      · rw [decide_eq_true hb] at hTail ⊢
        rw [hb, contribution_backslash hDelimiter]
        cases escaped with
        | false => exact hTail
        | true => exact (congrArg (Byte.backslash :: ·) hTail).trans (hBackslash _).symm
      · rw [decide_eq_false hb] at hTail ⊢
        rw [escape_contribution hDelimiter hb hStop]
        exact congrArg (pending escaped ++ b :: ·) hTail

/-- An escaped text is found again in front of all that it can end before. -/
theorem scan_escape (hDelimiter : delimiter ≠ Byte.backslash) (escaped : Bool)
    (content rest : Bytes) (hRest : EndsBefore delimiter (pending escaped ++ content) rest) :
    scan delimiter none escaped 0 (escape delimiter content ++ rest) =
      ⟨escape delimiter content, pending escaped ++ content, rest⟩ := by
  induction content generalizing escaped with
  | nil =>
    rcases hRest with rfl | ⟨hHead, hLast⟩
    · cases escaped <;> simp [scan, pending]
    · obtain ⟨tail, rfl⟩ := List.head?_eq_some_iff.mp hHead
      cases escaped with
      | true => simp [pending] at hLast
      | false => simp [scan, pending]
  | cons b content ih =>
    by_cases hb : b = delimiter
    · subst hb
      have hTail : EndsBefore b (pending false ++ content) rest :=
        EndsBefore.of_append (pending escaped ++ [b]) (by simpa [pending] using hRest)
      rw [escape_cons_self, List.cons_append, List.cons_append,
        scan_cons (fun h => hDelimiter h.1.symm), contribution_backslash hDelimiter,
        decide_eq_true rfl, scan_cons (by simp), decide_eq_false hDelimiter, ih false hTail]
      simp [contribution, pending, hDelimiter]
    · have hTail : EndsBefore delimiter (pending (b = Byte.backslash) ++ content) rest := by
        apply EndsBefore.of_append (contribution delimiter escaped b)
        rw [← List.append_assoc, contribution_append_pending hb]
        simpa using hRest
      rw [escape_cons_of_ne hb, List.cons_append, scan_cons (fun h => hb h.1), ih _ hTail,
        ← List.append_assoc, contribution_append_pending hb, List.append_assoc,
        List.singleton_append]

end Passage

/-- Without an opener, a passage is what stands in front of a place where the content that it
spells can end. -/
theorem delimited_none_iff {delimiter : Byte} (hDelimiter : delimiter ≠ Byte.backslash)
    {bytes : Bytes} {p : Passage} :
    delimited delimiter none bytes = p ↔
      bytes = p.written ++ p.rest ∧ p.written = escape delimiter p.content ∧
        Passage.EndsBefore delimiter p.content p.rest := by
  constructor
  · rintro rfl
    exact ⟨(delimited_written_append_rest delimiter none bytes).symm,
      Passage.pending_append_written hDelimiter false bytes,
      Passage.endsBefore_rest hDelimiter none false 0 bytes⟩
  · obtain ⟨written, content, rest⟩ := p
    rintro ⟨rfl, hWritten, hRest⟩
    dsimp only at hWritten hRest ⊢
    rw [hWritten]
    exact Passage.scan_escape hDelimiter false content rest hRest

/-- Holds where `written` in front of its delimiter is a passage that says `text`. -/
def Enclosed (delimiter : Byte) (opener : Option Byte) (written text : Bytes) : Prop :=
  delimited delimiter opener (written ++ [delimiter]) = ⟨written, text, [delimiter]⟩

/-- A passage that ends at a delimiter does not depend on what follows that. -/
theorem Passage.scan_append_delimiter {delimiter : Byte} {opener : Option Byte} {escaped : Bool}
    {depth : Nat} {written rest : Bytes}
    (h : (scan delimiter opener escaped depth (written ++ delimiter :: rest)).written = written)
    (rest' : Bytes) :
    scan delimiter opener escaped depth (written ++ delimiter :: rest') =
      ⟨written, (scan delimiter opener escaped depth (written ++ delimiter :: rest)).content,
        delimiter :: rest'⟩ := by
  induction written generalizing escaped depth with
  | nil =>
    rw [List.nil_append, scan] at h
    split at h
    · rename_i hStop
      rw [List.nil_append, List.nil_append, scan, scan, if_pos hStop, if_pos hStop]
    · cases h
  | cons b written ih =>
    rw [List.cons_append, scan] at h
    split at h
    · cases h
    · rename_i hStop
      rw [List.cons_append, List.cons_append, scan, scan, if_neg hStop, if_neg hStop,
        ih (List.cons.inj h).2]

theorem delimited_append_delimiter {delimiter : Byte} {opener : Option Byte}
    {written text rest : Bytes}
    (h : delimited delimiter opener (written ++ delimiter :: rest) =
      ⟨written, text, delimiter :: rest⟩) (rest' : Bytes) :
    delimited delimiter opener (written ++ delimiter :: rest') =
      ⟨written, text, delimiter :: rest'⟩ := by
  have hWritten :
      (delimited delimiter opener (written ++ delimiter :: rest)).written = written := by
    rw [h]
  have hScan := Passage.scan_append_delimiter hWritten rest'
  change delimited delimiter opener _ = ⟨_, (delimited delimiter opener _).content, _⟩ at hScan
  rwa [h] at hScan

/-- Of what follows a passage, only the first byte counts. -/
theorem delimited_of_head? {delimiter : Byte} (hDelimiter : delimiter ≠ Byte.backslash)
    {opener : Option Byte} {written text rest rest' : Bytes}
    (h : delimited delimiter opener (written ++ rest) = ⟨written, text, rest⟩)
    (hHead : rest'.head? = rest.head?) :
    delimited delimiter opener (written ++ rest') = ⟨written, text, rest'⟩ := by
  have hEnd := Passage.endsBefore_rest hDelimiter opener false 0 (written ++ rest)
  change Passage.EndsBefore delimiter (delimited delimiter opener _).content
    (delimited delimiter opener _).rest at hEnd
  rw [h] at hEnd
  rcases hEnd with hNil | ⟨hDelimited, -⟩
  · have hRest : rest = [] := hNil
    rw [hRest, List.head?_nil, List.head?_eq_none_iff] at hHead
    rw [hRest] at h
    rw [hHead]
    exact h
  · obtain ⟨tail, hTail⟩ := List.head?_eq_some_iff.mp hDelimited
    have hRest : rest = delimiter :: tail := hTail
    rw [hRest, List.head?_cons] at hHead
    obtain ⟨tail', rfl⟩ := List.head?_eq_some_iff.mp hHead
    rw [hRest] at h
    exact delimited_append_delimiter h tail'

theorem enclosed_iff {delimiter : Byte} {opener : Option Byte} {written text : Bytes}
    (rest : Bytes) :
    Enclosed delimiter opener written text ↔
      delimited delimiter opener (written ++ delimiter :: rest) =
        ⟨written, text, delimiter :: rest⟩ :=
  ⟨fun h => delimited_append_delimiter h rest, fun h => delimited_append_delimiter h []⟩

theorem enclosed_none_iff {delimiter : Byte} (hDelimiter : delimiter ≠ Byte.backslash)
    {written text : Bytes} :
    Enclosed delimiter none written text ↔
      written = escape delimiter text ∧ text.getLast? ≠ some Byte.backslash := by
  rw [Enclosed, delimited_none_iff hDelimiter]
  constructor
  · rintro ⟨-, hWritten, hEnd⟩
    exact ⟨hWritten, (hEnd.resolve_left (List.cons_ne_nil _ _)).2⟩
  · rintro ⟨hWritten, hLast⟩
    exact ⟨rfl, hWritten, Or.inr ⟨rfl, hLast⟩⟩

/-- What stands between delimiters says a text that does not end in a backslash. -/
theorem Enclosed.getLast?_ne {delimiter : Byte} (hDelimiter : delimiter ≠ Byte.backslash)
    {opener : Option Byte} {written text : Bytes} (h : Enclosed delimiter opener written text) :
    text.getLast? ≠ some Byte.backslash := by
  have hEnd := Passage.endsBefore_rest hDelimiter opener false 0 (written ++ [delimiter])
  change Passage.EndsBefore delimiter (delimited delimiter opener _).content
    (delimited delimiter opener _).rest at hEnd
  rw [h] at hEnd
  exact (hEnd.resolve_left (List.cons_ne_nil _ _)).2

theorem length_content_delimited_le (delimiter : Byte) (opener : Option Byte) (bytes : Bytes) :
    (delimited delimiter opener bytes).content.length ≤
      (delimited delimiter opener bytes).written.length := by
  have h := Passage.length_content_le delimiter opener false 0 bytes
  rwa [show (Passage.pending false).length = 0 from rfl, Nat.zero_add] at h

theorem Enclosed.length_le {delimiter : Byte} {opener : Option Byte} {written text : Bytes}
    (h : Enclosed delimiter opener written text) : text.length ≤ written.length := by
  have hLe := length_content_delimited_le delimiter opener (written ++ [delimiter])
  rwa [h] at hLe

/-- A text is shorter than the run that encloses it. -/
theorem Enclosed.length_lt {delimiter : Byte} {opener : Option Byte} {written text : Bytes}
    (h : Enclosed delimiter opener written text) (b : Byte) :
    text.length < (b :: written ++ [delimiter]).length := by
  have hLe := h.length_le
  rw [List.length_append, List.length_cons]
  omega

/-- A passage without openers ends where it would end if they did not count. -/
theorem Passage.scan_of_notMem {delimiter b : Byte} {escaped : Bool} {bytes : Bytes}
    (h : b ∉ (scan delimiter none escaped 0 bytes).written) :
    scan delimiter (some b) escaped 0 bytes = scan delimiter none escaped 0 bytes := by
  induction bytes generalizing escaped with
  | nil => rfl
  | cons c bytes ih =>
    rw [scan, scan]
    rw [scan] at h
    split
    · rfl
    · rename_i hGoes
      rw [if_neg hGoes] at h
      have hNone : depthAfter delimiter none escaped 0 c = 0 := by
        unfold depthAfter
        split <;> simp
      rw [List.mem_cons, not_or] at h
      obtain ⟨hb, hTail⟩ := h
      have hSome : depthAfter delimiter (some b) escaped 0 c = 0 := by
        rw [depthAfter, if_neg fun hStop => hGoes ⟨hStop.1, hStop.2, rfl⟩,
          if_neg fun hOpener => hb (Option.some.inj hOpener)]
      rw [hNone] at hTail ⊢
      rw [hSome, ih hTail]

theorem Enclosed.text_eq {delimiter : Byte} {opener : Option Byte} {written text text' : Bytes}
    (h : Enclosed delimiter opener written text) (h' : Enclosed delimiter opener written text') :
    text = text' :=
  congrArg Passage.content (h.symm.trans h')

/-- Without openers in it, an enclosed text is an escaped one. -/
theorem Enclosed.written_eq {delimiter b : Byte} (hDelimiter : delimiter ≠ Byte.backslash)
    (hb : b ≠ delimiter) {written text : Bytes} (h : Enclosed delimiter (some b) written text)
    (hWritten : b ∉ written) : written = escape delimiter text := by
  have hScan : delimited delimiter (some b) (written ++ [delimiter]) =
      delimited delimiter none (written ++ [delimiter]) := by
    apply Passage.scan_of_notMem
    intro hMem
    have hBytes := delimited_written_append_rest delimiter none (written ++ [delimiter])
    have hAll : b ∈ written ++ [delimiter] := hBytes ▸ List.mem_append_left _ hMem
    simp [hWritten, hb] at hAll
  have hNone : Enclosed delimiter none written text := hScan.symm.trans h
  exact ((enclosed_none_iff hDelimiter).mp hNone).1

end TagTemplate
