import Mathlib.Data.List.TakeWhile
import TagTemplate.Proofs.Passage
import TagTemplate.Template.Scan

/-!
# How scans end

A scan gives a value or fails, and stops at a cursor. Both judgements are determined step by
step: for each primitive and each way of joining scans there is one characterisation, in terms of
the text between the cursor where the scan starts and the one where it stops. Events play no part
in them.
-/

namespace TagTemplate

namespace Cursor

/-- Holds where `text` lies between two cursors over one buffer. -/
structure Reads (c : Cursor) (text : Bytes) (c' : Cursor) : Prop where
  rest : c.rest = text ++ c'.rest
  position : c'.position = c.position.advance text

theorem Reads.refl (c : Cursor) : c.Reads [] c := ⟨rfl, rfl⟩

theorem Reads.trans {c c' c'' : Cursor} {text text' : Bytes} (h : c.Reads text c')
    (h' : c'.Reads text' c'') : c.Reads (text ++ text') c'' where
  rest := by rw [h.rest, h'.rest, List.append_assoc]
  position := by rw [h'.position, h.position, Position.advance_append]

theorem reads_append_iff {c c'' : Cursor} {text text' : Bytes} :
    c.Reads (text ++ text') c'' ↔ ∃ c', c.Reads text c' ∧ c'.Reads text' c'' := by
  constructor
  · intro h
    refine ⟨⟨c.position.advance text, text' ++ c''.rest⟩, ⟨?_, rfl⟩, ⟨rfl, ?_⟩⟩
    · rw [h.rest, List.append_assoc]
    · rw [h.position, Position.advance_append]
  · rintro ⟨c', h, h'⟩
    exact h.trans h'

theorem reads_cons_iff {c c'' : Cursor} {b : Byte} {text : Bytes} :
    c.Reads (b :: text) c'' ↔ ∃ c', c.Reads [b] c' ∧ c'.Reads text c'' :=
  @reads_append_iff c c'' [b] text

theorem reads_start (buffer : Bytes) :
    (start buffer).Reads buffer ⟨Position.origin.advance buffer, []⟩ :=
  ⟨(List.append_nil buffer).symm, rfl⟩

theorem Reads.eq {c c' : Cursor} {text : Bytes} (h : c.Reads text c') :
    c' = ⟨c.position.advance text, c'.rest⟩ := by
  obtain ⟨p, rest⟩ := c'
  exact congrArg (Cursor.mk · rest) h.position

theorem skip_length_eq {c : Cursor} {text rest : Bytes} (h : c.rest = text ++ rest) :
    c.skip text.length = ⟨c.position.advance text, rest⟩ := by
  rw [skip, h, List.take_left, List.drop_left]

theorem reads_skip_length {c : Cursor} {text rest : Bytes} (h : c.rest = text ++ rest) :
    c.Reads text (c.skip text.length) := by
  rw [skip_length_eq h]
  exact ⟨h, rfl⟩

theorem Reads.skip_eq {c c' : Cursor} {text : Bytes} (h : c.Reads text c') :
    c.skip text.length = c' := by
  rw [skip_length_eq h.rest, ← h.eq]

theorem exists_reads {c : Cursor} {text rest : Bytes} (h : c.rest = text ++ rest) :
    ∃ c', c.Reads text c' ∧ c'.rest = rest :=
  ⟨⟨c.position.advance text, rest⟩, ⟨h, rfl⟩, rfl⟩

theorem Reads.length_eq {c c' : Cursor} {text : Bytes} (h : c.Reads text c') :
    c.rest.length = text.length + c'.rest.length := by
  rw [h.rest, List.length_append]

theorem Reads.text_eq {c c' : Cursor} {text text' : Bytes} (h : c.Reads text c')
    (h' : c.Reads text' c') : text = text' := by
  apply List.append_cancel_right
  exact h.rest.symm.trans h'.rest

theorem reads_nil_iff {c c' : Cursor} : c.Reads [] c' ↔ c' = c := by
  constructor
  · intro h
    exact h.skip_eq.symm.trans (Reads.refl c).skip_eq
  · rintro rfl
    exact Reads.refl c'

theorem Reads.isEmpty_iff {c c' : Cursor} {text : Bytes} (h : c.Reads text c') :
    (c.position.to c'.position).isEmpty = true ↔ text = [] := by
  rw [Source.isEmpty, decide_eq_true_iff, Position.to, h.position, Position.offset_advance,
    ← List.length_eq_zero_iff]
  dsimp only
  omega

theorem Reads.peek_eq {c c' : Cursor} {b : Byte} {text : Bytes} (h : c.Reads (b :: text) c') :
    c.peek = some b := by
  rw [peek, h.rest, List.cons_append, List.head?_cons]

/-- A byte that a run does not take ends it. -/
theorem stops_of_peek {p : Byte → Bool} {c : Cursor} {b : Byte} (hPeek : c.peek = some b)
    (hb : p b = false) : ∀ b', c.peek = some b' → p b' = false := by
  intro b' hb'
  rw [hPeek] at hb'
  exact Option.some.inj hb' ▸ hb

end Cursor

/-- Holds of the runs of spaces. -/
def Blank (gap : Bytes) : Prop :=
  ∀ b ∈ gap, b = Byte.space

theorem blank_nil : Blank [] := List.forall_mem_nil _

theorem Blank.append {gap gap' : Bytes} (h : Blank gap) (h' : Blank gap') : Blank (gap ++ gap') :=
  fun b hb => (List.mem_append.mp hb).elim (h b) (h' b)

theorem Blank.eq_nil_of_append {gap front back : Bytes} {b : Byte} (h : Blank gap)
    (hb : b ≠ Byte.space) (hFront : b :: front = gap ++ back) : gap = [] ∧ b :: front = back := by
  cases gap with
  | nil => exact ⟨rfl, hFront⟩
  | cons c gap =>
    obtain ⟨rfl, -⟩ := List.cons.inj hFront
    exact absurd (h b List.mem_cons_self) hb

/-- What is next before a gap is a space, or what is next behind it. -/
theorem Blank.peek_of_reads {gap : Bytes} {c c' : Cursor} (h : Blank gap) (hRead : c.Reads gap c') :
    c.peek = some Byte.space ∨ c.peek = c'.peek := by
  cases gap with
  | nil =>
    obtain rfl := Cursor.reads_nil_iff.mp hRead
    exact Or.inr rfl
  | cons b gap =>
    obtain rfl := h b List.mem_cons_self
    exact Or.inl hRead.peek_eq

namespace Scan

variable {α β : Type}

/-- Holds where the scan gives `a` and stops at `c'`. -/
def Gives (s : Scan α) (c : Cursor) (a : α) (c' : Cursor) : Prop :=
  (s c).outcome = .ok a ∧ (s c).cursor = c'

/-- Holds where the scan fails with `e` and stops at `c'`. -/
def Fails (s : Scan α) (c : Cursor) (e : Failure) (c' : Cursor) : Prop :=
  (s c).outcome = .error e ∧ (s c).cursor = c'

theorem Gives.eq {s : Scan α} {c c' c'' : Cursor} {a a' : α} (h : Gives s c a c')
    (h' : Gives s c a' c'') : a = a' ∧ c' = c'' :=
  ⟨Except.ok.inj (h.1.symm.trans h'.1), h.2.symm.trans h'.2⟩

theorem Fails.eq {s : Scan α} {c c' c'' : Cursor} {e e' : Failure} (h : Fails s c e c')
    (h' : Fails s c e' c'') : e = e' ∧ c' = c'' :=
  ⟨Except.error.inj (h.1.symm.trans h'.1), h.2.symm.trans h'.2⟩

theorem Fails.not_gives {s : Scan α} {c c' c'' : Cursor} {e : Failure} {a : α}
    (h : Fails s c e c') : ¬Gives s c a c'' :=
  fun h' => nomatch h.1.symm.trans h'.1

theorem bind_of_gives {s : Scan α} {c c' : Cursor} {a : α} (h : Gives s c a c')
    (f : α → Scan β) : (s >>= f) c = (f a c').after (s c).trace := by
  obtain ⟨hOutcome, rfl⟩ := h
  change Scan.bind s f c = _
  unfold Scan.bind
  generalize s c = step at hOutcome ⊢
  obtain ⟨outcome, c', trace⟩ := step
  subst hOutcome
  rfl

theorem bind_of_fails {s : Scan α} {c c' : Cursor} {e : Failure} (h : Fails s c e c')
    (f : α → Scan β) : (s >>= f) c = ⟨.error e, c', (s c).trace⟩ := by
  obtain ⟨hOutcome, rfl⟩ := h
  change Scan.bind s f c = _
  unfold Scan.bind
  generalize s c = step at hOutcome ⊢
  obtain ⟨outcome, c', trace⟩ := step
  subst hOutcome
  rfl

theorem gives_or_fails (s : Scan α) (c : Cursor) :
    (∃ a, Gives s c a (s c).cursor) ∨ ∃ e, Fails s c e (s c).cursor := by
  cases h : (s c).outcome with
  | ok a => exact Or.inl ⟨a, h, rfl⟩
  | error e => exact Or.inr ⟨e, h, rfl⟩

theorem gives_bind_iff {s : Scan α} {f : α → Scan β} {c c'' : Cursor} {b : β} :
    Gives (s >>= f) c b c'' ↔ ∃ a c', Gives s c a c' ∧ Gives (f a) c' b c'' := by
  constructor
  · intro h
    rcases gives_or_fails s c with ⟨a, ha⟩ | ⟨e, he⟩
    · refine ⟨a, _, ha, ?_⟩
      rw [Gives, bind_of_gives ha] at h
      exact h
    · rw [Gives, bind_of_fails he] at h
      cases h.1
  · rintro ⟨a, c', ha, hb⟩
    rw [Gives, bind_of_gives ha]
    exact hb

theorem fails_bind_iff {s : Scan α} {f : α → Scan β} {c c'' : Cursor} {e : Failure} :
    Fails (s >>= f) c e c'' ↔
      Fails s c e c'' ∨ ∃ a c', Gives s c a c' ∧ Fails (f a) c' e c'' := by
  constructor
  · intro h
    rcases gives_or_fails s c with ⟨a, ha⟩ | ⟨e', he⟩
    · rw [Fails, bind_of_gives ha] at h
      exact Or.inr ⟨a, _, ha, h⟩
    · rw [Fails, bind_of_fails he] at h
      obtain ⟨hOutcome, hCursor⟩ := h
      cases hOutcome
      exact Or.inl ⟨he.1, hCursor⟩
  · rintro (he | ⟨a, c', ha, he⟩)
    · rw [Fails, bind_of_fails he]
      exact ⟨rfl, rfl⟩
    · rw [Fails, bind_of_gives ha]
      exact he

theorem fails_bind_of_fails {s : Scan α} {f : α → Scan β} {c c' : Cursor} {e : Failure}
    (h : Fails s c e c') : Fails (s >>= f) c e c' :=
  fails_bind_iff.mpr (Or.inl h)

theorem fails_bind_of_gives {s : Scan α} {f : α → Scan β} {c c' c'' : Cursor} {a : α}
    {e : Failure} (h : Gives s c a c') (h' : Fails (f a) c' e c'') : Fails (s >>= f) c e c'' :=
  fails_bind_iff.mpr (Or.inr ⟨a, c', h, h'⟩)

theorem gives_pure_iff {a b : α} {c c' : Cursor} :
    Gives (pure a : Scan α) c b c' ↔ b = a ∧ c' = c := by
  constructor
  · rintro ⟨hOutcome, rfl⟩
    exact ⟨(Except.ok.inj hOutcome).symm, rfl⟩
  · rintro ⟨rfl, rfl⟩
    exact ⟨rfl, rfl⟩

theorem not_fails_pure {a : α} {e : Failure} {c c' : Cursor} :
    ¬Fails (pure a : Scan α) c e c' := by
  rintro ⟨hOutcome, -⟩
  cases hOutcome

theorem gives_map_iff {s : Scan α} {f : α → β} {c c' : Cursor} {b : β} :
    Gives (f <$> s) c b c' ↔ ∃ a, Gives s c a c' ∧ b = f a := by
  change Gives (s >>= fun a => pure (f a)) c b c' ↔ _
  rw [gives_bind_iff]
  constructor
  · rintro ⟨a, d, ha, hb⟩
    obtain ⟨rfl, rfl⟩ := gives_pure_iff.mp hb
    exact ⟨a, ha, rfl⟩
  · rintro ⟨a, ha, rfl⟩
    exact ⟨a, c', ha, gives_pure_iff.mpr ⟨rfl, rfl⟩⟩

theorem fails_map_iff {s : Scan α} {f : α → β} {c c' : Cursor} {e : Failure} :
    Fails (f <$> s) c e c' ↔ Fails s c e c' := by
  change Fails (s >>= fun a => pure (f a)) c e c' ↔ _
  rw [fails_bind_iff]
  constructor
  · rintro (h | ⟨a, d, -, h⟩)
    · exact h
    · exact absurd h not_fails_pure
  · exact Or.inl

theorem not_gives_fail {fault : Fault} {a : α} {c c' : Cursor} :
    ¬Gives (fail fault : Scan α) c a c' := by
  rintro ⟨hOutcome, -⟩
  cases hOutcome

theorem gives_position_iff {p : Position} {c c' : Cursor} :
    Gives position c p c' ↔ p = c.position ∧ c' = c :=
  ⟨fun ⟨hOutcome, hCursor⟩ => ⟨(Except.ok.inj hOutcome).symm, hCursor.symm⟩,
    fun ⟨hPosition, hCursor⟩ => ⟨congrArg Except.ok hPosition.symm, hCursor.symm⟩⟩

theorem gives_peek_iff {b : Option Byte} {c c' : Cursor} :
    Gives peek c b c' ↔ b = c.peek ∧ c' = c :=
  ⟨fun ⟨hOutcome, hCursor⟩ => ⟨(Except.ok.inj hOutcome).symm, hCursor.symm⟩,
    fun ⟨hByte, hCursor⟩ => ⟨congrArg Except.ok hByte.symm, hCursor.symm⟩⟩

theorem gives_peek (c : Cursor) : Gives peek c c.peek c := ⟨rfl, rfl⟩

theorem gives_pop_iff {b : Byte} {c c' : Cursor} : Gives pop c b c' ↔ c.Reads [b] c' := by
  obtain ⟨p, rest⟩ := c
  cases rest with
  | nil =>
    constructor
    · rintro ⟨hOutcome, -⟩
      cases hOutcome
    · rintro ⟨hRest, -⟩
      cases hRest
  | cons a rest =>
    constructor
    · rintro ⟨hOutcome, rfl⟩
      cases hOutcome
      exact ⟨rfl, rfl⟩
    · intro h
      obtain ⟨hByte, hRest⟩ := List.cons.inj h.rest
      have hRest' : c'.rest = rest := hRest.symm
      rw [h.eq, hRest', hByte]
      exact ⟨rfl, rfl⟩

theorem gives_discard_iff {s : Scan α} {c c' : Cursor} {u : PUnit} :
    Gives (discard s) c u c' ↔ ∃ a, Gives s c a c' := by
  change Gives ((fun _ => PUnit.unit) <$> s) c u c' ↔ _
  rw [gives_map_iff]
  exact ⟨fun ⟨a, ha, _⟩ => ⟨a, ha⟩, fun ⟨a, ha⟩ => ⟨a, ha, rfl⟩⟩

theorem gives_expect_iff {b : Byte} {u : Unit} {c c' : Cursor} :
    Gives (expect b) c u c' ↔ c.Reads [b] c' := by
  rw [expect, gives_bind_iff]
  constructor
  · rintro ⟨a, d, hPeek, h⟩
    obtain ⟨rfl, rfl⟩ := gives_peek_iff.mp hPeek
    split at h
    · exact absurd h not_gives_fail
    · rename_i actual hActual
      split at h
      · rename_i hByte
        obtain ⟨a, ha⟩ := gives_discard_iff.mp h
        have hRead := gives_pop_iff.mp ha
        have hSame : some a = some actual := hRead.peek_eq.symm.trans hActual
        rwa [Option.some.inj hSame, hByte] at hRead
      · exact absurd h not_gives_fail
  · intro h
    refine ⟨c.peek, c, gives_peek_iff.mpr ⟨rfl, rfl⟩, ?_⟩
    rw [h.peek_eq]
    simp only [if_true]
    exact gives_discard_iff.mpr ⟨b, gives_pop_iff.mpr h⟩

theorem gives_expect {b : Byte} {c c' : Cursor} (h : c.Reads [b] c') : Gives (expect b) c () c' :=
  gives_expect_iff.mpr h

theorem gives_run_iff {p : Byte → Bool} {text : Bytes} {c c' : Cursor} :
    Gives (run p) c text c' ↔
      c.Reads text c' ∧ (∀ b ∈ text, p b = true) ∧ ∀ b, c'.peek = some b → p b = false := by
  have hSplit : c.rest = c.rest.takeWhile p ++ c.rest.dropWhile p :=
    List.takeWhile_append_dropWhile.symm
  constructor
  · rintro ⟨hOutcome, rfl⟩
    cases hOutcome
    refine ⟨Cursor.reads_skip_length hSplit, fun b hb => List.mem_takeWhile_imp hb, ?_⟩
    intro b hb
    have hNext := List.head?_dropWhile_not p c.rest
    change (c.skip (c.rest.takeWhile p).length).rest.head? = some b at hb
    rw [Cursor.skip_length_eq hSplit] at hb
    rwa [hb] at hNext
  · rintro ⟨hRead, hText, hNext⟩
    have hTaken : c.rest.takeWhile p = text := by
      rw [hRead.rest, List.takeWhile_append_of_pos hText]
      cases hRest : c'.rest with
      | nil => exact List.append_nil text
      | cons b rest =>
        have hb : p b = false := hNext b (by rw [Cursor.peek, hRest]; rfl)
        rw [List.takeWhile_cons_of_neg (by simp [hb]), List.append_nil]
    refine ⟨congrArg Except.ok hTaken, ?_⟩
    change c.skip (c.rest.takeWhile p).length = c'
    rw [hTaken]
    exact hRead.skip_eq

theorem gives_skipSpaces_iff {u : Unit} {c c' : Cursor} :
    Gives skipSpaces c u c' ↔
      ∃ gap, c.Reads gap c' ∧ Blank gap ∧ c'.peek ≠ some Byte.space := by
  rw [skipSpaces, gives_discard_iff]
  constructor
  · rintro ⟨gap, h⟩
    obtain ⟨hRead, hGap, hNext⟩ := gives_run_iff.mp h
    refine ⟨gap, hRead, fun b hb => of_decide_eq_true (hGap b hb), ?_⟩
    intro hSpace
    exact of_decide_eq_false (hNext Byte.space hSpace) rfl
  · rintro ⟨gap, hRead, hGap, hNext⟩
    refine ⟨gap, gives_run_iff.mpr ⟨hRead, fun b hb => decide_eq_true (hGap b hb), ?_⟩⟩
    intro b hb
    apply decide_eq_false
    rintro rfl
    exact hNext hb

theorem gives_upTo_iff {delimiter : Byte} {opener : Option Byte} {text : Bytes} {c c' : Cursor} :
    Gives (upTo delimiter opener) c text c' ↔
      ∃ written, c.Reads written c' ∧
        delimited delimiter opener c.rest = ⟨written, text, c'.rest⟩ := by
  have hSplit : c.rest = (delimited delimiter opener c.rest).written ++
      (delimited delimiter opener c.rest).rest :=
    (delimited_written_append_rest delimiter opener c.rest).symm
  constructor
  · rintro ⟨hOutcome, rfl⟩
    cases hOutcome
    refine ⟨_, Cursor.reads_skip_length hSplit, ?_⟩
    change _ = Passage.mk _ _ (c.skip (delimited delimiter opener c.rest).written.length).rest
    rw [Cursor.skip_length_eq hSplit]
  · rintro ⟨written, hRead, h⟩
    refine ⟨by rw [upTo, h], ?_⟩
    change c.skip (delimited delimiter opener c.rest).written.length = c'
    rw [h]
    exact hRead.skip_eq

/-- Without an opener, the text that an escaped form spells. -/
theorem gives_upTo_none_iff {delimiter : Byte} (hDelimiter : delimiter ≠ Byte.backslash)
    {text : Bytes} {c c' : Cursor} :
    Gives (upTo delimiter none) c text c' ↔
      c.Reads (escape delimiter text) c' ∧ Passage.EndsBefore delimiter text c'.rest := by
  rw [gives_upTo_iff]
  constructor
  · rintro ⟨written, hRead, h⟩
    obtain ⟨-, hWritten, hEnd⟩ := (delimited_none_iff hDelimiter).mp h
    dsimp only at hWritten hEnd
    exact ⟨hWritten ▸ hRead, hEnd⟩
  · rintro ⟨hRead, hEnd⟩
    exact ⟨_, hRead, (delimited_none_iff hDelimiter).mpr ⟨hRead.rest, rfl, hEnd⟩⟩

/-- Escaping and reading up to a delimiter undo each other. An escaped text is read back in front of
a delimiter, unless it ends in a backslash, and at the end of a buffer in any case, and whatever is
taken on the way to one of these places is an escaped text. -/
theorem upTo_escape {delimiter : Byte} (hDelimiter : delimiter ≠ Byte.backslash) (c : Cursor) :
    (∀ text rest, c.rest = escape delimiter text ++ delimiter :: rest →
        text.getLast? ≠ some Byte.backslash →
          ∃ c', Gives (upTo delimiter none) c text c' ∧ c.Reads (escape delimiter text) c' ∧
            c'.rest = delimiter :: rest) ∧
      (∀ text, c.rest = escape delimiter text →
        ∃ c', Gives (upTo delimiter none) c text c' ∧ c.Reads (escape delimiter text) c' ∧
          c'.rest = []) ∧
      (∃ text c', Gives (upTo delimiter none) c text c') ∧
      ∀ text c' written, Gives (upTo delimiter none) c text c' → c.Reads written c' →
        written = escape delimiter text ∧
          (c'.rest = [] ∨ c'.peek = some delimiter ∧ written.getLast? ≠ some Byte.backslash) := by
  refine ⟨fun text rest hRest hLast => ?_, fun text hRest => ?_, ⟨_, _, rfl, rfl⟩,
    fun text c' written hGives hWritten => ?_⟩
  · obtain ⟨c', hRead, hDelimited⟩ := Cursor.exists_reads hRest
    have hEnd : Passage.EndsBefore delimiter text c'.rest :=
      Or.inr ⟨by rw [hDelimited, List.head?_cons], hLast⟩
    exact ⟨c', (gives_upTo_none_iff hDelimiter).mpr ⟨hRead, hEnd⟩, hRead, hDelimited⟩
  · obtain ⟨c', hRead, hNil⟩ := Cursor.exists_reads (hRest.trans (List.append_nil _).symm)
    exact ⟨c', (gives_upTo_none_iff hDelimiter).mpr ⟨hRead, Or.inl hNil⟩, hRead, hNil⟩
  · obtain ⟨hRead, hEnd⟩ := (gives_upTo_none_iff hDelimiter).mp hGives
    obtain rfl := hWritten.text_eq hRead
    rw [getLast?_escape]
    exact ⟨rfl, hEnd⟩

/-- A run of backslashes in front of a quote and another one in front of a letter. -/
theorem upTo_escape_backslashes :
    ∃ c', Gives (upTo Byte.quote none)
        (Cursor.start [0x61, 0x5C, 0x5C, 0x22, 0x5C, 0x5C, 0x62, 0x22, 0x7A])
        [0x61, 0x5C, 0x22, 0x5C, 0x5C, 0x62] c' ∧
      (Cursor.start [0x61, 0x5C, 0x5C, 0x22, 0x5C, 0x5C, 0x62, 0x22, 0x7A]).Reads
        (escape Byte.quote [0x61, 0x5C, 0x22, 0x5C, 0x5C, 0x62]) c' ∧
      c'.rest = [0x22, 0x7A] :=
  (upTo_escape (by decide) _).1 _ [0x7A] rfl (by decide)

theorem gives_upTo_reads_iff {delimiter : Byte} {opener : Option Byte} {text : Bytes}
    {c c'' : Cursor} :
    (∃ c', Gives (upTo delimiter opener) c text c' ∧ c'.Reads [delimiter] c'') ↔
      ∃ written, Enclosed delimiter opener written text ∧ c.Reads (written ++ [delimiter]) c'' := by
  constructor
  · rintro ⟨c', hText, hDelimiter⟩
    obtain ⟨written, hRead, h⟩ := gives_upTo_iff.mp hText
    have hRest : c'.rest = delimiter :: c''.rest := hDelimiter.rest
    rw [hRead.rest, hRest] at h
    exact ⟨written, (enclosed_iff c''.rest).mpr h, hRead.trans hDelimiter⟩
  · rintro ⟨written, h, hRead⟩
    obtain ⟨c', hWritten, hDelimiter⟩ := Cursor.reads_append_iff.mp hRead
    refine ⟨c', gives_upTo_iff.mpr ⟨written, hWritten, ?_⟩, hDelimiter⟩
    have hRest : c'.rest = delimiter :: c''.rest := hDelimiter.rest
    rw [hWritten.rest, hRest]
    exact (enclosed_iff c''.rest).mp h

theorem gives_record_iff {e : Event} {u : Unit} {c c' : Cursor} :
    Gives (record e) c u c' ↔ c' = c :=
  ⟨fun ⟨_, hCursor⟩ => hCursor.symm, fun hCursor => ⟨rfl, hCursor.symm⟩⟩

theorem gives_inside_iff {reading : Reading} {nodes : List Node} {c c' : Cursor} :
    Gives (inside reading) c nodes c' ↔ reading.result = .ok nodes ∧ c' = c := by
  cases h : reading.result with
  | ok result =>
    constructor
    · rintro ⟨hOutcome, rfl⟩
      rw [inside, h] at hOutcome
      exact ⟨congrArg Except.ok (Except.ok.inj hOutcome), rfl⟩
    · rintro ⟨hNodes, rfl⟩
      refine ⟨?_, rfl⟩
      rw [inside, h, Except.ok.inj hNodes]
      rfl
  | error e =>
    constructor
    · rintro ⟨hOutcome, -⟩
      rw [inside, h] at hOutcome
      cases hOutcome
    · rintro ⟨hNodes, -⟩
      cases hNodes

theorem fails_inside_iff {reading : Reading} {failure : Failure} {c c' : Cursor} :
    Fails (inside reading) c failure c' ↔
      ∃ e, reading.result = .error e ∧ failure = .located e ∧ c' = c := by
  cases h : reading.result with
  | ok result =>
    constructor
    · rintro ⟨hOutcome, -⟩
      rw [inside, h] at hOutcome
      cases hOutcome
    · rintro ⟨e, hError, -⟩
      cases hError
  | error e =>
    constructor
    · rintro ⟨hOutcome, rfl⟩
      rw [inside, h] at hOutcome
      exact ⟨e, rfl, (Except.error.inj hOutcome).symm, rfl⟩
    · rintro ⟨e', hError, rfl, rfl⟩
      refine ⟨?_, rfl⟩
      rw [inside, h, Except.error.inj hError]
      rfl

end Scan

end TagTemplate
