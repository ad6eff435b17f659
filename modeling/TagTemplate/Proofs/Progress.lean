import TagTemplate.Proofs.Scan
import TagTemplate.Template.Read

/-!
# Progress through the buffer

Every scan stops at or behind the place where it starts. So the places where the reader calls
itself lie behind the place where it was called, and the texts that it cuts out are shorter than
the buffer: the recursions satisfy their equations without the guards that make them terminate.
-/

namespace TagTemplate

namespace Scan

variable {α β : Type}

/-- Holds of the scans that stop at a later cursor of the buffer, whether they fail or not. -/
def Advances (s : Scan α) : Prop :=
  ∀ c : Cursor, ∃ text, c.Reads text (s c).cursor

theorem Advances.reads {s : Scan α} (hs : Advances s) {c c' : Cursor} {a : α}
    (h : Gives s c a c') : ∃ text, c.Reads text c' := by
  obtain ⟨text, hText⟩ := hs c
  exact ⟨text, h.2 ▸ hText⟩

theorem Advances.length_le {s : Scan α} (hs : Advances s) {c c' : Cursor} {a : α}
    (h : Gives s c a c') : c'.rest.length ≤ c.rest.length := by
  obtain ⟨text, hText⟩ := hs.reads h
  rw [hText.length_eq]
  exact Nat.le_add_left _ _

theorem advances_pure (a : α) : Advances (pure a : Scan α) :=
  fun c => ⟨[], Cursor.Reads.refl c⟩

theorem advances_fail (fault : Fault) : Advances (fail fault : Scan α) :=
  fun c => ⟨[], Cursor.Reads.refl c⟩

theorem advances_position : Advances position :=
  fun c => ⟨[], Cursor.Reads.refl c⟩

theorem advances_peek : Advances peek :=
  fun c => ⟨[], Cursor.Reads.refl c⟩

theorem advances_record (e : Event) : Advances (record e) :=
  fun c => ⟨[], Cursor.Reads.refl c⟩

theorem advances_inside (reading : Reading) : Advances (inside reading) :=
  fun c => ⟨[], Cursor.Reads.refl c⟩

theorem advances_pop : Advances pop := by
  rintro ⟨p, rest⟩
  cases rest with
  | nil => exact ⟨[], Cursor.Reads.refl _⟩
  | cons b rest => exact ⟨[b], rfl, rfl⟩

theorem advances_run (p : Byte → Bool) : Advances (run p) :=
  fun _ => ⟨_, Cursor.reads_skip_length List.takeWhile_append_dropWhile.symm⟩

theorem advances_upTo (delimiter : Byte) (opener : Option Byte) :
    Advances (upTo delimiter opener) :=
  fun c => ⟨_, Cursor.reads_skip_length
    (delimited_written_append_rest delimiter opener c.rest).symm⟩

theorem Advances.bind {s : Scan α} {f : α → Scan β} (hs : Advances s)
    (hf : ∀ a, Advances (f a)) : Advances (s >>= f) := by
  intro c
  obtain ⟨text, hText⟩ := hs c
  rcases gives_or_fails s c with ⟨a, ha⟩ | ⟨e, he⟩
  · obtain ⟨text', hText'⟩ := hf a (s c).cursor
    rw [bind_of_gives ha]
    exact ⟨text ++ text', hText.trans hText'⟩
  · rw [bind_of_fails he]
    exact ⟨text, hText⟩

theorem Advances.map {s : Scan α} (hs : Advances s) (f : α → β) : Advances (f <$> s) :=
  hs.bind (fun a => advances_pure (f a))

theorem advances_expect (b : Byte) : Advances (expect b) := by
  refine advances_peek.bind fun next => ?_
  split
  · exact advances_fail _
  · split
    · exact advances_pop.map _
    · exact advances_fail _

theorem advances_skipSpaces : Advances skipSpaces :=
  (advances_run _).map _

theorem Advances.fix {body : Scan α → Scan α}
    (h : ∀ self, Advances self → Advances (body self)) : Advances (fix body) := by
  intro c
  induction hLength : c.rest.length using Nat.strongRecOn generalizing c with
  | ind n ih =>
    rw [Scan.fix]
    apply h
    intro c'
    dsimp only
    split
    · rename_i hLess
      exact ih c'.rest.length (hLength ▸ hLess) c' rfl
    · exact advances_fail _ c'

theorem bind_congr {s s' : Scan α} {f f' : α → Scan β} {c : Cursor} (hs : s c = s' c)
    (hf : ∀ a c', Gives s' c a c' → f a c' = f' a c') : (s >>= f) c = (s' >>= f') c := by
  rcases gives_or_fails s' c with ⟨a, ha⟩ | ⟨e, he⟩
  · have ha' : Gives s c a (s' c).cursor := by rwa [Gives, hs]
    rw [bind_of_gives ha, bind_of_gives ha', hf a _ ha, hs]
  · have he' : Fails s c e (s' c).cursor := by rwa [Fails, hs]
    rw [bind_of_fails he, bind_of_fails he', hs]

theorem map_congr {s s' : Scan α} {c : Cursor} (hs : s c = s' c) (f : α → β) :
    (f <$> s) c = (f <$> s') c :=
  bind_congr hs fun _ _ _ => rfl

/-- Holds where two scans end alike at all cursors with less than `n` bytes to go. -/
def AgreeBelow (n : Nat) (s s' : Scan α) : Prop :=
  ∀ c, c.rest.length < n → s c = s' c

theorem AgreeBelow.mono {m n : Nat} {s s' : Scan α} (h : AgreeBelow n s s') (hLe : m ≤ n) :
    AgreeBelow m s s' :=
  fun c hc => h c (Nat.lt_of_lt_of_le hc hLe)

/-- A body that uses its argument only behind the place where it starts has the fixed point that
its name promises. -/
theorem fix_eq {body : Scan α → Scan α}
    (h : ∀ self self' c, AgreeBelow c.rest.length self self' → body self c = body self' c) :
    fix body = body (fix body) := by
  funext c
  rw [Scan.fix]
  exact h _ _ c fun c' hc' => if_pos hc'

end Scan

namespace Template

open Scan

theorem advances_identifier : Advances identifier :=
  advances_position.bind fun _ => (advances_run _).bind fun _ => advances_position.bind fun _ =>
    advances_pure _

theorem advances_number : Advances number := by
  refine (advances_run _).bind fun run => ?_
  split
  · exact advances_pure _
  · exact advances_fail _

section

variable (options : Options) (nested : Bytes → Reading)

theorem advances_enclosed (enclosure : Enclosure) (text : Bytes) :
    Advances (enclosed nested enclosure text) :=
  (advances_record _).bind fun _ => advances_inside _

theorem advances_stringParameter (start : Position) : Advances (stringParameter nested start) :=
  (advances_expect _).bind fun _ => (advances_upTo _ _).bind fun _ =>
    (advances_expect _).bind fun _ => (advances_enclosed nested _ _).bind fun _ =>
      advances_position.bind fun _ => advances_pure _

theorem advances_numberParameter (start : Position) : Advances (numberParameter start) :=
  advances_number.bind fun _ => advances_position.bind fun _ => advances_pure _

theorem advances_operand {self : Scan (Option Node)} (hSelf : Advances self) :
    Advances (operand self) := by
  refine advances_skipSpaces.bind fun _ => advances_peek.bind fun next => ?_
  split
  · exact advances_fail _
  · refine hSelf.bind fun right => ?_
    split
    · exact advances_fail _
    · exact advances_pure _

theorem advances_wordParameter {self : Scan (Option Node)} (hSelf : Advances self)
    (start : Position) (first : Byte) : Advances (wordParameter self start first) := by
  refine advances_identifier.bind fun left => ?_
  split
  · exact advances_fail _
  · refine advances_skipSpaces.bind fun _ => advances_peek.bind fun next => ?_
    split
    · exact advances_position.bind fun _ => advances_pure _
    · exact (advances_pop.map _).bind fun _ => (advances_operand hSelf).bind fun _ =>
        advances_position.bind fun _ => advances_pure _

theorem advances_parameterWith {self : Scan (Option Node)} (hSelf : Advances self) :
    Advances (parameterWith nested self) := by
  refine advances_skipSpaces.bind fun _ => advances_position.bind fun start =>
    advances_peek.bind fun next => ?_
  split
  · exact advances_fail _
  · split
    · exact advances_pure _
    · split
      · exact (advances_stringParameter nested start).map _
      · split
        · exact (advances_numberParameter start).map _
        · exact (advances_wordParameter hSelf start _).map _

theorem advances_parameter : Advances (parameter nested) :=
  Advances.fix fun _ hSelf => advances_parameterWith nested hSelf

theorem advances_moreParametersWith {self : Scan (List Node)} (hSelf : Advances self) :
    Advances (moreParametersWith nested self) := by
  refine advances_peek.bind fun next => ?_
  split
  · refine (advances_expect _).bind fun _ => (advances_parameter nested).bind fun parameter => ?_
    split
    · exact advances_peek.bind fun _ => advances_fail _
    · exact hSelf.bind fun _ => advances_pure _
  · exact advances_pure _

theorem advances_moreParameters : Advances (moreParameters nested) :=
  Advances.fix fun _ hSelf => advances_moreParametersWith nested hSelf

theorem advances_parameterList : Advances (parameterList nested) := by
  refine (advances_parameter nested).bind fun first => ?_
  split
  · exact advances_pure _
  · exact (advances_moreParameters nested).bind fun _ => advances_pure _

theorem advances_parameters : Advances (parameters nested) :=
  (advances_expect _).bind fun _ => (advances_parameterList nested).bind fun _ =>
    (advances_expect _).bind fun _ => advances_pure _

theorem advances_body : Advances (body options nested) :=
  (advances_expect _).bind fun _ => (advances_upTo _ _).bind fun _ =>
    (advances_expect _).bind fun _ => advances_enclosed nested _ _

theorem advances_body? : Advances (body? options nested) := by
  refine advances_peek.bind fun next => ?_
  split
  · exact (advances_body options nested).map _
  · exact advances_pure _

theorem advances_tag : Advances (tag options nested) :=
  advances_position.bind fun _ => (advances_expect _).bind fun _ =>
    advances_identifier.bind fun _ => (advances_parameters nested).bind fun _ =>
      advances_skipSpaces.bind fun _ => (advances_body? options nested).bind fun _ =>
        advances_position.bind fun _ => advances_pure _

theorem advances_raw : Advances (raw options) :=
  advances_position.bind fun _ => (advances_upTo _ _).bind fun _ =>
    advances_position.bind fun _ => advances_pure _

theorem advances_element : Advances (element options nested) := by
  refine advances_peek.bind fun next => ?_
  split
  · exact advances_pure _
  · split
    · exact (advances_tag options nested).map _
    · exact (advances_raw options).map _

end

end Template

end TagTemplate
