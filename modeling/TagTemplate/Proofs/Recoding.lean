import Mathlib.Logic.Function.Basic
import TagTemplate.Proofs.Progress

/-!
# Renaming bytes

A recoding renames bytes one to one and leaves alone those that tags are made of. Places are counted
in bytes and newlines, and the scans tell bytes apart only by comparing them with punctuation, with
letters and digits, or with a delimiter that is renamed as well: in front of renamed bytes they do
the same. What they give is the same too, but for the data of raw passages and for the byte that an
error has met, which are renamed.
-/

namespace TagTemplate

/-- Holds of the one-to-one maps that keep the bytes that tags are made of. -/
structure Recoding (p : Byte → Byte) : Prop where
  injective : Function.Injective p
  fixes : ∀ b, b ∈ Byte.punctuation ∨ b.isAlphanumeric = true → p b = b

theorem recoding_id : Recoding id :=
  ⟨Function.injective_id, fun _ _ => rfl⟩

namespace Recoding

variable {p : Byte → Byte} (h : Recoding p) {a b : Byte}

include h

theorem punctuation (hb : b ∈ Byte.punctuation) : p b = b :=
  h.fixes b (Or.inl hb)

theorem alphanumeric (hb : b.isAlphanumeric = true) : p b = b :=
  h.fixes b (Or.inr hb)

theorem eq_iff (hb : p b = b) : p a = b ↔ a = b := by
  constructor
  · intro ha
    exact h.injective (ha.trans hb.symm)
  · rintro rfl
    exact hb

/-- A class of bytes that are all kept gains none. -/
theorem class_eq {q : Byte → Bool} (hq : ∀ b, q b = true → p b = b) (a : Byte) : q (p a) = q a := by
  apply Bool.eq_iff_iff.mpr
  constructor
  · intro ha
    rwa [← h.injective (hq (p a) ha)]
  · intro ha
    rwa [hq a ha]

end Recoding

namespace Position

variable {p : Byte → Byte}

theorem next_recode (hp : Recoding p) (q : Position) (b : Byte) : q.next (p b) = q.next b := by
  rw [next, next, if_congr (hp.eq_iff (hp.punctuation (by decide))) rfl rfl]

theorem advance_map (hp : Recoding p) (q : Position) (bytes : Bytes) :
    q.advance (bytes.map p) = q.advance bytes := by
  induction bytes generalizing q with
  | nil => rfl
  | cons b bytes ih => rw [List.map_cons, advance_cons, advance_cons, next_recode hp, ih]

end Position

section

variable (p : Byte → Byte)

def Fault.recode : Fault → Fault
  | .unexpectedByte expected actual what => .unexpectedByte expected (actual.map p) what
  | .endOfInput => .endOfInput
  | .invalidNumber text type => .invalidNumber text type
  | .missingOperand => .missingOperand

def ParseError.recode (e : ParseError) : ParseError :=
  ⟨e.source, e.cause.recode p⟩

def Failure.recode : Failure → Failure
  | .bare fault => .bare (fault.recode p)
  | .located e => .located (e.recode p)

def Event.recode : Event → Event
  | .nested enclosure size => .nested enclosure size
  | .failed e => .failed (e.recode p)

namespace Node

mutual

/-- The node with the data of all its raw passages renamed, at any depth. -/
def recode : Node → Node
  | raw data s => raw (data.map p) s
  | tag name parameters body s => tag (recode name) (recodeEach parameters) (recodeBody body) s
  | identifier name s => identifier name s
  | int value s => int value s
  | double value s => double value s
  | string template s => string (recodeEach template) s
  | expression operator left right s => expression operator (recode left) (recode right) s

def recodeEach : List Node → List Node
  | [] => []
  | node :: nodes => recode node :: recodeEach nodes

def recodeBody : Option (List Node) → Option (List Node)
  | none => none
  | some nodes => some (recodeEach nodes)

end

end Node

def Reading.recode (r : Reading) : Reading :=
  ⟨(r.result.map (Node.recodeEach p)).mapError (ParseError.recode p), r.trace.map (Event.recode p)⟩

def Cursor.recode (c : Cursor) : Cursor :=
  ⟨c.position, c.rest.map p⟩

def Step.recode {ε α β : Type} (g : ε → ε) (f : α → β) (s : Step ε α) : Step ε β :=
  ⟨(s.outcome.map f).mapError g, s.cursor.recode p, s.trace.map (Event.recode p)⟩

def Passage.recode (passage : Passage) : Passage :=
  ⟨passage.written.map p, passage.content.map p, passage.rest.map p⟩

end

namespace Node

@[simp] theorem source_recode (p : Byte → Byte) (node : Node) :
    (node.recode p).source = node.source := by
  cases node <;> simp [recode, source]

theorem recode_withSource (p : Byte → Byte) (s : Source) (node : Node) :
    (node.withSource s).recode p = (node.recode p).withSource s := by
  cases node <;> simp [recode, withSource]

end Node

@[simp] theorem Fault.recode_id (fault : Fault) : fault.recode id = fault := by
  cases fault <;> simp [recode]

@[simp] theorem ParseError.recode_id (e : ParseError) : e.recode id = e := by
  rw [recode, Fault.recode_id]

@[simp] theorem Event.recode_id (e : Event) : e.recode id = e := by
  cases e <;> simp [recode]

namespace Node

mutual

@[simp] theorem recode_id : ∀ node : Node, node.recode id = node
  | raw _ _ | identifier _ _ | int _ _ | double _ _ => by simp [recode]
  | tag name parameters body _ => by
    simp [recode, recode_id name, recodeEach_id parameters, recodeBody_id body]
  | string template _ => by simp [recode, recodeEach_id template]
  | expression _ left right _ => by simp [recode, recode_id left, recode_id right]

@[simp] theorem recodeEach_id : ∀ nodes : List Node, recodeEach id nodes = nodes
  | [] => rfl
  | node :: nodes => by rw [recodeEach, recode_id node, recodeEach_id nodes]

theorem recodeBody_id : ∀ body : Option (List Node), recodeBody id body = body
  | none => rfl
  | some nodes => by rw [recodeBody, recodeEach_id nodes]

end

end Node

@[simp] theorem Reading.recode_id (r : Reading) : r.recode id = r := by
  obtain ⟨result, trace⟩ := r
  have hTrace : trace.map (Event.recode id) = trace := by
    rw [funext Event.recode_id]
    exact List.map_id trace
  rw [recode, hTrace]
  cases result with
  | ok nodes => simp [Except.map, Except.mapError]
  | error e => simp [Except.map, Except.mapError]

@[simp] theorem Passage.recode_id (passage : Passage) : passage.recode id = passage := by
  simp [recode]

theorem Numeral.recode_node (p : Byte → Byte) (source : Source) (numeral : Numeral) :
    (numeral.node source).recode p = numeral.node source := by
  cases numeral <;> simp [node, Node.recode]

namespace Cursor

variable {p : Byte → Byte}

@[simp] theorem peek_recode (p : Byte → Byte) (c : Cursor) :
    (c.recode p).peek = c.peek.map p :=
  List.head?_map

theorem skip_recode (hp : Recoding p) (c : Cursor) (n : Nat) :
    (c.recode p).skip n = (c.skip n).recode p := by
  rw [skip, skip, recode, recode, ← List.map_take, ← List.map_drop, Position.advance_map hp]

end Cursor

namespace Passage

variable {p : Byte → Byte} (hp : Recoding p)

include hp

theorem contribution_recode (delimiter : Byte) (escaped : Bool) (b : Byte) :
    contribution (p delimiter) escaped (p b) = (contribution delimiter escaped b).map p := by
  have hBackslash : p Byte.backslash = Byte.backslash := hp.punctuation (by decide)
  have hEq : p b = Byte.backslash ↔ b = Byte.backslash := hp.eq_iff hBackslash
  rw [contribution, contribution, List.map_append]
  simp only [ne_eq, hp.injective.eq_iff, hEq]
  split <;> split <;> simp [hBackslash]

theorem depthAfter_recode (delimiter : Byte) (opener : Option Byte) (escaped : Bool) (depth : Nat)
    (b : Byte) :
    depthAfter (p delimiter) (opener.map p) escaped depth (p b) =
      depthAfter delimiter opener escaped depth b := by
  have hOpener : opener.map p = some (p b) ↔ opener = some b := by
    cases opener <;> simp [hp.injective.eq_iff]
  simp only [depthAfter, hp.injective.eq_iff, hOpener]

/-- A passage in renamed bytes is the passage with its bytes renamed. -/
theorem scan_recode (delimiter : Byte) (opener : Option Byte) (escaped : Bool) (depth : Nat)
    (bytes : Bytes) :
    scan (p delimiter) (opener.map p) escaped depth (bytes.map p) =
      (scan delimiter opener escaped depth bytes).recode p := by
  have hBackslash : p Byte.backslash = Byte.backslash := hp.punctuation (by decide)
  induction bytes generalizing escaped depth with
  | nil =>
    rw [List.map_nil, scan, scan, recode]
    cases escaped <;> simp [hBackslash]
  | cons b bytes ih =>
    rw [List.map_cons, scan, scan]
    simp only [hp.injective.eq_iff, hp.eq_iff hBackslash]
    split
    · rfl
    · rw [depthAfter_recode hp, ih, contribution_recode hp]
      simp [recode]

end Passage

theorem delimited_recode {p : Byte → Byte} (hp : Recoding p) (delimiter : Byte)
    (opener : Option Byte) (bytes : Bytes) :
    delimited (p delimiter) (opener.map p) (bytes.map p) =
      (delimited delimiter opener bytes).recode p :=
  Passage.scan_recode hp delimiter opener false 0 bytes

namespace Scan

variable {α β γ δ : Type} {p : Byte → Byte} {c c' : Cursor}

/-- Holds where `s'` does in front of renamed bytes what `s` does at `c`, up to `f`. -/
def Mirrors (p : Byte → Byte) (f : α → β) (s : Scan α) (s' : Scan β) (c : Cursor) : Prop :=
  s' (c.recode p) = (s c).recode p (Failure.recode p) f

section

variable {f : α → β} {s : Scan α} {s' : Scan β}

theorem Mirrors.bind {g : γ → δ} {k : α → Scan γ} {k' : β → Scan δ} (hs : Mirrors p f s s' c)
    (hk : ∀ a c', Gives s c a c' → Mirrors p g (k a) (k' (f a)) c') :
    Mirrors p g (s >>= k) (s' >>= k') c := by
  rcases gives_or_fails s c with ⟨a, ha⟩ | ⟨e, he⟩
  · have hGives : Gives s' (c.recode p) (f a) ((s c).cursor.recode p) := by
      rw [Gives, hs, Step.recode, ha.1]
      exact ⟨rfl, rfl⟩
    rw [Mirrors, bind_of_gives ha, bind_of_gives hGives, hk a _ ha, hs]
    simp [Step.after, Step.recode]
  · have hFails : Fails s' (c.recode p) (e.recode p) ((s c).cursor.recode p) := by
      rw [Fails, hs, Step.recode, he.1]
      exact ⟨rfl, rfl⟩
    rw [Mirrors, bind_of_fails he, bind_of_fails hFails, hs]
    rfl

theorem mirrors_pure (f : α → β) (a : α) : Mirrors p f (pure a) (pure (f a)) c := rfl

theorem Mirrors.map {g : γ → δ} {k : α → γ} {k' : β → δ} (hs : Mirrors p f s s' c)
    (hk : ∀ a, g (k a) = k' (f a)) : Mirrors p g (k <$> s) (k' <$> s') c := by
  refine hs.bind fun a c' _ => ?_
  change Mirrors p g (pure (k a)) (pure (k' (f a))) c'
  rw [← hk]
  exact mirrors_pure g (k a)

theorem Mirrors.discard (hs : Mirrors p f s s' c) :
    Mirrors p (fun u => u) (discard s) (discard s') c :=
  hs.map fun _ => rfl

theorem mirrors_fail (fault : Fault) : Mirrors p f (fail fault) (fail (fault.recode p)) c := rfl

end

theorem mirrors_position : Mirrors p (fun q => q) position position c := rfl

theorem mirrors_peek : Mirrors p (Option.map p) peek peek c := by
  rw [Mirrors, peek, Cursor.peek_recode]
  rfl

theorem mirrors_record (e : Event) :
    Mirrors p (fun u => u) (record e) (record (e.recode p)) c := rfl

theorem mirrors_inside (reading : Reading) :
    Mirrors p (Node.recodeEach p) (inside reading) (inside (reading.recode p)) c := by
  rw [Mirrors, inside, inside, Step.recode, Reading.recode]
  cases reading.result <;> rfl

section

variable (hp : Recoding p)

include hp

theorem mirrors_pop : Mirrors p p pop pop c := by
  obtain ⟨position, rest⟩ := c
  cases rest with
  | nil => rfl
  | cons b rest =>
    rw [Mirrors, pop, pop, Cursor.recode, List.map_cons]
    dsimp only
    rw [Position.next_recode hp]
    rfl

theorem mirrors_run {q : Byte → Bool} (hq : ∀ b, q b = true → p b = b) :
    Mirrors p (fun text => text) (run q) (run q) c := by
  have hClass : q ∘ p = q := funext (hp.class_eq hq)
  have hKept : ∀ b ∈ c.rest.takeWhile q, p b = id b :=
    fun b hb => hq b (List.mem_takeWhile_imp hb)
  have hTaken : (c.rest.map p).takeWhile q = c.rest.takeWhile q := by
    rw [List.takeWhile_map, hClass, List.map_congr_left hKept, List.map_id]
  simp only [Mirrors, run, Cursor.skip_recode hp]
  rw [Cursor.recode, hTaken]
  rfl

theorem mirrors_upTo {delimiter delimiter' : Byte} {opener opener' : Option Byte}
    (hPassage : delimited delimiter' opener' (c.rest.map p) =
      (delimited delimiter opener c.rest).recode p) :
    Mirrors p (List.map p) (upTo delimiter opener) (upTo delimiter' opener') c := by
  simp only [Mirrors, upTo, Cursor.skip_recode hp]
  rw [Cursor.recode, hPassage]
  simp [Step.recode, Passage.recode, Except.map, Except.mapError]

theorem mirrors_expect {b : Byte} (hb : p b = b) :
    Mirrors p (fun u => u) (expect b) (expect b) c := by
  refine mirrors_peek.bind fun next c₁ _ => ?_
  cases next with
  | none => exact mirrors_fail _
  | some actual =>
    simp only [Option.map_some, hp.eq_iff hb]
    split
    · exact (mirrors_pop hp).discard
    · exact mirrors_fail _

/-- In front of the byte that is due, that byte may be one that is renamed. -/
theorem mirrors_expect_of_peek {b : Byte} (hPeek : c.peek = some b) :
    Mirrors p (fun u => u) (expect b) (expect (p b)) c := by
  refine mirrors_peek.bind fun next c₁ h₁ => ?_
  obtain ⟨rfl, rfl⟩ := gives_peek_iff.mp h₁
  rw [hPeek]
  simp only [Option.map_some, if_true]
  exact (mirrors_pop hp).discard

theorem mirrors_skipSpaces : Mirrors p (fun u => u) skipSpaces skipSpaces c := by
  refine (mirrors_run hp fun b hb => ?_).discard
  exact hp.punctuation (by rw [of_decide_eq_true hb]; decide)

end

end Scan

end TagTemplate
