import TagTemplate.Log
import TagTemplate.Proofs.Confinement
import TagTemplate.Proofs.Stretches

/-!
# What reading records

The records of a reading are those of the tree that it gives: one for each body and each string, the
outer one before those in it, from left to right. No record holds the length of a text, which is
where its last node ends. A reading that fails records its error once, at the end, and above it
nothing is recorded any more.
-/

namespace TagTemplate

namespace Event

/-- Holds of the traces that tell of texts only. -/
def Quiet (trace : List Event) : Prop :=
  ∀ event ∈ trace, ∃ enclosure size, event = nested enclosure size

theorem quiet_nil : Quiet [] := List.forall_mem_nil _

theorem Quiet.append {front back : List Event} (h : Quiet front) (h' : Quiet back) :
    Quiet (front ++ back) :=
  List.forall_mem_append.mpr ⟨h, h'⟩

theorem Quiet.cons_nested {trace : List Event} (h : Quiet trace) (enclosure : Enclosure)
    (size : Nat) : Quiet (nested enclosure size :: trace) :=
  List.forall_mem_cons.mpr ⟨⟨enclosure, size, rfl⟩, h⟩

/-- Holds where the trace ends with the error and tells of it nowhere else. -/
def EndsWith (e : ParseError) (trace : List Event) : Prop :=
  ∃ passed, Quiet passed ∧ trace = passed ++ [failed e]

theorem EndsWith.after {e : ParseError} {front trace : List Event} (h : EndsWith e trace)
    (hFront : Quiet front) : EndsWith e (front ++ trace) := by
  obtain ⟨passed, hPassed, rfl⟩ := h
  exact ⟨front ++ passed, hFront.append hPassed, (List.append_assoc _ _ _).symm⟩

/-- An error that has a place has been recorded with it. -/
def Tells : Failure → List Event → Prop
  | .bare _, trace => Quiet trace
  | .located e, trace => EndsWith e trace

theorem Tells.after {failure : Failure} {front trace : List Event} (h : Tells failure trace)
    (hFront : Quiet front) : Tells failure (front ++ trace) := by
  cases failure with
  | bare fault => exact hFront.append h
  | located e => exact EndsWith.after h hFront

/-- Holds where a trace is the one that the outcome calls for. -/
def Fits {ε α : Type} (fails : ε → List Event → Prop) (records : α → List Event) :
    Except ε α → List Event → Prop
  | .ok a, trace => trace = records a
  | .error e, trace => fails e trace

end Event

namespace Node

/-- Where the last of the nodes ends. -/
def extent (nodes : List Node) : Nat :=
  (nodes.getLast?.map fun node => node.source.stop).getD 0

mutual

/-- The records of the bodies and strings in a node, each before those of its contents. -/
def records : Node → List Event
  | raw _ _ | identifier _ _ | int _ _ | double _ _ => []
  | tag name parameters body _ => records name ++ recordsEach parameters ++ recordsBody body
  | string template _ => .nested .string (extent template) :: recordsEach template
  | expression _ left right _ => records left ++ records right

def recordsEach : List Node → List Event
  | [] => []
  | node :: nodes => records node ++ recordsEach nodes

def recordsBody : Option (List Node) → List Event
  | none => []
  | some nodes => .nested .body (extent nodes) :: recordsEach nodes

end

mutual

theorem quiet_records : ∀ node, Event.Quiet (records node)
  | raw _ _ | identifier _ _ | int _ _ | double _ _ => Event.quiet_nil
  | tag name parameters body _ =>
    ((quiet_records name).append (quiet_recordsEach parameters)).append (quiet_recordsBody body)
  | string template _ => (quiet_recordsEach template).cons_nested .string (extent template)
  | expression _ left right _ => (quiet_records left).append (quiet_records right)

theorem quiet_recordsEach : ∀ nodes, Event.Quiet (recordsEach nodes)
  | [] => Event.quiet_nil
  | node :: nodes => (quiet_records node).append (quiet_recordsEach nodes)

theorem quiet_recordsBody : ∀ body, Event.Quiet (recordsBody body)
  | none => Event.quiet_nil
  | some nodes => (quiet_recordsEach nodes).cons_nested .body (extent nodes)

end

@[simp] theorem records_withSource (node : Node) (s : Source) :
    (node.withSource s).records = node.records := by
  cases node <;> rfl

@[simp] theorem records_numeral (numeral : Numeral) (s : Source) :
    (numeral.node s).records = [] := by
  cases numeral <;> rfl

end Node

namespace Scan

open Event

variable {α β : Type} {s : Scan α} {earlier : List Event} {tale : α → List Event}

/-- Holds of the scans that record nothing and whose failures have no place. -/
structure Silent (s : Scan α) : Prop where
  bare : Bare s
  trace : ∀ c, (s c).trace = []

/-- Holds of the scans that record, behind the events before them, what their outcome calls for. -/
def Records (earlier : List Event) (tale : α → List Event) (s : Scan α) : Prop :=
  ∀ c, Fits Tells tale (s c).outcome (earlier ++ (s c).trace)

theorem Records.bind {f : α → Scan β} {tale' : β → List Event} (hs : Records earlier tale s)
    (hf : ∀ a, Records (tale a) tale' (f a)) : Records earlier tale' (s >>= f) := by
  intro c
  have hStep := hs c
  rcases gives_or_fails s c with ⟨a, hGives⟩ | ⟨failure, hFails⟩
  · rw [hGives.1] at hStep
    have hTrace : earlier ++ (s c).trace = tale a := hStep
    rw [bind_of_gives hGives, Step.after, ← List.append_assoc, hTrace]
    exact hf a (s c).cursor
  · rw [hFails.1] at hStep
    rw [bind_of_fails hFails]
    exact hStep

theorem records_pure {a : α} (h : earlier = tale a) : Records earlier tale (pure a : Scan α) :=
  fun _ => (List.append_nil earlier).trans h

theorem records_fail (h : Quiet earlier) (fault : Fault) :
    Records earlier tale (fail fault : Scan α) :=
  fun _ => h.append quiet_nil

theorem Records.map (f : α → β) {tale : β → List Event}
    (hs : Records earlier (fun a => tale (f a)) s) : Records earlier tale (f <$> s) :=
  hs.bind fun _ => records_pure rfl

/-- What a scan records comes behind what was recorded before it. -/
theorem Records.after (hs : Records [] tale s) (h : Quiet earlier) :
    Records earlier (fun a => earlier ++ tale a) s := by
  intro c
  have hStep := hs c
  cases hOutcome : (s c).outcome with
  | ok a =>
    rw [hOutcome] at hStep
    exact congrArg (earlier ++ ·) hStep
  | error failure =>
    rw [hOutcome] at hStep
    exact Tells.after hStep h

theorem Silent.records (hs : Silent s) (h : Quiet earlier) :
    Records earlier (fun _ => earlier) s := by
  intro c
  rw [hs.trace c, List.append_nil]
  cases hOutcome : (s c).outcome with
  | ok a => rfl
  | error failure =>
    cases failure with
    | bare fault => exact h
    | located e => exact absurd ⟨hOutcome, rfl⟩ (hs.bare c e (s c).cursor)

theorem Silent.records_bind {f : α → Scan β} {tale : β → List Event} (hs : Silent s)
    (h : Quiet earlier) (hf : ∀ a, Records earlier tale (f a)) : Records earlier tale (s >>= f) :=
  (hs.records h).bind hf

theorem Silent.bind {f : α → Scan β} (hs : Silent s) (hf : ∀ a, Silent (f a)) : Silent (s >>= f) where
  bare := hs.bare.bind fun a => (hf a).bare
  trace c := by
    rcases gives_or_fails s c with ⟨a, hGives⟩ | ⟨failure, hFails⟩
    · rw [bind_of_gives hGives, Step.after, hs.trace, (hf a).trace]
      rfl
    · rw [bind_of_fails hFails, hs.trace]

theorem silent_pure (a : α) : Silent (pure a : Scan α) := ⟨bare_pure a, fun _ => rfl⟩

theorem Silent.map (hs : Silent s) (f : α → β) : Silent (f <$> s) :=
  hs.bind fun a => silent_pure (f a)

theorem silent_fail (fault : Fault) : Silent (fail fault : Scan α) :=
  ⟨bare_fail fault, fun _ => rfl⟩

theorem silent_position : Silent position := ⟨bare_position, fun _ => rfl⟩

theorem silent_peek : Silent peek := ⟨bare_peek, fun _ => rfl⟩

theorem silent_pop : Silent pop where
  bare := bare_pop
  trace := by
    rintro ⟨p, rest⟩
    cases rest <;> rfl

theorem silent_run (p : Byte → Bool) : Silent (run p) := ⟨bare_run p, fun _ => rfl⟩

theorem silent_upTo (delimiter : Byte) (opener : Option Byte) : Silent (upTo delimiter opener) :=
  ⟨bare_upTo delimiter opener, fun _ => rfl⟩

theorem silent_expect (b : Byte) : Silent (expect b) := by
  refine silent_peek.bind fun next => ?_
  split
  · exact silent_fail _
  · split
    · exact silent_pop.map _
    · exact silent_fail _

theorem silent_skipSpaces : Silent skipSpaces :=
  (silent_run _).map _

theorem Records.fix {body : Scan α → Scan α}
    (h : ∀ self, Records [] tale self → Records [] tale (body self)) :
    Records [] tale (Scan.fix body) := by
  intro c
  induction hLength : c.rest.length using Nat.strongRecOn generalizing c with
  | ind n ih =>
    rw [Scan.fix]
    refine h _ (fun d => ?_) c
    split
    · rename_i hLess
      exact ih d.rest.length (hLength ▸ hLess) d rfl
    · exact records_fail quiet_nil _ d

end Scan

namespace Template

open Scan Event

/-- Holds of a reading of the text that records what its outcome calls for, and gives nodes up to the
end of the text. -/
structure Recorded (text : Bytes) (reading : Reading) : Prop where
  fits : Fits EndsWith Node.recordsEach reading.result reading.trace
  extent : ∀ nodes, reading.result = .ok nodes → Node.extent nodes = text.length

theorem records_identifier {earlier : List Event} (h : Quiet earlier) :
    Records earlier (fun node => earlier ++ node.records) identifier :=
  silent_position.records_bind h fun _ => (silent_run _).records_bind h fun _ =>
    silent_position.records_bind h fun _ => records_pure (List.append_nil earlier).symm

theorem silent_number : Silent number := by
  refine (silent_run _).bind fun run => ?_
  split
  · exact silent_pure _
  · exact silent_fail _

theorem records_numberParameter (start : Position) :
    Records [] Node.records (numberParameter start) :=
  silent_number.records_bind quiet_nil fun numeral => silent_position.records_bind quiet_nil
    fun _ => records_pure (Node.records_numeral numeral _).symm

section

variable {options : Options} {nested : Bytes → Reading}

theorem records_operand {self : Scan (Option Node)}
    (hSelf : Records [] (·.elim [] Node.records) self) :
    Records [] Node.records (operand self) := by
  refine silent_skipSpaces.records_bind quiet_nil fun _ => ?_
  refine silent_peek.records_bind quiet_nil fun next => ?_
  split
  · exact records_fail quiet_nil _
  · refine hSelf.bind fun right => ?_
    split
    · exact records_fail quiet_nil _
    · exact records_pure rfl

theorem records_wordParameter {self : Scan (Option Node)}
    (hSelf : Records [] (·.elim [] Node.records) self) (start : Position) (first : Byte) :
    Records [] Node.records (wordParameter self start first) := by
  refine (records_identifier quiet_nil).bind fun left => ?_
  have hLeft := Node.quiet_records left
  rw [List.nil_append]
  split
  · exact records_fail hLeft _
  · refine silent_skipSpaces.records_bind hLeft fun _ => ?_
    refine silent_peek.records_bind hLeft fun next => ?_
    split
    · refine silent_position.records_bind hLeft fun _ => ?_
      exact records_pure (Node.records_withSource left _).symm
    · refine (silent_pop.map _).records_bind hLeft fun _ => ?_
      refine ((records_operand hSelf).after hLeft).bind fun right => ?_
      have hBoth := hLeft.append (Node.quiet_records right)
      exact silent_position.records_bind hBoth fun _ => records_pure rfl

variable (hNested : ∀ text, Recorded text (nested text))

include hNested

theorem records_enclosed (enclosure : Enclosure) (text : Bytes) :
    Records [] (fun nodes => .nested enclosure (Node.extent nodes) :: Node.recordsEach nodes)
      (enclosed nested enclosure text) := by
  intro c
  have hFits := (hNested text).fits
  change Fits Tells _ ((nested text).result.mapError .located)
    (.nested enclosure text.length :: (nested text).trace)
  cases hResult : (nested text).result with
  | ok nodes =>
    rw [hResult] at hFits
    have hTrace : (nested text).trace = Node.recordsEach nodes := hFits
    rw [hTrace, ← (hNested text).extent nodes hResult]
    rfl
  | error e =>
    rw [hResult] at hFits
    exact EndsWith.after hFits (quiet_nil.cons_nested enclosure text.length)

theorem records_stringParameter (start : Position) :
    Records [] Node.records (stringParameter nested start) := by
  refine (silent_expect _).records_bind quiet_nil fun _ => ?_
  refine (silent_upTo _ _).records_bind quiet_nil fun text => ?_
  refine (silent_expect _).records_bind quiet_nil fun _ => ?_
  refine (records_enclosed hNested .string text).bind fun template => ?_
  have hTemplate := (Node.quiet_recordsEach template).cons_nested .string (Node.extent template)
  exact silent_position.records_bind hTemplate fun _ => records_pure rfl

theorem records_parameter : Records [] (·.elim [] Node.records) (parameter nested) := by
  refine Records.fix fun self hSelf => ?_
  refine silent_skipSpaces.records_bind quiet_nil fun _ => ?_
  refine silent_position.records_bind quiet_nil fun start => ?_
  refine silent_peek.records_bind quiet_nil fun next => ?_
  split
  · exact records_fail quiet_nil _
  · split
    · exact records_pure rfl
    · split
      · exact (records_stringParameter hNested start).map some
      · split
        · exact (records_numberParameter start).map some
        · exact (records_wordParameter hSelf start _).map some

theorem records_moreParameters : Records [] Node.recordsEach (moreParameters nested) := by
  refine Records.fix fun self hSelf => ?_
  refine silent_peek.records_bind quiet_nil fun next => ?_
  split
  · refine (silent_expect _).records_bind quiet_nil fun _ => ?_
    refine (records_parameter hNested).bind fun next => ?_
    split
    · exact silent_peek.records_bind quiet_nil fun _ => records_fail quiet_nil _
    · rename_i next
      exact (hSelf.after (Node.quiet_records next)).bind fun _ => records_pure rfl
  · exact records_pure rfl

theorem records_parameterList : Records [] Node.recordsEach (parameterList nested) := by
  refine (records_parameter hNested).bind fun first => ?_
  split
  · exact records_pure rfl
  · rename_i first
    refine ((records_moreParameters hNested).after (Node.quiet_records first)).bind fun _ => ?_
    exact records_pure rfl

theorem records_parameters : Records [] Node.recordsEach (parameters nested) := by
  refine (silent_expect _).records_bind quiet_nil fun _ => ?_
  refine (records_parameterList hNested).bind fun list => ?_
  exact (silent_expect _).records_bind (Node.quiet_recordsEach list) fun _ => records_pure rfl

theorem records_body :
    Records [] (fun nodes => .nested .body (Node.extent nodes) :: Node.recordsEach nodes)
      (body options nested) := by
  refine (silent_expect _).records_bind quiet_nil fun _ => ?_
  refine (silent_upTo _ _).records_bind quiet_nil fun text => ?_
  refine (silent_expect _).records_bind quiet_nil fun _ => ?_
  exact records_enclosed hNested .body text

theorem records_body? : Records [] Node.recordsBody (body? options nested) := by
  refine silent_peek.records_bind quiet_nil fun next => ?_
  split
  · exact (records_body hNested).map _
  · exact records_pure rfl

theorem records_tag : Records [] Node.records (tag options nested) := by
  refine silent_position.records_bind quiet_nil fun _ => ?_
  refine (silent_expect _).records_bind quiet_nil fun _ => ?_
  refine (records_identifier quiet_nil).bind fun name => ?_
  have hName := Node.quiet_records name
  refine ((records_parameters hNested).after hName).bind fun list => ?_
  have hList := hName.append (Node.quiet_recordsEach list)
  refine silent_skipSpaces.records_bind hList fun _ => ?_
  refine ((records_body? hNested).after hList).bind fun content => ?_
  have hContent := hList.append (Node.quiet_recordsBody content)
  exact silent_position.records_bind hContent fun _ => records_pure rfl

omit hNested in
theorem records_raw : Records [] Node.records (raw options) :=
  silent_position.records_bind quiet_nil fun _ => (silent_upTo _ _).records_bind quiet_nil
    fun _ => silent_position.records_bind quiet_nil fun _ => records_pure rfl

theorem records_element : Records [] (·.elim [] Node.records) (element options nested) := by
  refine silent_peek.records_bind quiet_nil fun next => ?_
  split
  · exact records_pure rfl
  · split
    · exact (records_tag hNested).map some
    · exact records_raw.map some

/-- A failure without a place is recorded where it gets one. -/
theorem records_locatedElement (c : Cursor) :
    Fits EndsWith (·.elim [] Node.records) (locatedElement options nested c).outcome
      (locatedElement options nested c).trace := by
  have hElement := @records_element options nested hNested c
  rw [locatedElement]
  cases hOutcome : (element options nested c).outcome with
  | ok node? =>
    rw [hOutcome] at hElement
    exact hElement
  | error failure =>
    rw [hOutcome] at hElement
    cases failure with
    | bare fault => exact ⟨_, hElement, rfl⟩
    | located e => exact hElement

theorem records_elements (c : Cursor) :
    Fits EndsWith Node.recordsEach (elements options nested c).outcome
      (elements options nested c).trace := by
  induction hLength : c.rest.length using Nat.strongRecOn generalizing c with
  | ind n ih =>
    have hElement := @records_locatedElement options nested hNested c
    rw [elements.eq_def options nested c]
    generalize locatedElement options nested c = s at hElement ⊢
    obtain ⟨outcome, d, trace⟩ := s
    cases outcome with
    | error e => exact hElement
    | ok node? =>
      have hTrace : trace = node?.elim [] Node.records := hElement
      cases node? with
      | none => exact hTrace
      | some node =>
        dsimp only
        split
        · rename_i hLess
          have hOthers := ih d.rest.length (hLength ▸ hLess) d rfl
          rw [hTrace]
          cases hOutcome : (elements options nested d).outcome with
          | ok others =>
            rw [hOutcome] at hOthers
            exact congrArg (node.records ++ ·) hOthers
          | error e =>
            rw [hOutcome] at hOthers
            exact EndsWith.after hOthers (Node.quiet_records node)
        · exact hTrace.trans (List.append_nil node.records).symm

end

/-- Every buffer is read with the records that the outcome calls for. -/
theorem recorded_read (options : Options) (buffer : Bytes) :
    Recorded buffer (read options buffer) := by
  induction hLength : buffer.length using Nat.strongRecOn generalizing buffer with
  | ind n ih =>
    -- No text of `n` bytes is cut out, so how one would be read makes no difference.
    let e : ParseError := ⟨⟨1, 1, 0, 0⟩, .endOfInput⟩
    let nested : Bytes → Reading := fun text =>
      if text.length < n then read options text else ⟨.error e, [.failed e]⟩
    have hNested : ∀ text, Recorded text (nested text) := by
      intro text
      dsimp only [nested]
      split
      · rename_i hLess
        exact ih text.length hLess text rfl
      · exact ⟨⟨[], quiet_nil, rfl⟩, nofun⟩
    have hAlike : ReadAlike ((Cursor.start buffer).rest.length - 3) (read options) nested := by
      intro text hText
      have hLess : text.length < buffer.length := Nat.lt_of_lt_of_le hText (Nat.sub_le _ 3)
      exact (if_pos (hLength ▸ hLess)).symm
    refine ⟨?_, fun nodes hNodes => (covers_of_read hNodes).tiles.stop_eq⟩
    rw [read_eq, readFrom, elements_congr hAlike]
    exact records_elements hNested _

end Template

namespace Log

end Log

end TagTemplate
