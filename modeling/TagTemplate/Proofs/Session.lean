import TagTemplate.Proofs.Confinement
import TagTemplate.Proofs.Provenance
import TagTemplate.Session

/-!
# Places in a session

Whatever commands are run, the cursor of a session stays over the buffer that the session has
started with, and it never moves back. Its place is then the one behind the text in front of it.
So each node that a command gives is placed by its start, and each error by its stop, in the buffer
of the session or in that of the enclosed template that it belongs to.
-/

namespace TagTemplate

namespace Source

/-- Holds where the line and the column are those of the start of the stretch. -/
def PlacedByStart (buffer : Bytes) (s : Source) : Prop :=
  Position.behind (buffer.take s.start) = ⟨s.start, s.line, s.column⟩

/-- Holds where the line and the column are those of the stop of the stretch. -/
def PlacedByStop (buffer : Bytes) (s : Source) : Prop :=
  Position.behind (buffer.take s.stop) = ⟨s.stop, s.line, s.column⟩

end Source

def Node.Placed (buffer : Bytes) (node : Node) : Prop :=
  node.source.PlacedByStart buffer

namespace Template

open Scan

/-- Holds where reading the buffer stops at `stop` with the error. The error is one of an element of
the buffer, or one of a template that is enclosed right in front of `stop`. -/
inductive ErrorAt (options : Options) : Bytes → Nat → ParseError → Prop
  | own {buffer : Bytes} {c c' : Cursor} {fault : Fault} : Cursor.Over buffer c →
      Fails (element options (read options)) c (.bare fault) c' →
      (c.position.upTo c'.position).PlacedByStop buffer →
      ErrorAt options buffer c'.position.offset ⟨c.position.upTo c'.position, fault⟩
  | enclosed {buffer front run text : Bytes} {stop stop' : Nat} {e : ParseError} :
      buffer.take stop = front ++ run → Encloses options run text →
      (read options text).result = .error e → ErrorAt options text stop' e →
      ErrorAt options buffer stop e

variable {options : Options} {buffer : Bytes} {c c' : Cursor} {e : ParseError}

theorem placed_of_given {node : Node} (h : Given options buffer node) : node.Placed buffer := by
  obtain ⟨c, c', hOver, hSource⟩ := source_of_given h
  rw [Node.Placed, hSource]
  exact hOver.position_eq.symm

theorem throughout_placed {nodes : List Node} (h : (read options buffer).result = .ok nodes) :
    ThroughoutTemplate options Node.Placed (fun _ _ => True) buffer nodes :=
  throughout_read (fun _ _ => placed_of_given) (fun _ _ _ => trivial) h

section

variable {n : Nat}
  (hNested : ∀ text, text.length < n → (read options text).result = .error e →
    ∃ stop, ErrorAt options text stop e)

include hNested

theorem errorAt_of_between (hLe : c.rest.length ≤ n) (hOver : Cursor.Over buffer c)
    (h : ErrorBetween options (read options) c e c') :
    ErrorAt options buffer c'.position.offset e := by
  obtain ⟨front, run, text, hRead, hRun, hResult⟩ := h
  obtain ⟨before, hBefore⟩ := Cursor.over_iff_reads.mp hOver
  have hLess : text.length < n := by
    have hRunLength := hRun.length_lt
    have hReadLength := hRead.length_eq
    rw [List.length_append] at hReadLength
    omega
  obtain ⟨stop, hStop⟩ := hNested text hLess hResult
  have hTake := (hBefore.trans hRead).take_offset
  rw [← List.append_assoc] at hTake
  exact .enclosed hTake hRun hResult hStop

theorem errorAt_of_elements (hLe : c.rest.length ≤ n) (hOver : Cursor.Over buffer c)
    (h : (elements options (read options) c).outcome = .error e) :
    ErrorAt options buffer (elements options (read options) c).cursor.position.offset e := by
  obtain ⟨nodes, d, hPasses, ⟨-, hOutcome, -⟩ | ⟨failure, d', hFails, hOutcome, hCursor⟩⟩ :=
    elements_stops options (read options) c
  · rw [h] at hOutcome
    cases hOutcome
  · rw [h] at hOutcome
    obtain rfl := Except.error.inj hOutcome
    obtain ⟨text, hRead⟩ := hPasses.reads
    have hOver' := hOver.reads hRead
    rw [hCursor]
    cases failure with
    | bare fault =>
      obtain ⟨run, hRun⟩ := advances_element options (read options) d
      rw [hFails.2] at hRun
      exact .own hOver' hFails (hOver'.reads hRun).position_eq.symm
    | located e =>
      -- The failure was found in a text that is enclosed behind `d`, and so shorter.
      have hLength := hRead.length_eq
      exact errorAt_of_between hNested (by omega) hOver' (confines_element d e d' hFails)

end

theorem errorAt_of_read (h : (read options buffer).result = .error e) :
    ∃ stop, ErrorAt options buffer stop e := by
  induction hLength : buffer.length using Nat.strongRecOn generalizing buffer with
  | ind n ih =>
    rw [read_result] at h
    refine ⟨_, errorAt_of_elements ?_ hLength.le (Cursor.over_start buffer) h⟩
    intro text hLess hResult
    exact ih text.length hLess hResult rfl

theorem errorAt_of_confines {α : Type} {s : Scan α} (hOver : Cursor.Over buffer c)
    (hs : Confines options (read options) s) (h : Fails s c (.located e) c') :
    ErrorAt options buffer c'.position.offset e :=
  errorAt_of_between (fun _ _ => errorAt_of_read) le_rfl hOver (hs c e c' h)

theorem advances_readFrom (c : Cursor) : ∃ text, c.Reads text (readFrom options c).cursor := by
  obtain ⟨nodes, d, hPasses, ⟨-, -, hCursor⟩ | ⟨failure, d', hFails, -, hCursor⟩⟩ :=
    elements_stops options (read options) c
  · rw [readFrom, hCursor]
    exact hPasses.reads
  · obtain ⟨text, hRead⟩ := hPasses.reads
    obtain ⟨run, hRun⟩ := advances_element options (read options) d
    rw [hFails.2] at hRun
    rw [readFrom, hCursor]
    exact ⟨text ++ run, hRead.trans hRun⟩

end Template

namespace Session

open Scan

def after (options : Options) (s : Session) (commands : List Command) : Session :=
  commands.foldl (fun s command => (s.step options command).2) s

def Over (buffer : Bytes) (s : Session) : Prop :=
  s.buffer = buffer ∧ Cursor.Over buffer s.cursor

/-- The nodes that an answer shows. -/
def Answer.shown : Answer → List Node
  | .node n => [n]
  | .node? n => n.toList
  | .nodes list | .template list => list
  | .done | .byte _ | .byte? _ | .bytes _ | .size _ | .text _ | .numeral _ => []

/-- Holds where the nodes or the error that a command answers are placed as they should be, when it
has gone from `start` to `stop`. The nodes of a body belong to the text that it encloses. -/
def Faithful (options : Options) (buffer : Bytes) (start stop : Nat) :
    Command → Except Failure Answer → Prop
  | _, .error (.bare _) => True
  | _, .error (.located e) => Template.ErrorAt options buffer stop e
  | .body, .ok answer => ∃ written text,
      buffer.slice start stop = Byte.leftBrace :: written ++ [Byte.rightBrace] ∧
        Enclosed Byte.rightBrace options.bodyOpener written text ∧
        Template.ThroughoutTemplate options Node.Placed (fun _ _ => True) text answer.shown
  | _, .ok answer => ∀ node ∈ answer.shown,
      Template.Throughout options Node.Placed (fun _ _ => True) buffer node

variable {options : Options} {buffer : Bytes} {s : Session}

theorem run_append (commands others : List Command) :
    s.run options (commands ++ others) =
      s.run options commands ++ (s.after options commands).run options others := by
  induction commands generalizing s with
  | nil => rfl
  | cons command commands ih => exact congrArg (_ :: ·) ih

theorem advances_scan (options : Options) (s : Session) (command : Command) :
    Advances (command.scan options s) := by
  cases command with
  | peek => exact advances_peek.map _
  | pop => exact advances_pop.map _
  | slice => exact advances_pure _
  | length => exact advances_pure _
  | describe => exact advances_pure _
  | parse => exact Template.advances_readFrom
  | element => exact (Template.advances_element options _).map _
  | tag => exact (Template.advances_tag options _).map _
  | body => exact (Template.advances_body options _).map _
  | identifier => exact Template.advances_identifier.map _
  | number => exact Template.advances_number.map _
  | parameters => exact (Template.advances_parameters _).map _
  | parameter => exact (Template.advances_parameter _).map _
  | upTo delimiter opener => exact (advances_upTo delimiter opener).map _
  | skipSpaces => exact advances_skipSpaces.map _
  | expect b => exact (advances_expect b).map _

theorem Over.step (h : s.Over buffer) (command : Command) :
    (s.step options command).2.Over buffer := by
  obtain ⟨text, hRead⟩ := advances_scan options s command s.cursor
  exact ⟨h.1, h.2.reads hRead⟩

theorem Over.after (h : s.Over buffer) (commands : List Command) :
    (s.after options commands).Over buffer := by
  induction commands generalizing s with
  | nil => exact h
  | cons command commands ih => exact ih (h.step command)

theorem confines_scan (s : Session) {command : Command} (hParse : command ≠ .parse) :
    Confines options (Template.read options) (command.scan options s) := by
  cases command with
  | parse => exact absurd rfl hParse
  | peek => exact (bare_peek.map _).confines
  | pop => exact (bare_pop.map _).confines
  | slice => exact (bare_pure _).confines
  | length => exact (bare_pure _).confines
  | describe => exact (bare_pure _).confines
  | element => exact Template.confines_element.map _
  | tag => exact Template.confines_tag.map _
  | body => exact Template.confines_body.map _
  | identifier => exact (Template.bare_identifier.map _).confines
  | number => exact (Template.bare_number.map _).confines
  | parameters => exact Template.confines_parameters.map _
  | parameter => exact Template.confines_parameter.map _
  | upTo delimiter opener => exact ((bare_upTo delimiter opener).map _).confines
  | skipSpaces => exact (bare_skipSpaces.map _).confines
  | expect b => exact ((bare_expect b).map _).confines

theorem gives_parse_iff {c c' : Cursor} {answer : Answer} :
    Gives (Command.parse.scan options s) c answer c' ↔
      ∃ nodes, (Template.readFrom options c).outcome = .ok nodes ∧
        (Template.readFrom options c).cursor = c' ∧ answer = .template nodes := by
  simp only [Gives, Command.scan]
  cases hOutcome : (Template.readFrom options c).outcome with
  | ok nodes => simp [Except.mapError, Except.map, eq_comm, and_comm]
  | error e => simp [Except.mapError, Except.map]

theorem fails_parse_iff {c c' : Cursor} {e : ParseError} :
    Fails (Command.parse.scan options s) c (.located e) c' ↔
      (Template.readFrom options c).outcome = .error e ∧
        (Template.readFrom options c).cursor = c' := by
  simp only [Fails, Command.scan]
  cases hOutcome : (Template.readFrom options c).outcome with
  | ok nodes => simp [Except.mapError, Except.map]
  | error e' => simp [Except.mapError, Except.map]

theorem errorAt_of_scan (s : Session) (command : Command) {c c' : Cursor} {e : ParseError}
    (hOver : Cursor.Over buffer c) (h : Fails (command.scan options s) c (.located e) c') :
    Template.ErrorAt options buffer c'.position.offset e := by
  by_cases hParse : command = .parse
  · subst hParse
    obtain ⟨hOutcome, rfl⟩ := fails_parse_iff.mp h
    exact Template.errorAt_of_elements (fun _ _ => Template.errorAt_of_read) le_rfl hOver hOutcome
  · exact Template.errorAt_of_confines hOver (confines_scan s hParse) h

theorem faithful_of_gives {command : Command} {c c' : Cursor} {answer : Answer}
    (hOver : Cursor.Over buffer c) (h : Gives (command.scan options s) c answer c') :
    Faithful options buffer c.position.offset c'.position.offset command (.ok answer) := by
  have hNested : ∀ text template, text.length < c.rest.length →
      (Template.read options text).result = .ok template →
      Template.ThroughoutTemplate options Node.Placed (fun _ _ => True) text template :=
    fun _ _ _ => Template.throughout_placed
  have hPlaced : ∀ buffer node, Template.Given options buffer node → node.Placed buffer :=
    fun _ _ => Template.placed_of_given
  cases command with
  | parse =>
    obtain ⟨nodes, hOutcome, -, rfl⟩ := gives_parse_iff.mp h
    obtain ⟨d, hPasses, -⟩ := Template.elements_ok_iff_passes.mp hOutcome
    exact Template.throughout_passes hPlaced hNested le_rfl hOver hPasses
  | element =>
    obtain ⟨node?, hElement, rfl⟩ := gives_map_iff.mp h
    intro node hNode
    cases node? with
    | none => cases hNode
    | some node' =>
      obtain rfl := List.mem_singleton.mp hNode
      exact Template.throughout_element hPlaced hNested le_rfl hOver hElement
  | tag =>
    obtain ⟨node, hTag, rfl⟩ := gives_map_iff.mp h
    exact List.forall_mem_singleton.mpr (Template.throughout_tag hPlaced hNested le_rfl hOver hTag)
  | body =>
    obtain ⟨template, hBody, rfl⟩ := gives_map_iff.mp h
    obtain ⟨written, text, hRead, hText, hTemplate⟩ :=
      Template.throughout_body hNested le_rfl hBody
    exact ⟨written, text, hOver.slice hRead, hText, hTemplate⟩
  | identifier =>
    obtain ⟨node, hIdentifier, rfl⟩ := gives_map_iff.mp h
    exact List.forall_mem_singleton.mpr (Template.throughout_identifier hPlaced hOver hIdentifier)
  | parameters =>
    obtain ⟨list, hParameters, rfl⟩ := gives_map_iff.mp h
    exact Template.throughout_parameters hPlaced hNested le_rfl hOver hParameters
  | parameter =>
    obtain ⟨node?, hParameter, rfl⟩ := gives_map_iff.mp h
    intro node hNode
    cases node? with
    | none => cases hNode
    | some node' =>
      obtain rfl := List.mem_singleton.mp hNode
      exact Template.throughout_parameter hPlaced hNested le_rfl hOver hParameter
  | peek | pop | number | upTo | skipSpaces | expect =>
    obtain ⟨_, -, rfl⟩ := gives_map_iff.mp h
    exact List.forall_mem_nil _
  | slice | length | describe =>
    obtain ⟨rfl, -⟩ := gives_pure_iff.mp h
    exact List.forall_mem_nil _

theorem faithful_step (h : s.Over buffer) (command : Command) :
    Faithful options buffer s.cursor.position.offset
      (s.step options command).2.cursor.position.offset command (s.step options command).1 := by
  cases hOutcome : (s.step options command).1 with
  | ok answer => exact faithful_of_gives h.2 ⟨hOutcome, rfl⟩
  | error failure =>
    cases failure with
    | bare fault => cases command <;> trivial
    | located e =>
      have hError := errorAt_of_scan s command h.2 ⟨hOutcome, rfl⟩
      cases command <;> exact hError

/-- After every command of a session, whatever the commands were and however they ended, the cursor
is over the same buffer and has not moved back, its place is the one behind the text in front of it,
and what the command has answered is placed in the same way. -/
theorem faithful_after (options : Options) (buffer : Bytes) (commands : List Command)
    (command : Command) :
    let s := (start buffer).after options commands
    let answer := (s.step options command).1
    let next := (s.step options command).2
    let p := next.cursor.position
    (start buffer).run options (commands ++ [command]) =
        (start buffer).run options commands ++ [(answer, p)] ∧
      next.buffer = buffer ∧ next.cursor.rest = buffer.drop p.offset ∧
      s.cursor.position.offset ≤ p.offset ∧ p.offset ≤ buffer.length ∧
      p = Position.behind (buffer.take p.offset) ∧
      Faithful options buffer s.cursor.position.offset p.offset command answer := by
  intro s answer next p
  have hOver : s.Over buffer := Over.after ⟨rfl, Cursor.over_start buffer⟩ commands
  have hNext : next.Over buffer := hOver.step command
  obtain ⟨text, hRead⟩ := advances_scan options s command s.cursor
  have hOffset : p.offset = s.cursor.position.offset + text.length := hRead.offset_eq
  obtain ⟨front, hFront⟩ := Cursor.over_iff_reads.mp hNext.2
  refine ⟨run_append commands [command], hNext.1, hNext.2.rest_eq, ?_, hFront.offset_le,
    hNext.2.position_eq, faithful_step hOver command⟩
  rw [hOffset]
  exact Nat.le_add_right _ _

end Session

end TagTemplate
