import TagTemplate.Proofs.Session

/-!
# Reading on

Wherever the commands of a session have left its cursor, the rest of the buffer is read as a buffer
of its own is: nodes and errors are the same, moved by the text in front of the cursor, and those of
nested templates are the same where they stand. A backslash that the cursor has passed escapes
nothing behind it.
-/

namespace TagTemplate

namespace Cursor

variable {buffer : Bytes} {c : Cursor}

theorem Over.behind (h : Over buffer c) :
    (start (buffer.drop c.position.offset)).Behind (buffer.take c.position.offset) c :=
  ⟨[], rfl, h.position_eq.trans (congrArg Position.behind (List.append_nil _).symm)⟩

end Cursor

namespace Template

open Scan

variable {options : Options} {c : Cursor} {nodes : List Node}

/-- What starts with a sigil starts with a tag. -/
theorem head?_of_elements {nested : Bytes → Reading}
    (h : (elements options nested c).outcome = .ok nodes)
    (hSigil : c.peek = some options.sigil.byte) :
    ∃ name parameters body source, nodes.head? = some (.tag name parameters body source) := by
  obtain ⟨d, hPasses, hRest⟩ := elements_ok_iff_passes.mp h
  cases hPasses with
  | done =>
    rw [Cursor.peek, hRest] at hSigil
    cases hSigil
  | element hElement hOthers =>
    rcases gives_element_some_iff.mp hElement with hTag | ⟨-, hOther, -⟩
    · obtain ⟨_, _, _, _, _, _, _, _, -, -, -, -, -, -, -, -, rfl⟩ := gives_tag_iff.mp hTag
      exact ⟨_, _, _, _, rfl⟩
    · exact absurd hSigil hOther

end Template

namespace Session

open Scan

variable {options : Options} {buffer : Bytes} {s : Session}

theorem step_parse_of_ok {nodes : List Node}
    (h : (Template.readFrom options s.cursor).outcome = .ok nodes) :
    (s.step options .parse).1 = .ok (.template nodes) :=
  (gives_parse_iff.mpr ⟨nodes, h, rfl, rfl⟩ : Gives (Command.parse.scan options s) _ _ _).1

theorem step_parse_of_error {e : ParseError}
    (h : (Template.readFrom options s.cursor).outcome = .error e) :
    (s.step options .parse).1 = .error (.located e) :=
  (fails_parse_iff.mpr ⟨h, rfl⟩ : Fails (Command.parse.scan options s) _ _ _).1

theorem readFrom_of_step_parse {nodes : List Node}
    (h : (s.step options .parse).1 = .ok (.template nodes)) :
    (Template.readFrom options s.cursor).outcome = .ok nodes := by
  obtain ⟨nodes', hOutcome, -, hNodes⟩ :=
    gives_parse_iff.mp (⟨h, rfl⟩ : Gives (Command.parse.scan options s) s.cursor _ _)
  cases hNodes
  exact hOutcome

theorem after_append (commands others : List Command) :
    s.after options (commands ++ others) = (s.after options commands).after options others :=
  List.foldl_append

theorem offset_step_pop (options : Options) {b : Byte} {rest : Bytes}
    (h : s.cursor.rest = b :: rest) :
    (s.step options .pop).2.cursor.position.offset = s.cursor.position.offset + 1 := by
  obtain ⟨c, hRead, -⟩ := @Cursor.exists_reads s.cursor [b] rest h
  have hPop : Gives (Command.pop.scan options s) s.cursor (.byte b) c :=
    gives_map_iff.mpr ⟨b, gives_pop_iff.mpr hRead, rfl⟩
  exact (congrArg (·.position.offset) hPop.2).trans hRead.offset_eq

/-- Every place of the buffer is come to, if only by taking one byte after the other. -/
theorem exists_after_offset (options : Options) {k : Nat} (hk : k ≤ buffer.length) :
    ∃ commands, ((start buffer).after options commands).cursor.position.offset = k := by
  induction k with
  | zero => exact ⟨[], rfl⟩
  | succ k ih =>
    obtain ⟨commands, hCommands⟩ := ih (Nat.le_of_succ_le hk)
    have hOver : ((start buffer).after options commands).Over buffer :=
      Over.after ⟨rfl, Cursor.over_start buffer⟩ commands
    obtain ⟨b, rest, hRest⟩ : ∃ b rest, buffer.drop k = b :: rest := by
      apply List.exists_cons_of_ne_nil
      rw [ne_eq, List.drop_eq_nil_iff]
      omega
    rw [← hCommands, ← hOver.2.rest_eq] at hRest
    refine ⟨commands ++ [.pop], ?_⟩
    rw [after_append, ← hCommands]
    exact offset_step_pop options hRest

/-- From wherever the commands of a session have come to, the rest of the buffer is parsed as a
buffer of its own, moved behind what stands in front of it. -/
theorem parse_after (options : Options) {buffer : Bytes} {k : Nat} (hk : k ≤ buffer.length) :
    (∃ commands, ((start buffer).after options commands).cursor.position.offset = k) ∧
      ∀ commands, ((start buffer).after options commands).cursor.position.offset = k →
        let front := buffer.take k
        let back := buffer.drop k
        let answer := (((start buffer).after options commands).step options .parse).1
        let next := (((start buffer).after options commands).step options .parse).2
        let alone := ((start back).step options .parse).2
        (∀ nodes, (Template.read options back).result = .ok nodes →
          answer = .ok (.template (nodes.map (Node.shift front)))) ∧
        (∀ e, Template.OwnError options back e → answer = .error (.located (e.shift front))) ∧
        (∀ e, Template.NestedError options back e → answer = .error (.located e)) ∧
        (∀ e, (Template.read options back).result = .error e ↔
          Template.OwnError options back e ∨ Template.NestedError options back e) ∧
        (next.buffer = buffer ∧ next.cursor.rest = alone.cursor.rest ∧
          next.cursor.position = alone.cursor.position.shift front) ∧
        (buffer[k]? = some options.sigil.byte → ∀ nodes, answer = .ok (.template nodes) →
          ∃ name parameters body source,
            nodes.head? = some (.tag name parameters body source)) := by
  refine ⟨exists_after_offset options hk, ?_⟩
  rintro commands rfl
  generalize hSession : (start buffer).after options commands = s
  have hOver : s.Over buffer := hSession ▸ Over.after ⟨rfl, Cursor.over_start buffer⟩ commands
  have hBehind := hOver.2.behind
  have hRest := hOver.2.rest_eq
  intro front back answer next alone
  refine ⟨fun nodes hNodes => ?_, fun e hOwn => ?_, fun e hNested => ?_,
    fun e => Template.read_error_iff, ⟨hOver.1, ?_⟩, fun hSigil nodes hNodes => ?_⟩
  · rw [Template.read_result] at hNodes
    exact step_parse_of_ok (Template.elements_behind_of_ok hNodes hBehind hRest)
  · exact step_parse_of_error (Template.elements_behind_of_own hOwn hBehind hRest)
  · exact step_parse_of_error (Template.elements_behind_of_nested hNested hBehind hRest)
  · obtain ⟨hStop, hStopRest⟩ :=
      Template.elements_behind_cursor (Template.read options) hBehind hRest
    exact ⟨hStopRest, hStop.position⟩
  · apply Template.head?_of_elements (readFrom_of_step_parse hNodes)
    rw [Cursor.peek, hRest, List.head?_drop]
    exact hSigil

/-- A tag that fails at the end of its line, and one that is parsed behind a backslash of the next
line. -/
theorem parse_after_failed_tag :
    ((start [0x23, 0x61, 0x0A, 0x5C, 0x23, 0x62, 0x28, 0x29]).after Options.standard
        [.tag, .pop, .pop]).cursor.position.offset = 4 ∧
      (Template.read Options.standard [0x23, 0x62, 0x28, 0x29]).result =
        .ok [.tag (.identifier "b" ⟨1, 2, 1, 2⟩) [] none ⟨1, 1, 0, 4⟩] ∧
      (((start [0x23, 0x61, 0x0A, 0x5C, 0x23, 0x62, 0x28, 0x29]).after Options.standard
          [.tag, .pop, .pop]).step Options.standard .parse).1 =
        .ok (.template [.tag (.identifier "b" ⟨2, 3, 5, 6⟩) [] none ⟨2, 2, 4, 8⟩]) := by
  have hOffset : ((start [0x23, 0x61, 0x0A, 0x5C, 0x23, 0x62, 0x28, 0x29]).after Options.standard
      [.tag, .pop, .pop]).cursor.position.offset = 4 := by
    with_unfolding_all rfl
  have hRead : (Template.read Options.standard [0x23, 0x62, 0x28, 0x29]).result =
      .ok [.tag (.identifier "b" ⟨1, 2, 1, 2⟩) [] none ⟨1, 1, 0, 4⟩] := by
    with_unfolding_all rfl
  have hLength : 4 ≤ ([0x23, 0x61, 0x0A, 0x5C, 0x23, 0x62, 0x28, 0x29] : Bytes).length := by decide
  exact ⟨hOffset, hRead, ((parse_after Options.standard hLength).2 _ hOffset).1 _ hRead⟩

end Session

end TagTemplate
