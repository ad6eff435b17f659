import TagTemplate.Log
import TagTemplate.Proofs.OptionsData

/-!
# What a logger writes

A logger starts without a level and without handlers. Whatever commands are run, its level is the
choice of the first set-up among them, and its handlers are one for each command that adds one, in
front of them the tagged one of the first set-up if that has found none. So what a command writes
can be told from the commands in front of it and from what it has to say: the events of a template
in their order, or the entries of a mapping that names options only, if they can be written.
-/

namespace TagTemplate

namespace Log

/-- Debugging is asked for by a setting that is not empty. -/
def Level.ofSetting : Option String → Level
  | none => .info
  | some setting => if setting = "" then .info else .debug

namespace Command

def isSetUp : Command → Bool
  | setUp _ => true
  | _ => false

def addsHandler : Command → Bool
  | addHandler => true
  | _ => false

/-- The level that a command asks for. -/
def level? : Command → Option Level
  | setUp setting => some (Level.ofSetting setting)
  | _ => none

/-- What a command has to say, each text with its source in front. -/
def messages : Command → List (String × String)
  | parse settings buffer =>
    (Template.read settings buffer).trace.map fun event => ("leaf.parser", event.message)
  | options (.mapping entries) =>
    if ∀ entry ∈ entries, entry.1.NamesOption then
      (Value.mapping entries).literal?.toList.map fun text =>
        ("leaf.config", "Parser options from mapping: " ++ text)
    else []
  | _ => []

def records : Command → List Record
  | setUp _ | addHandler => []
  | parse settings buffer => ofTemplate settings buffer
  | options data => ofOptions data

end Command

/-- The text of a record with its source, if it has one. -/
def Record.sourced (record : Record) : List (String × String) :=
  record.message?.toList.map fun text => (record.source, text)

section

variable (commands : List Command)

/-- The level that the first set-up has asked for. -/
def levelAfter : Level :=
  (commands.findSome? Command.level?).getD .unset

/-- Holds if there is a set-up among the commands and none in front of the first one adds a
handler. -/
def setsUpFirst : Bool :=
  commands.any Command.isSetUp &&
    !(commands.takeWhile (!·.isSetUp)).any Command.addsHandler

/-- How many handlers the commands have added by themselves. -/
def added : Nat :=
  commands.countP Command.addsHandler

def handlersAfter : List Handler :=
  (if setsUpFirst commands then [.tagged] else []) ++ List.replicate (added commands) .plain

/-- What a command writes behind the given ones: each of its texts once for each handler, the one
of the set-up first, and it alone with the level and the source of the text. -/
def linesAfter (command : Command) : List String :=
  if levelAfter commands = .debug then
    command.messages.flatMap fun (source, text) =>
      (if setsUpFirst commands then ["[DEBUG] " ++ source ++ ": " ++ text] else []) ++
        List.replicate (added commands) text
  else []

/-- The logger that the commands lead to. -/
def loggerAfter : Logger :=
  ⟨levelAfter commands, handlersAfter commands, commands.any Command.isSetUp⟩

end

section

variable {commands : List Command}

theorem levelAfter_append (commands more : List Command) :
    levelAfter (commands ++ more) =
      if commands.any Command.isSetUp then levelAfter commands else levelAfter more := by
  induction commands with
  | nil => rfl
  | cons command commands ih =>
    cases command with
    | setUp setting => rfl
    | _ => exact ih

theorem levelAfter_of_not_any (h : commands.any Command.isSetUp = false) :
    levelAfter commands = .unset := by
  have hNone := levelAfter_append commands []
  rwa [h, List.append_nil] at hNone

theorem setsUpFirst_of_not_any (h : commands.any Command.isSetUp = false) :
    setsUpFirst commands = false := by
  rw [setsUpFirst, h, Bool.false_and]

theorem setsUpFirst_append (commands more : List Command) :
    setsUpFirst (commands ++ more) =
      if commands.any Command.isSetUp then setsUpFirst commands
      else !commands.any Command.addsHandler && setsUpFirst more := by
  induction commands with
  | nil => rfl
  | cons command commands ih =>
    cases command with
    | setUp setting => rfl
    | addHandler => simp [setsUpFirst, Command.isSetUp, Command.addsHandler]
    | _ => exact ih

theorem added_append (commands more : List Command) :
    added (commands ++ more) = added commands + added more :=
  List.countP_append

/-- The first set-up adds a handler where there is none. -/
theorem handlersAfter_setUp (h : commands.any Command.isSetUp = false)
    (setting : Option String) :
    handlersAfter (commands ++ [.setUp setting]) =
      if handlersAfter commands = [] then [.tagged] else handlersAfter commands := by
  have hAdded : added [.setUp setting] = 0 := rfl
  have hFirst : setsUpFirst [.setUp setting] = true := rfl
  rw [handlersAfter, handlersAfter, setsUpFirst_append, h, setsUpFirst_of_not_any h, added_append,
    hAdded, hFirst, Nat.add_zero, Bool.and_true]
  cases hAdds : commands.any Command.addsHandler with
  | true =>
    have hPos : added commands ≠ 0 := by
      rw [added, ne_eq, List.countP_eq_zero, ← List.any_eq_false]
      simp [hAdds]
    simp [hPos]
  | false =>
    have hZero : added commands = 0 := List.countP_eq_zero.mpr (List.any_eq_false.mp hAdds)
    simp [hZero]

theorem setUp_loggerAfter (commands : List Command) (setting : Option String) :
    (loggerAfter commands).setUp setting = loggerAfter (commands ++ [.setUp setting]) := by
  have hAny : (commands ++ [Command.setUp setting]).any Command.isSetUp = true := by
    rw [List.any_append]
    exact Bool.or_true _
  rw [Logger.setUp, loggerAfter, loggerAfter, hAny, levelAfter_append]
  cases hSetUp : commands.any Command.isSetUp with
  | true =>
    rw [handlersAfter, handlersAfter, setsUpFirst_append, added_append, hSetUp]
    rfl
  | false =>
    rw [handlersAfter_setUp hSetUp]
    cases setting <;> rfl

/-- No other command does more than add a handler. -/
theorem loggerAfter_concat {command : Command} (h : command.isSetUp = false) :
    loggerAfter (commands ++ [command]) =
      ⟨levelAfter commands,
        handlersAfter commands ++ List.replicate (added [command]) .plain,
        commands.any Command.isSetUp⟩ := by
  have hNone : [command].any Command.isSetUp = false := by simp [h]
  rw [loggerAfter, handlersAfter, handlersAfter, List.any_append, hNone, Bool.or_false,
    levelAfter_append, setsUpFirst_append, added_append, levelAfter_of_not_any hNone,
    setsUpFirst_of_not_any hNone, ← List.replicate_append_replicate, List.append_assoc]
  cases hSetUp : commands.any Command.isSetUp with
  | true => rfl
  | false =>
    rw [levelAfter_of_not_any hSetUp, setsUpFirst_of_not_any hSetUp, Bool.and_false]
    rfl

theorem loggerAfter_concat_of_quiet {command : Command} (hSetUp : command.isSetUp = false)
    (hAdds : command.addsHandler = false) :
    loggerAfter (commands ++ [command]) = loggerAfter commands := by
  have hAdded : added [command] = 0 := by
    rw [added, List.countP_singleton, hAdds]
    rfl
  rw [loggerAfter_concat hSetUp, hAdded, List.replicate_zero, List.append_nil, loggerAfter]

/-- A mapping leaves a record if its keys name options. -/
theorem ofOptions_mapping (entries : List (Value × Value)) :
    ofOptions (.mapping entries) =
      if ∀ entry ∈ entries, entry.1.NamesOption then [.options entries] else [] := by
  rw [ofOptions, Options.entries_mapping]
  · by_cases hNames : ∀ entry ∈ entries, entry.1.NamesOption
    · simp only [if_pos hNames]
    · simp only [if_neg hNames]
  · exact nofun

theorem messages_eq (command : Command) :
    command.messages = command.records.flatMap Record.sourced := by
  cases command with
  | parse settings buffer =>
    rw [Command.messages, Command.records, ofTemplate, List.flatMap_map, List.map_eq_flatMap]
    rfl
  | options data =>
    cases data with
    | mapping entries =>
      rw [Command.messages, Command.records, ofOptions_mapping]
      split
      · simp [Record.sourced, Record.message?, Record.source, Option.toList_map]
      · rfl
    | _ => rfl
  | _ => rfl

theorem filterMap_line?_handlersAfter (commands : List Command) (record : Record) :
    (handlersAfter commands).filterMap (·.line? record) =
      record.sourced.flatMap fun (source, text) =>
        (if setsUpFirst commands then ["[DEBUG] " ++ source ++ ": " ++ text] else []) ++
          List.replicate (added commands) text := by
  rw [handlersAfter, List.filterMap_append]
  cases hMessage : record.message? with
  | none => cases setsUpFirst commands <;> simp [Record.sourced, Handler.line?, hMessage]
  | some text =>
    cases setsUpFirst commands <;>
      simp [Record.sourced, Handler.line?, hMessage, Level.name]

theorem lines_loggerAfter (commands : List Command) (command : Command) :
    (loggerAfter commands).lines command.records = linesAfter commands command := by
  rw [linesAfter, messages_eq, List.flatMap_assoc]
  simp only [Logger.lines, loggerAfter, filterMap_line?_handlersAfter]

/-- What a command does is told from the commands in front of it. -/
theorem step_loggerAfter (commands : List Command) (command : Command) :
    step (loggerAfter commands) command =
      (loggerAfter (commands ++ [command]), linesAfter commands command) := by
  have hNone : (loggerAfter commands).lines [] = [] := ite_self []
  rw [← lines_loggerAfter]
  cases command with
  | setUp setting => rw [step, setUp_loggerAfter, Command.records, hNone]
  | addHandler =>
    rw [step, loggerAfter_concat rfl, Command.records, hNone]
    rfl
  | parse settings buffer => rw [step, loggerAfter_concat_of_quiet rfl rfl, Command.records]
  | options data => rw [step, loggerAfter_concat_of_quiet rfl rfl, Command.records]

/-- A run goes on from the commands that have been done. -/
theorem run_getElem? (done front : List Command) (command : Command) (back : List Command) :
    (run (loggerAfter done) (front ++ command :: back))[front.length]? =
      some (loggerAfter (done ++ front ++ [command]), linesAfter (done ++ front) command) := by
  induction front generalizing done with
  | nil =>
    rw [List.append_nil, List.nil_append, run, step_loggerAfter]
    rfl
  | cons first front ih =>
    rw [List.cons_append, run, step_loggerAfter, List.append_cons done first front]
    exact ih (done ++ [first])

end

example :
    (run Logger.start
      [.setUp (some "1"), .addHandler, .setUp none,
        .parse Options.standard [0x23, 0x61, 0x28, 0x29, 0x7B, 0x7D]])[3]? =
    some (⟨.debug, [.tagged, .plain], true⟩,
      ["[DEBUG] leaf.parser: Parsing nested body (0 bytes)", "Parsing nested body (0 bytes)"]) := by
  with_unfolding_all rfl

end Log

end TagTemplate
