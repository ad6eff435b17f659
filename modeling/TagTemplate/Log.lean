import TagTemplate.Options.OfValue
import TagTemplate.Template.Read

/-!
# The log

Reading a template and checking options leave records. A logger writes them as lines, one for
each of its handlers, once its level is set to show them. Its level is set only once, by the first
set-up, which also gives it a handler if it has none. Of a record that cannot be put into words no
handler writes anything.
-/

namespace TagTemplate

namespace Log

inductive Record
  | template (event : Event)
  | options (entries : List (Value × Value))

namespace Record

def source : Record → String
  | template _ => "leaf.parser"
  | options _ => "leaf.config"

def message? : Record → Option String
  | template event => some event.message
  | options entries =>
    (Value.mapping entries).literal?.map ("Parser options from mapping: " ++ ·)

end Record

inductive Level
  | unset
  | info
  | debug
  deriving DecidableEq

def Level.name : Level → String
  | unset => "NOTSET"
  | info => "INFO"
  | debug => "DEBUG"

/-- A handler writes the message alone, or tags it with its level and source. -/
inductive Handler
  | plain
  | tagged
  deriving DecidableEq

def Handler.line? : Handler → Record → Option String
  | plain, r => r.message?
  | tagged, r => r.message?.map ("[" ++ Level.debug.name ++ "] " ++ r.source ++ ": " ++ ·)

structure Logger where
  level : Level
  handlers : List Handler
  isSetUp : Bool

namespace Logger

def start : Logger := ⟨.unset, [], false⟩

/-- Sets the level by the variable that asks for debugging, which is off when it is empty. -/
def setUp (setting : Option String) (logger : Logger) : Logger :=
  if logger.isSetUp then logger
  else
    { level := if setting.getD "" = "" then .info else .debug
      handlers := if logger.handlers = [] then [.tagged] else logger.handlers
      isSetUp := true }

def addHandler (logger : Logger) : Logger :=
  { logger with handlers := logger.handlers ++ [.plain] }

def lines (logger : Logger) (records : List Record) : List String :=
  if logger.level = .debug then records.flatMap fun r => logger.handlers.filterMap (·.line? r)
  else []

end Logger

def ofOptions (data : Value) : List Record :=
  match data with
  | .null => []
  | data =>
    match Options.entries data with
    | .ok entries => [.options entries]
    | .error _ => []

def ofTemplate (options : Options) (buffer : Bytes) : List Record :=
  (Template.read options buffer).trace.map .template

inductive Command
  | setUp (setting : Option String)
  | addHandler
  | parse (options : Options) (buffer : Bytes)
  | options (data : Value)

/-- The logger behind a command, and the lines that the command writes. -/
def step (logger : Logger) : Command → Logger × List String
  | .setUp setting => (logger.setUp setting, [])
  | .addHandler => (logger.addHandler, [])
  | .parse options buffer => (logger, logger.lines (ofTemplate options buffer))
  | .options data => (logger, logger.lines (ofOptions data))

/-- The loggers behind each of the commands, with the lines of that command. -/
def run (logger : Logger) : List Command → List (Logger × List String)
  | [] => []
  | command :: commands =>
    let (logger, lines) := step logger command
    (logger, lines) :: run logger commands

end Log

end TagTemplate
