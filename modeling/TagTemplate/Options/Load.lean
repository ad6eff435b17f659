import TagTemplate.File
import TagTemplate.Options.OfValue
import TagTemplate.Text.Utf8

/-!
# Options from a file

A file of options holds UTF-8 text in YAML. Its lines may end with a carriage return, a line feed
or both. What the text means is left to a reader of YAML, which gives data or tells what is wrong.
-/

namespace TagTemplate

/-- Gives the data that a text stands for, or what is wrong with it. -/
abbrev SettingsReader := String → Except String Value

inductive LoadError
  | unreadable (error : FileError)
  | notText
  | notYaml (reason : String)
  | invalid (error : OptionsError)

/-- What the user is told. For bytes that are no text there is no message, nor is there one for data
with a fault of which none can be given. -/
def LoadError.message? (path : String) : LoadError → Option String
  | unreadable e => some (path ++ ": cannot read options file: " ++ e.message path)
  | notText => none
  | notYaml reason => some (path ++ ": invalid YAML: " ++ reason)
  | invalid e => e.message?.map (path ++ ": " ++ ·)

/-- The text with a line feed at the end of each line. -/
def normalizeLines : List Char → List Char
  | [] => []
  | '\r' :: '\n' :: rest => '\n' :: normalizeLines rest
  | c :: rest => (if c = '\r' then '\n' else c) :: normalizeLines rest

namespace Options

def load (read : SettingsReader) (file : File) : Except LoadError Options := do
  let content ← file.read.mapError .unreadable
  let text ← (Utf8.decode? content).elim (.error .notText) .ok
  let data ← (read (String.ofList (normalizeLines text))).mapError .notYaml
  (ofValue data).mapError .invalid

end Options

end TagTemplate
