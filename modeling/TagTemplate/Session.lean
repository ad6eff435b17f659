import TagTemplate.Template.Read

/-!
# Sessions over one buffer

A session holds a buffer and a cursor over it, and runs commands one after the other. A command
that fails leaves the cursor where it stopped, and the next one goes on from there.
-/

namespace TagTemplate

structure Session where
  buffer : Bytes
  cursor : Cursor

namespace Session

def start (buffer : Bytes) : Session :=
  ⟨buffer, Cursor.start buffer⟩

inductive Command
  | peek
  | pop
  | slice (start stop : Nat)
  | length
  | describe
  | parse
  | element
  | tag
  | body
  | identifier
  | number
  | parameters
  | parameter
  | upTo (delimiter : Byte) (opener : Option Byte)
  | skipSpaces
  | expect (b : Byte)

inductive Answer
  | done
  | byte (b : Byte)
  | byte? (b : Option Byte)
  | bytes (data : Bytes)
  | size (n : Nat)
  | text (s : String)
  | numeral (n : Numeral)
  | node (n : Node)
  | node? (n : Option Node)
  | nodes (list : List Node)
  | template (list : List Node)

def describe (s : Session) : String :=
  let p := s.cursor.position
  s!"ByteScanner(offset={p.offset}, {p.line}:{p.column})"

/-- What a command reads at the cursor. -/
def Command.scan (options : Options) (s : Session) : Command → Scan Answer
  | peek => .byte? <$> Scan.peek
  | pop => .byte <$> Scan.pop
  | slice start stop => pure (.bytes (s.buffer.slice start stop))
  | length => pure (.size s.buffer.length)
  | describe => pure (.text s.describe)
  | parse => fun c =>
    let step := Template.readFrom options c
    ⟨(step.outcome.mapError .located).map .template, step.cursor, step.trace⟩
  | element => .node? <$> Template.element options (Template.read options)
  | tag => .node <$> Template.tag options (Template.read options)
  | body => .nodes <$> Template.body options (Template.read options)
  | identifier => .node <$> Template.identifier
  | number => .numeral <$> Template.number
  | parameters => .nodes <$> Template.parameters (Template.read options)
  | parameter => .node? <$> Template.parameter (Template.read options)
  | upTo delimiter opener => .bytes <$> Scan.upTo delimiter opener
  | skipSpaces => (fun _ => .done) <$> Scan.skipSpaces
  | expect b => (fun _ => .done) <$> Scan.expect b

/-- What a command answers, and the session behind it. -/
def step (options : Options) (s : Session) (command : Command) :
    Except Failure Answer × Session :=
  let last := command.scan options s s.cursor
  (last.outcome, { s with cursor := last.cursor })

/-- The answers to a list of commands, each with the place where the command has ended. -/
def run (options : Options) (s : Session) :
    List Command → List (Except Failure Answer × Position)
  | [] => []
  | command :: commands =>
    let (answer, s) := s.step options command
    (answer, s.cursor.position) :: s.run options commands

end Session

end TagTemplate
