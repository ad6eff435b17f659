import TagTemplate.Number.Binary64
import TagTemplate.Options.Basic
import TagTemplate.Template.Scan

/-!
# Elements of a template

A template is a sequence of elements, raw passages and tags. What follows reads one element, or
a part of one, at a cursor. The parameter `nested` reads the templates that bodies and strings
hold, each in a buffer of its own.

    element    = tag | passage up to a sigil
    tag        = sigil identifier "(" parameters ")" spaces body?
    parameters = spaces | parameter ("," parameter)*
    parameter  = spaces (string | number | word)
    string     = quote, passage up to a quote, quote
    word       = identifier spaces (operator spaces parameter)?
    body       = "{" passage up to a right brace "}"
-/

namespace TagTemplate

/-- A number as a template writes it. -/
inductive Numeral
  | int (value : Int)
  | double (value : Binary64)
  deriving DecidableEq

namespace Numeral

def value (digits : Bytes) : Nat :=
  Decimal.value 10 (digits.map fun d => d.toNat - 0x30)

/-- Reads a run of digits and periods. With one period it is a double, without one an integer,
which may not be too long. -/
def ofRun (run : Bytes) : Except Fault Numeral :=
  match run.count Byte.period with
  | 0 =>
    if run.length = 0 ∨ Decimal.maxDigits < run.length then .error (.invalidNumber run.ascii "int")
    else .ok (int (value run))
  | 1 =>
    if run.length = 1 then .error (.invalidNumber run.ascii "double")
    else
      let whole := run.takeWhile (· ≠ Byte.period)
      let fraction := run.drop (whole.length + 1)
      .ok (double (Binary64.ofDecimal ⟨value (whole ++ fraction), -(fraction.length : Int)⟩))
  | _ => .error (.invalidNumber run.ascii "double")

def node (source : Source) : Numeral → Node
  | int value => .int value source
  | double value => .double value source

end Numeral

namespace Template

open Scan

def identifier : Scan Node := do
  let start ← position
  let name ← run Byte.isAlphanumeric
  return .identifier name.ascii (start.to (← position))

def number : Scan Numeral := do
  match Numeral.ofRun (← run fun b => b.isDigit || b = Byte.period) with
  | .ok numeral => return numeral
  | .error fault => fail fault

def startsParameter (b : Byte) : Bool :=
  b = Byte.quote || b.isAlphanumeric

section

variable (options : Options) (nested : Bytes → Reading)

/-- Reads a text that was cut out of this buffer. -/
def enclosed (enclosure : Enclosure) (text : Bytes) : Scan (List Node) := do
  record (.nested enclosure text.length)
  inside (nested text)

def stringParameter (start : Position) : Scan Node := do
  expect Byte.quote
  let text ← upTo Byte.quote none
  expect Byte.quote
  let template ← enclosed nested .string text
  return .string template (start.to (← position))

def numberParameter (start : Position) : Scan Node := do
  let numeral ← number
  return numeral.node (start.to (← position))

/-- The right operand of an operator that has just been taken. -/
def operand (parameter : Scan (Option Node)) : Scan Node := do
  skipSpaces
  if (← peek).any (fun b => !startsParameter b) then fail .missingOperand
  else
    match ← parameter with
    | none => fail .missingOperand
    | some right => return right

/-- An identifier, or an expression that starts with one. Operators associate to the right. -/
def wordParameter (parameter : Scan (Option Node)) (start : Position) (first : Byte) :
    Scan Node := do
  let left ← identifier
  if left.source.isEmpty then fail (.unexpectedByte none (some first) (some "parameter"))
  else
    skipSpaces
    match (← peek).bind Operator.ofByte? with
    | none => return left.withSource (start.to (← position))
    | some operator =>
      discard pop
      let right ← operand parameter
      return .expression operator left right (start.to (← position))

/-- One parameter, where `self` reads the one behind an operator. -/
def parameterWith (self : Scan (Option Node)) : Scan (Option Node) := do
  skipSpaces
  let start ← position
  match ← peek with
  | none => fail .endOfInput
  | some b =>
    if b = Byte.rightParenthesis then return none
    else if b = Byte.quote then some <$> stringParameter nested start
    else if b.isDigit then some <$> numberParameter start
    else some <$> wordParameter self start b

/-- One parameter, or none where the list of parameters ends. -/
def parameter : Scan (Option Node) :=
  fix (parameterWith nested)

/-- A comma and a parameter, if a comma is next, and what `self` reads behind them. -/
def moreParametersWith (self : Scan (List Node)) : Scan (List Node) := do
  if (← peek) = some Byte.comma then
    expect Byte.comma
    match ← parameter nested with
    | none => fail (.unexpectedByte none (← peek) (some "parameter"))
    | some next => return next :: (← self)
  else return []

def moreParameters : Scan (List Node) :=
  fix (moreParametersWith nested)

def parameterList : Scan (List Node) := do
  match ← parameter nested with
  | none => return []
  | some first => return first :: (← moreParameters nested)

def parameters : Scan (List Node) := do
  expect Byte.leftParenthesis
  let list ← parameterList nested
  expect Byte.rightParenthesis
  return list

def body : Scan (List Node) := do
  expect Byte.leftBrace
  let text ← upTo Byte.rightBrace options.bodyOpener
  expect Byte.rightBrace
  enclosed nested .body text

def body? : Scan (Option (List Node)) := do
  if (← peek) = some Byte.leftBrace then some <$> body options nested else return none

def tag : Scan Node := do
  let start ← position
  expect options.sigil.byte
  let name ← identifier
  let list ← parameters nested
  skipSpaces
  let content ← body? options nested
  return .tag name list content (start.to (← position))

def raw : Scan Node := do
  let start ← position
  let data ← upTo options.sigil.byte none
  return .raw data (start.to (← position))

def element : Scan (Option Node) := do
  match ← peek with
  | none => return none
  | some b =>
    if b = options.sigil.byte then some <$> tag options nested
    else some <$> raw options

end

end Template

end TagTemplate
