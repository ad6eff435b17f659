import TagTemplate.Position

/-!
# What can be wrong in a template

A `Fault` is a cause without a place. A `ParseError` adds the stretch of the buffer that was
being read. A step of the reader fails with either: a fault in its own buffer has no place yet,
and an error of a nested buffer keeps the place it has there.
-/

namespace TagTemplate

inductive Fault
  | endOfInput
  /-- A byte or, when `what` is given, a construct was due, and `actual` stands there. -/
  | unexpectedByte (expected actual : Option Byte) (what : Option String)
  | invalidNumber (text : String) (type : String)
  | missingOperand
  deriving DecidableEq

namespace Fault

def message : Fault → String
  | endOfInput => "Unexpected EOF"
  | unexpectedByte expected actual what =>
    "Expected `" ++ what.getD (Byte.describe expected) ++ "`, got `" ++ Byte.describe actual ++ "`"
  | invalidNumber text type => "Unexpected non " ++ type ++ ": `" ++ text ++ "`"
  | missingOperand => "Expected right parameter"

def expected? : Fault → Option Byte
  | unexpectedByte expected _ _ => expected
  | _ => none

def actual? : Fault → Option Byte
  | unexpectedByte _ actual _ => actual
  | _ => none

def text? : Fault → Option String
  | invalidNumber text _ => some text
  | _ => none

end Fault

structure ParseError where
  source : Source
  cause : Fault
  deriving DecidableEq

def ParseError.message (e : ParseError) : String :=
  s!"{e.cause.message} at {e.source.line}:{e.source.column}"

inductive Failure
  | bare (fault : Fault)
  | located (error : ParseError)
  deriving DecidableEq

end TagTemplate
