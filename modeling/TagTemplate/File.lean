import TagTemplate.Byte
import TagTemplate.Text.Quoted

/-!
# Files

What stands at a path is a file with its bytes, a directory or nothing. Only a file can be read.
-/

namespace TagTemplate

inductive File
  | missing
  | directory
  | regular (content : Bytes)
  deriving DecidableEq

inductive FileError
  | notFound
  | isDirectory
  deriving DecidableEq

def FileError.message (path : String) : FileError → String
  | notFound => "[Errno 2] No such file or directory: " ++ quoted path
  | isDirectory => "[Errno 21] Is a directory: " ++ quoted path

def File.read : File → Except FileError Bytes
  | missing => .error .notFound
  | directory => .error .isDirectory
  | regular content => .ok content

end TagTemplate
