import TagTemplate.File
import TagTemplate.Template.Read

/-!
# Templates from files

The bytes of a file are read as they are.
-/

namespace TagTemplate

def Template.load (options : Options) (file : File) : Except FileError Reading :=
  file.read.map (Template.read options)

end TagTemplate
