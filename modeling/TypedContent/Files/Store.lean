import TypedContent.Files.Path

/-!
# File operations

What the program does to files, and how each operation may fail. The operations are a
class, so that the program runs on the file system and on a `FileTree` alike.
-/

namespace TypedContent

inductive FileError where
  | notFound
  | alreadyExists
  | notDirectory
  | isDirectory
  | nameTooLong
  | nulInPath
  | notText
  | other (message : String)
  deriving DecidableEq

def FileError.message : FileError → String
  | .notFound => "No such file or directory (os error 2)"
  | .alreadyExists => "File exists (os error 17)"
  | .notDirectory => "Not a directory (os error 20)"
  | .isDirectory => "Is a directory (os error 21)"
  | .nameTooLong => "File name too long (os error 36)"
  | .nulInPath => "file name contained an unexpected NUL byte"
  | .notText => "stream did not contain valid UTF-8"
  | .other message => message

def checkPath (path : String) : Except FileError Unit :=
  if '\x00' ∈ path.toList then .error .nulInPath
  else if Path.longestPath < path.utf8ByteSize then .error .nameTooLong
  else .ok ()

class FileStore (m : Type → Type) where
  readText : String → m (Except FileError String)
  makeDirectory : String → m (Except FileError Unit)
  writeText : String → String → m (Except FileError Unit)
  rename : String → String → m (Except FileError Unit)
  removeFile : String → m (Except FileError Unit)

end TypedContent
