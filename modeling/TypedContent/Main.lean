import TypedContent.Command.Run

/-!
# The program
-/

namespace TypedContent

/-- The error of an operation on the file system, in the words of the program. -/
def FileError.ofSystem : IO.Error → FileError
  | .noFileOrDirectory .. => .notFound
  | .alreadyExists .. => .alreadyExists
  | .inappropriateType _ 20 _ => .notDirectory
  | .inappropriateType _ 21 _ => .isDirectory
  | .invalidArgument _ 36 _ => .nameTooLong
  | e => .other (toString e)

/-- Runs an operation of the file system on a path and catches its error. -/
def attempt {α : Type} (path : String) (operation : IO α) : IO (Except FileError α) := do
  match checkPath path with
  | .error e => return .error e
  | .ok () =>
    try return .ok (← operation)
    catch e => return .error (.ofSystem e)

instance : FileStore IO where
  readText path := do
    match ← attempt path (IO.FS.readBinFile path) with
    | .error e => return .error e
    | .ok bytes =>
      match String.fromUTF8? bytes with
      | some text => return .ok text
      | none => return .error .notText
  makeDirectory path := attempt path (IO.FS.createDirAll path)
  writeText path content := attempt path (IO.FS.writeFile path content)
  rename source path := attempt source (IO.FS.rename source path)
  removeFile path := attempt path (IO.FS.removeFile path)

def Environment.ofSystem : IO Environment :=
  return {
    home := (← IO.getEnv "HOME").filter (!·.isEmpty)
    configHome := ← IO.getEnv "XDG_CONFIG_HOME" }

def usageText : String :=
  "Generate typed content packages from a content schema\n\n" ++
  "Usage: contentgen generate [--root DIR] [--schema FILE] [--cache FILE] [-o|--out DIR] [--watch]\n" ++
  "       contentgen schema [--root DIR] [--schema FILE]\n" ++
  "       contentgen types [--root DIR] [--schema FILE]\n"

end TypedContent

open TypedContent in
def main (arguments : List String) : IO UInt32 := do
  match ← Command.runArguments (← Environment.ofSystem) arguments with
  | .usage .shown =>
    IO.print usageText
    return 0
  | .usage .mistaken =>
    IO.eprint usageText
    return 2
  | .ran exitCode output errors =>
    IO.print output
    IO.eprint errors
    return UInt32.ofNat exitCode
