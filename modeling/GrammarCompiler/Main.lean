import GrammarCompiler.CommandLine.Program
import Std.Time.DateTime.Timestamp

/-!
# The executable

Runs the program on the operating system: reads and writes files and prints lines.
-/

namespace GrammarCompiler
namespace Executable

/-- The cause of a failure of the operating system. -/
def fileError : IO.Error → FileError
  | .noFileOrDirectory _ _ _ => .notFound
  | .inappropriateType _ code _ => if code = 21 then .isDirectory else .notDirectory
  | error => .other (toString error)

/-- Read a file. -/
def readBundle (path : String) : IO (Except FileError String) := do
  try return .ok (← IO.FS.readFile path)
  catch error => return .error (fileError error)

/-- Write a file. -/
def writeParser (target text : String) : IO (Except FileError Unit) := do
  try
    IO.FS.writeFile target text
    return .ok ()
  catch error => return .error (fileError error)

/-- The operating system as the program uses it.  The reader of bundles keeps no places,
so its complaints have none. -/
def host : Program.Host IO where
  circumstances := do
    return {
      time := (← Std.Time.Timestamp.now).toSecondsSinceUnixEpoch.val
      explain := fun _ => { line := 0, column := 0, text := "not in the interchange format" } }
  read := readBundle
  write := writeParser
  print line := IO.println line
  complain line := IO.eprintln line

end Executable
end GrammarCompiler

/-- The program. -/
def main (arguments : List String) : IO UInt32 := do
  return (← GrammarCompiler.Program.runOn GrammarCompiler.Executable.host arguments).toUInt32
