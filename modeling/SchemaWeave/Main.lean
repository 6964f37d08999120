import SchemaWeave.Command.Arguments
import SchemaWeave.Complete.Filter

/-!
Runs the command of a command line on the files of the system. What a run complains about goes to
standard error. A host's command is not started: a stand-in runs in its place, if there is one.
-/

namespace SchemaWeave

/-- Why an access to a file of the system failed. -/
def FileError.ofSystem : IO.Error → FileError
  | .noFileOrDirectory .. => .notFound
  | .inappropriateType .. => .isADirectory
  | e => .other (toString e)

/-- Access to the files of the system. -/
def systemFiles : Files IO where
  read path := do
    try return .ok (← IO.FS.readFile path)
    catch e => return .error (.ofSystem e)
  isFile path := do
    try
      let _ ← IO.FS.readBinFile path
      return true
    catch _ => return false
  write path text := do
    try return .ok (← IO.FS.writeFile path text)
    catch e => return .error (.ofSystem e)

/-- Prints why a command failed. -/
def CommandError.report (e : CommandError) : IO Unit := do
  IO.eprintln s!"Error: {e.message}"
  match e.cause? with
  | some cause => IO.eprintln s!"\nCaused by:\n    {cause}"
  | none => return

/-- Prints a result, or why there is none; also the exit status. -/
def printResult (result : Except CommandError String) : IO UInt32 := do
  match result with
  | .ok rendered =>
    IO.print rendered
    return 0
  | .error e =>
    e.report
    return 1

/-- Prints a completed document, unless it was written to a file, and what went wrong; also the exit
status. -/
def CompleteCommand.printOutcome (c : CompleteCommand)
    (result : Except CommandError CompleteOutcome) : IO UInt32 := do
  match result with
  | .error e =>
    e.report
    return 1
  | .ok outcome =>
    if c.output.isNone then IO.print outcome.rendered
    for diagnostic in outcome.diagnostics do
      IO.eprintln s!"{diagnostic.path}: {diagnostic.message}"
    if outcome.fails c.strict then
      IO.eprintln "the document has unresolved directives"
      return 1
    return 0

/-- Runs a command. -/
def Command.execute : Command → IO UInt32
  | .complete c => do c.printOutcome (← (c.run Filter.runner systemFiles).run)
  | .eval c => do printResult (← (c.run Filter.runner systemFiles).run)
  | .schema c => do printResult (← (c.run Filter.runner systemFiles).run)

end SchemaWeave

def main (words : List String) : IO UInt32 := do
  match SchemaWeave.Command.ofWords words with
  | .ok command => command.execute
  | .error e =>
    IO.eprintln s!"error: {e.message}"
    return 2
