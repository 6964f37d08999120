import SchemaWeave.Command.Context
import SchemaWeave.Command.Format

/-!
Completing a document, evaluating an expression, and printing the schema of a type.
-/

namespace SchemaWeave

/-- Completes a document; the result goes into a file if one is given. -/
structure CompleteCommand where
  input : String
  output : Option String
  format : Option Format
  strict : Bool
  context : ContextOptions

/-- Evaluates an expression, in the scope of a source file if one is given. -/
structure EvalCommand where
  expression : String
  file : Option String
  format : Format
  context : ContextOptions

/-- Prints the schema of a type. -/
structure SchemaCommand where
  typePath : String
  format : Format
  context : ContextOptions

/-- What completing a document gives. -/
structure CompleteOutcome where
  rendered : String
  diagnostics : List Diagnostic
  hasErrors : Bool

/-- Whether a run counts as failed. -/
def CompleteOutcome.fails (outcome : CompleteOutcome) (strict : Bool) : Bool :=
  strict && outcome.hasErrors

open ContextOptions (attempt)

variable {m : Type → Type} [Monad m]

namespace CompleteCommand

/-- The format of the result: the one given, or that of the output file, or YAML. -/
def outputFormat (c : CompleteCommand) : Format :=
  (c.format.or (c.output.map Format.ofPath)).getD .yaml

def run (runner : Runner) (files : Files m) (c : CompleteCommand) :
    ExceptT CommandError m CompleteOutcome := do
  let env ← c.context.environment runner files (PathName.parent? c.input)
  let text ← attempt (.inputUnreadable c.input) (files.read c.input)
  let completed ← attempt (.document c.input) (pure (env.completeText text))
  let rendered := c.outputFormat.render completed.document
  match c.output with
  | some path => attempt (.outputUnwritable path) (files.write path rendered)
  | none => pure ()
  return ⟨rendered, completed.diagnostics, completed.hasErrors⟩

end CompleteCommand

def EvalCommand.run (runner : Runner) (files : Files m) (c : EvalCommand) :
    ExceptT CommandError m String := do
  let env ← c.context.environment runner files none
  let node ← attempt .expression (pure (env.evaluate c.expression c.file))
  return c.format.render node

def SchemaCommand.run (runner : Runner) (files : Files m) (c : SchemaCommand) :
    ExceptT CommandError m String := do
  let env ← c.context.environment runner files none
  match env.typeSchema c.typePath with
  | some node => return c.format.render node
  | none => throw (.unknownType c.typePath)

end SchemaWeave
