import SchemaWeave.Command.Run

/-!
A command line is the name of a command, one operand, and options in any order. An option has its
value after an equals sign or as the next word.
-/

namespace SchemaWeave

inductive Command where
  | complete (c : CompleteCommand)
  | eval (c : EvalCommand)
  | schema (c : SchemaCommand)

/-- Why a command line is no command. -/
inductive UsageError where
  | noCommand
  | unknownCommand (name : String)
  | unknownOption (name : String)
  | missingValue (option : String)
  | invalidValue (option value : String)
  | missingOperand
  | unexpectedOperand (text : String)
  deriving DecidableEq, Repr

def UsageError.message : UsageError → String
  | .noCommand => "expected a command: complete, eval or schema"
  | .unknownCommand name => s!"unrecognized command '{name}'"
  | .unknownOption name => s!"unexpected option '{name}'"
  | .missingValue option => s!"a value is required for '{option}'"
  | .invalidValue option value => s!"invalid value '{value}' for '{option}'"
  | .missingOperand => "an operand is missing"
  | .unexpectedOperand text => s!"unexpected operand '{text}'"

namespace Command

/-- The words of a command line, sorted. -/
structure Words where
  operands : List String
  values : List (String × String)
  switches : List String

namespace Words

/-- The options of which a command knows those with values and those without. -/
structure Known where
  valued : List String
  switches : List String

/-- The full name of an option. -/
def longName (word : String) : String := if word = "-o" then "--output" else word

/-- Sorts the words after the command's name. -/
def sort (known : Known) : List String → Except UsageError Words
  | [] => .ok ⟨[], [], []⟩
  | word :: rest =>
    if word.toList.head? ≠ some '-' ∨ word = "-" then do
      let words ← sort known rest
      .ok { words with operands := word :: words.operands }
    else if known.switches.contains word then do
      let words ← sort known rest
      .ok { words with switches := word :: words.switches }
    else
      match Text.cutAt '=' word.toList with
      | some (name, value) =>
        let name := String.ofList name
        if known.valued.contains name then do
          let words ← sort known rest
          .ok { words with values := (name, String.ofList value) :: words.values }
        else .error (.unknownOption name)
      | none =>
        if known.valued.contains (longName word) then
          match rest with
          | value :: rest => do
            let words ← sort known rest
            .ok { words with values := (longName word, value) :: words.values }
          | [] => .error (.missingValue word)
        else .error (.unknownOption word)

/-- The one operand of a command. -/
def operand (words : Words) : Except UsageError String :=
  match words.operands with
  | [] => .error .missingOperand
  | [text] => .ok text
  | _ :: text :: _ => .error (.unexpectedOperand text)

def value? (words : Words) (name : String) : Option String := words.values.lookup name

/-- The value of an option, read by a function. -/
def read {α : Type} (words : Words) (name : String) (read : String → Option α) :
    Except UsageError (Option α) :=
  match words.value? name with
  | none => .ok none
  | some text =>
    match read text with
    | some a => .ok (some a)
    | none => .error (.invalidValue name text)

def bound? (text : String) : Option Nat := text.toNat?.filter (· < ResolverOptions.boundLimit)

def context (words : Words) : Except UsageError ContextOptions := do
  .ok
    { config := words.value? "--config"
      types := words.value? "--types"
      recursionBound := ← words.read "--recursion-bound" bound?
      nameTag := words.value? "--name-tag" }

def format (words : Words) : Except UsageError (Option Format) :=
  words.read "--format" Format.ofName?

end Words

/-- The options that every command knows. -/
def contextNames : List String :=
  ["--format", "--config", "--types", "--recursion-bound", "--name-tag"]

/-- The command of a command line. -/
def ofWords : List String → Except UsageError Command
  | [] => .error .noCommand
  | "complete" :: rest => do
    let words ← Words.sort ⟨"--output" :: contextNames, ["--strict"]⟩ rest
    .ok (.complete
      { input := ← words.operand
        output := words.value? "--output"
        format := ← words.format
        strict := words.switches.contains "--strict"
        context := ← words.context })
  | "eval" :: rest => do
    let words ← Words.sort ⟨"--file" :: contextNames, []⟩ rest
    .ok (.eval
      { expression := ← words.operand
        file := words.value? "--file"
        format := (← words.format).getD .json
        context := ← words.context })
  | "schema" :: rest => do
    let words ← Words.sort ⟨contextNames, []⟩ rest
    .ok (.schema
      { typePath := ← words.operand
        format := (← words.format).getD .json
        context := ← words.context })
  | name :: _ => .error (.unknownCommand name)

end Command

end SchemaWeave
