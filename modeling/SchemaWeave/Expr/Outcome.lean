/-!
An attempt to parse either succeeds, or does not match and leaves the choice to another form, or
fails for good because the text so far allows nothing else.
-/

namespace SchemaWeave.Expr

/-- What had to come next where parsing failed for good. -/
inductive Expected where
  | memberName
  | operand
  | propertyValue
  | closing (bracket : Char)
  deriving DecidableEq, Repr

def Expected.label : Expected → String
  | .memberName => "a member name"
  | .operand => "an operand after '+'"
  | .propertyValue => "a property value"
  | .closing bracket => String.ofList ("closing '".toList ++ [bracket, '\''])

/-- How an attempt ends. Failures carry the text from the place of the failure on. -/
inductive Outcome (α : Type) where
  | done (value : α) (rest : List Char)
  | mismatch (rest : List Char)
  | fault (expected : Expected) (rest : List Char)
  | tooDeep
  deriving DecidableEq, Repr

/-- A parser looks at a text from its beginning. -/
abbrev Parser (α : Type) := List Char → Outcome α

namespace Outcome

variable {α β : Type}

/-- Goes on after a success. -/
def andThen (o : Outcome α) (next : α → Parser β) : Outcome β :=
  match o with
  | .done value rest => next value rest
  | .mismatch rest => .mismatch rest
  | .fault expected rest => .fault expected rest
  | .tooDeep => .tooDeep

def map (f : α → β) (o : Outcome α) : Outcome β := o.andThen fun value rest => .done (f value) rest

/-- Tries another form after a mismatch. -/
def orElse (o : Outcome α) (other : Unit → Outcome α) : Outcome α :=
  match o with
  | .mismatch _ => other ()
  | settled => settled

/-- A mismatch becomes a failure for good. -/
def require (expected : Expected) (o : Outcome α) : Outcome α :=
  match o with
  | .mismatch rest => .fault expected rest
  | settled => settled

/-- What was found, if anything was. -/
def ofOption (cs : List Char) : Option (α × List Char) → Outcome α
  | some (value, rest) => .done value rest
  | none => .mismatch cs

end Outcome

/-- Space, tab and the two line end characters may stand between any two tokens. -/
def isBlank (c : Char) : Bool := c == ' ' || c == '\t' || c == '\r' || c == '\n'

def skipBlanks (cs : List Char) : List Char := cs.dropWhile isBlank

/-- Blanks on either side do not matter. -/
def padded {α : Type} (p : Parser α) : Parser α := fun cs =>
  (p (skipBlanks cs)).andThen fun value rest => .done value (skipBlanks rest)

/-- Exactly this character. -/
def char (c : Char) : Parser Unit
  | [] => .mismatch []
  | d :: rest => if d = c then .done () rest else .mismatch (d :: rest)

/-- Further items, each after a comma. A comma that no item follows is not taken. -/
def moreItems {α : Type} (item : Parser α) : Nat → List Char → Outcome (List α)
  | 0, cs => .done [] cs
  | fuel + 1, ',' :: rest =>
    match item rest with
    | .mismatch _ => .done [] (',' :: rest)
    | .fault expected rest => .fault expected rest
    | .tooDeep => .tooDeep
    | .done value rest => (moreItems item fuel rest).map fun values => value :: values
  | _ + 1, cs => .done [] cs

/-- Items with a comma between each two, as many as there are. -/
def commaSeparated {α : Type} (item : Parser α) (cs : List Char) : Outcome (List α) :=
  match item cs with
  | .mismatch _ => .done [] cs
  | .fault expected rest => .fault expected rest
  | .tooDeep => .tooDeep
  | .done value rest => (moreItems item rest.length rest).map fun values => value :: values

/-- The rest of a bracketed list: items, perhaps one comma more, and the closing bracket. -/
def bracketed {α : Type} (item : Parser α) (closing : Char) : Parser (List α) := fun cs =>
  (commaSeparated (padded item) cs).andThen fun values rest =>
    let rest := skipBlanks rest
    let rest := match rest with
      | ',' :: more => skipBlanks more
      | _ => rest
    ((char closing rest).require (.closing closing)).map fun () => values

end SchemaWeave.Expr
