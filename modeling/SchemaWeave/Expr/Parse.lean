import SchemaWeave.Expr.Numeral
import SchemaWeave.Expr.Outcome
import SchemaWeave.Text.Lines

/-!
The grammar of expressions, blanks between tokens left out:

    expression = postfix ("+" postfix)*
    postfix    = primary ("." identifier | "(" arguments ")")*
    primary    = number | string | array | object | "(" expression ")"
               | "null" | "undefined" | "true" | "false" | identifier
    array      = "[" ("..."? expression),* ","? "]"
    object     = "{" (key ":" expression | "..." expression),* ","? "}"
    key        = identifier | string | number

Each bracket takes one level of a nesting budget. A scan of the brackets refuses texts that nest too
deep before the descent starts, so the descent never runs out of its budget.
-/

namespace SchemaWeave.Expr

def isNameStart (c : Char) : Bool :=
  (decide ('a' ≤ c) && decide (c ≤ 'z')) || (decide ('A' ≤ c) && decide (c ≤ 'Z')) ||
    c == '_' || c == '$'

def isNameChar (c : Char) : Bool := isNameStart c || isDigit c

/-- The longest name at the beginning of a text. -/
def name? (cs : List Char) : Option (String × List Char) :=
  match cs with
  | c :: rest =>
    if isNameStart c then
      some (String.ofList (c :: rest.takeWhile isNameChar), rest.dropWhile isNameChar)
    else none
  | [] => none

/-- What a backslash and a character stand for in a string. -/
def escape? (c : Char) : Option Char :=
  if c = 'n' then some '\n'
  else if c = 'r' then some '\r'
  else if c = 't' then some '\t'
  else if c = '\\' ∨ c = '"' ∨ c = '\'' ∨ c = '/' then some c
  else none

/-- The rest of a string up to its closing quote. -/
def stringBody? (quote : Char) : List Char → Option (List Char × List Char)
  | [] => none
  | c :: rest =>
    if c = quote then some ([], rest)
    else if c = '\\' then
      match rest with
      | [] => none
      | e :: more => do
        let c ← escape? e
        let (text, rest) ← stringBody? quote more
        some (c :: text, rest)
    else do
      let (text, rest) ← stringBody? quote rest
      some (c :: text, rest)

/-- A string in double or single quotes. -/
def string? (cs : List Char) : Option (String × List Char) :=
  match cs with
  | c :: rest =>
    if c = '"' ∨ c = '\'' then
      (stringBody? c rest).map fun (text, rest) => (String.ofList text, rest)
    else none
  | [] => none

def numeral? (cs : List Char) : Option (Expr × List Char) :=
  (Numeral.read? cs).map fun (n, rest) => (.literal n.toLiteral, rest)

/-- The words that are literals, and every other name. -/
def ofName (name : String) : Expr :=
  if name = "null" ∨ name = "undefined" then .literal .null
  else if name = "true" then .literal (.bool true)
  else if name = "false" then .literal (.bool false)
  else .identifier name

def stripDots (cs : List Char) : Option (List Char) :=
  match cs with
  | '.' :: '.' :: '.' :: rest => some rest
  | _ => none

/-- An entry of an array. -/
def element (nested : Parser Expr) : Parser (Element Expr) := fun cs =>
  match stripDots (skipBlanks cs) with
  | some rest => (padded nested rest).map .spread
  | none => (padded nested cs).map .item

def key? (cs : List Char) : Option (String × List Char) :=
  match string? cs with
  | some found => some found
  | none =>
    match name? cs with
    | some found => some found
    | none => (Numeral.read? cs).map fun (n, rest) => (String.ofList n.text, rest)

/-- A key, a colon and a value. -/
def keyed (nested : Parser Expr) : Parser (Property Expr) := fun cs =>
  (padded (fun cs => .ofOption cs (key? cs)) cs).andThen fun key rest =>
    (char ':' rest).andThen fun () rest =>
      ((padded nested rest).require .propertyValue).map fun value => .entry key value

/-- An entry of an object. -/
def property (nested : Parser Expr) : Parser (Property Expr) := fun cs =>
  match stripDots (skipBlanks cs) with
  | some rest => ((padded nested rest).map .spread).orElse fun () => keyed nested cs
  | none => keyed nested cs

/-- An expression that does not end in a suffix or an operator; `nested` reads what brackets
enclose. -/
def primary (nested : Parser Expr) : Parser Expr := fun cs =>
  match cs with
  | '[' :: rest => (bracketed (element nested) ']' rest).map .array
  | '{' :: rest => (bracketed (property nested) '}' rest).map .object
  | '(' :: rest =>
    match padded nested rest with
    | .mismatch _ => .mismatch cs
    | inner => inner.andThen fun e rest =>
      ((char ')' rest).require (.closing ')')).map fun () => e
  | _ =>
    (Outcome.ofOption cs (numeral? cs)).orElse fun () =>
    (Outcome.ofOption cs ((string? cs).map fun (s, rest) => (.literal (.string s), rest))).orElse
    fun () => (Outcome.ofOption cs (name? cs)).map ofName

/-- Members and calls after an expression, as many as follow. -/
def suffixes (nested : Parser Expr) : Nat → Expr → List Char → Outcome Expr
  | 0, base, cs => .done base cs
  | fuel + 1, base, cs =>
    match skipBlanks cs with
    | '.' :: rest =>
      ((Outcome.ofOption (skipBlanks rest) (name? (skipBlanks rest))).require .memberName).andThen
        fun name rest => suffixes nested fuel (.member base name) rest
    | '(' :: rest =>
      (bracketed nested ')' rest).andThen fun arguments rest =>
        suffixes nested fuel (.call base arguments) rest
    | _ => .done base cs

def postfixed (nested : Parser Expr) : Parser Expr := fun cs =>
  (primary nested cs).andThen fun base rest => suffixes nested rest.length base rest

/-- Further operands, each after a plus sign; sums nest to the left. -/
def operands (nested : Parser Expr) : Nat → Expr → List Char → Outcome Expr
  | 0, left, cs => .done left cs
  | fuel + 1, left, cs =>
    match skipBlanks cs with
    | '+' :: rest =>
      ((postfixed nested (skipBlanks rest)).require .operand).andThen fun right rest =>
        operands nested fuel (.plus left right) rest
    | _ => .done left cs

def sum (nested : Parser Expr) : Parser Expr := fun cs =>
  (postfixed nested cs).andThen fun first rest => operands nested rest.length first rest

/-- An expression that opens at most `depth` brackets inside one another. -/
def expression : Nat → Parser Expr
  | 0 => sum fun _ => .tooDeep
  | depth + 1 => sum (expression depth)

/-- The deepest nesting of brackets. -/
def maxNesting : Nat := 32

/-- Where a scan of brackets stands inside a string: its quote, and whether the next character is
escaped. -/
structure InString where
  quote : Char
  escaped : Bool

/-- The state of a scan after one more character of a string. -/
def InString.next (s : InString) (c : Char) : Option InString :=
  if s.escaped then some ⟨s.quote, false⟩
  else if c = '\\' then some ⟨s.quote, true⟩
  else if c = s.quote then none
  else some s

/-- The text from the first bracket on that would be open inside `budget` others. Brackets in
strings do not count, and a closing bracket closes whichever is open. -/
def firstTooDeep (budget : Nat) (depth : Nat) (inside : Option InString) :
    List Char → Option (List Char)
  | [] => none
  | c :: rest =>
    match inside with
    | some s => firstTooDeep budget depth (s.next c) rest
    | none =>
      if c = '"' ∨ c = '\'' then firstTooDeep budget depth (some ⟨c, false⟩) rest
      else if c = '[' ∨ c = '{' ∨ c = '(' then
        if budget ≤ depth then some (c :: rest)
        else firstTooDeep budget (depth + 1) none rest
      else if c = ']' ∨ c = '}' ∨ c = ')' then firstTooDeep budget (depth - 1) none rest
      else firstTooDeep budget depth none rest

/-- What is wrong with a text. -/
inductive Complaint where
  | tooDeep
  | unexpected (near : List Char)
  | expected (what : Expected) (near : List Char)
  deriving DecidableEq, Repr

def Complaint.message : Complaint → String
  | .tooDeep => s!"nesting deeper than {maxNesting} levels"
  | .unexpected [] => "unexpected end of input"
  | .unexpected near => s!"unexpected input near '{String.ofList near}'"
  | .expected what [] => s!"expected {what.label} at end of input"
  | .expected what near => s!"expected {what.label} near '{String.ofList near}'"

/-- A complaint and where it arises, in bytes. -/
structure ParseError where
  complaint : Complaint
  offset : Nat
  deriving DecidableEq, Repr

def ParseError.message (e : ParseError) : String :=
  s!"parse error at offset {e.offset}: {e.complaint.message}"

/-- How many characters of the text at fault a complaint shows. -/
def nearLength : Nat := 16

/-- Parses a whole text. -/
def parseChars (cs : List Char) : Except ParseError Expr :=
  let offset (rest : List Char) : Nat := Text.byteLength cs - Text.byteLength rest
  let unexpected (rest : List Char) : Except ParseError Expr :=
    .error ⟨.unexpected (rest.take nearLength), offset rest⟩
  match firstTooDeep maxNesting 0 none cs with
  | some rest => .error ⟨.tooDeep, offset rest⟩
  | none =>
    match padded (expression (maxNesting + 1)) cs with
    | .done e [] => .ok e
    | .done _ rest => unexpected rest
    | .mismatch rest => unexpected rest
    | .fault expected rest => .error ⟨.expected expected (rest.take nearLength), offset rest⟩
    | .tooDeep => .error ⟨.tooDeep, 0⟩

/-- Parses a whole text. -/
def parse (text : String) : Except ParseError Expr := parseChars text.toList

end SchemaWeave.Expr
