import SchemaWeave.Complete.Filter.Translate
import SchemaWeave.Complete.Process

/-!
Stand-ins for a few commands of a system: `cat`, `true`, `false`, `echo`, `head`, `tr`, `sleep`, and
`sh` running one of them; a command of any other name cannot be started. Runs of the program need
some runner, and this is the one that they are given. Hosts and contexts take the runner as a
parameter, and nothing that is proved of them depends on which it is.
-/

namespace SchemaWeave.Filter

def prints (bytes : List UInt8) : ProcessRun := ⟨0, 0, bytes, []⟩

def complains (status : Nat) (complaint : String) : ProcessRun :=
  ⟨0, status, [], Text.toBytes complaint.toList⟩

def missingOperand (name detail : String) : ProcessRun :=
  complains 1 (name ++ ": missing operand" ++ detail ++ "\nTry '" ++ name ++
    " --help' for more information.")

def digitsValue? (cs : List Char) : Option Nat :=
  if cs.isEmpty || !cs.all Char.isDigit then none
  else some (cs.foldl (fun n c => n * 10 + (c.toNat - 48)) 0)

/-- The seconds of a unit of time, which is a second unless another is named. -/
def unitSeconds? (unit : List Char) : Option Nat :=
  if unit.isEmpty then some 1
  else [(['s'], 1), (['m'], 60), (['h'], 3600), (['d'], 86400)].lookup unit

/-- A duration with at most three places that count, in milliseconds. -/
def milliseconds? (cs : List Char) : Option Nat := do
  let number := cs.takeWhile fun c => c.isDigit || c == '.'
  let unit ← unitSeconds? (cs.drop number.length)
  let whole := number.takeWhile (· != '.')
  let places := (number.drop (whole.length + 1)).take 3
  let seconds ← if whole.isEmpty then some 0 else digitsValue? whole
  let part ← if places.isEmpty then some 0 else digitsValue? places
  some ((seconds * 1000 + part * Nat.pow 10 (3 - places.length)) * unit)

/-- The first so many lines. -/
def firstLines (n : Nat) : List UInt8 → List UInt8
  | [] => []
  | b :: rest => if n = 0 then [] else b :: firstLines (if b = 10 then n - 1 else n) rest

/-- How many lines there are; the last one need not end. -/
def lineCount (bytes : List UInt8) : Nat :=
  bytes.count 10 + if bytes.getLast?.any (· != 10) then 1 else 0

/-- How many of so many `head` prints; after a dash, how many it leaves out. -/
def headCount? (count : List Char) (total : Nat) : Option Nat :=
  match count with
  | '-' :: digits => (digitsValue? digits).map (total - ·)
  | digits => digitsValue? digits

/-- What `head` prints: ten lines, or as many bytes or lines as are asked for. -/
def head? (words : List (List Char)) (input : List UInt8) : Option (List UInt8) :=
  let first (unit : Char) (count : List Char) : Option (List UInt8) :=
    if unit = 'c' then (headCount? count input.length).map input.take
    else if unit = 'n' then (headCount? count (lineCount input)).map fun n => firstLines n input
    else if unit.isDigit then (digitsValue? (unit :: count)).map fun n => firstLines n input
    else none
  match words with
  | [] => some (firstLines 10 input)
  | ['-' :: unit :: count] => first unit count
  | [['-', unit], count] => first unit count
  | _ => none

/-- The name of a filter without the directory where filters are. -/
def plainName (name : List Char) : String :=
  let inUsr := (Text.stripStart "/usr".toList name).getD name
  String.ofList ((Text.stripStart "/bin/".toList inUsr).getD name)

/-- Runs `tr`, which needs a set, and two of them without an option. -/
def runTranslate? (words : List (List Char)) (input : List UInt8) : Option ProcessRun :=
  match words, words.dropWhile isTranslateOption with
  | _, [] => some (missingOperand "tr" "")
  | [source], _ =>
    some <| missingOperand "tr" <|
      " after '" ++ String.ofList source ++ "'\nTwo strings must be given when translating."
  | _, _ => (translated? words input).map prints

/-- Runs the filter of the given words on an input. -/
def run? (words : List (List Char)) (input : List UInt8) : Option ProcessRun :=
  match words with
  | [] => none
  | name :: arguments =>
    match plainName name, arguments with
    | "cat", _ =>
      some <| match arguments.filter (· != ['-']) with
        | [] => prints input
        | missing =>
          complains 1 <| "\n".intercalate <| missing.map fun file =>
            "cat: " ++ String.ofList file ++ ": No such file or directory"
    | "true", _ => some (prints [])
    | "false", _ => some (complains 1 "")
    | "echo", _ => some (prints (echo arguments))
    | "head", _ => (head? arguments input).map prints
    | "tr", _ => runTranslate? arguments input
    | "sleep", [] => some (missingOperand "sleep" "")
    | "sleep", _ => (arguments.mapM milliseconds?).map fun ns => ⟨ns.foldl (· + ·) 0, 0, [], []⟩
    | _, _ => none

/-- Runs a command line's words. A shell runs the first word that it is given, and goes by the name
of the second. -/
def runShell? (words : List (List Char)) (input : List UInt8) : Option ProcessRun :=
  match words with
  | ['s', 'h'] :: ['-', 'c'] :: inner :: others =>
    let complaint (text : String) : String :=
      String.ofList (others.head?.getD ['s', 'h']) ++ ": 1: " ++ text
    if inner.count '\'' % 2 = 1 ∨ inner.count '"' % 2 = 1 then
      some (complains 2 (complaint "Syntax error: Unterminated quoted string"))
    else
      some ((run? [inner] input).getD
        (complains 127 (complaint (String.ofList inner ++ ": not found"))))
  | _ => run? words input

/-- The runner that knows the stand-ins alone. -/
def runner : Runner := fun words input =>
  (runShell? words input).elim (.error "No such file or directory (os error 2)") .ok

end SchemaWeave.Filter
