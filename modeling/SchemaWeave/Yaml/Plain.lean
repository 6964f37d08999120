import SchemaWeave.Document.Node
import SchemaWeave.Yaml.Raw

/-!
What a scalar without quotes and tag stands for: null, a truth value, an integer in one of four
bases, a float, or else a string. Digits after a leading zero are a string. An integer that needs
more than 64 bits but at most 128 is refused; a longer one is read as a float.
-/

namespace SchemaWeave.Yaml

def isNullText (cs : List Char) : Bool :=
  ["null", "Null", "NULL", "~"].any fun s => s.toList == cs

def boolText? (cs : List Char) : Option Bool :=
  if ["true", "True", "TRUE"].any fun s => s.toList == cs then some true
  else if ["false", "False", "FALSE"].any fun s => s.toList == cs then some false
  else none

/-- The value of a digit in a base. -/
def digitIn? (base : Nat) (c : Char) : Option Nat :=
  match hexValue? c with
  | some d => if d < base then some d else none
  | none => none

/-- The number that a row of digits stands for; there has to be one. -/
def natIn? (base : Nat) (cs : List Char) : Option Nat :=
  if cs.isEmpty then none
  else cs.foldlM (fun n c => (digitIn? base c).map fun d => n * base + d) 0

/-- A text without one sign of the given kind. -/
def dropSign (sign : Char) (cs : List Char) : List Char :=
  match cs with
  | c :: rest => if c = sign then rest else cs
  | [] => []

/-- Digits after a zero, perhaps with a sign: a string, although every character is one of a
number. -/
def isPaddedNumber (cs : List Char) : Bool :=
  let unsigned := match cs with
    | c :: rest => if c = '-' ∨ c = '+' then rest else cs
    | [] => []
  match unsigned with
  | '0' :: rest => !rest.isEmpty && rest.all fun c => decide ('0' ≤ c) && decide (c ≤ '9')
  | _ => false

/-- Digits after the mark of a base. -/
def based? (cs : List Char) : Option Nat :=
  match cs with
  | '0' :: 'x' :: digits => natIn? 16 digits
  | '0' :: 'o' :: digits => natIn? 8 digits
  | '0' :: 'b' :: digits => natIn? 2 digits
  | _ => none

/-- A number without a minus sign; one plus sign may precede it. -/
def unsigned? (cs : List Char) : Option Nat :=
  let digits := dropSign '+' cs
  match based? digits with
  | some n => some n
  | none => if isPaddedNumber cs then none else natIn? 10 digits

/-- The magnitude of a number with a minus sign. -/
def negated? (cs : List Char) : Option Nat :=
  match cs with
  | '-' :: digits =>
    match based? digits with
    | some n => some n
    | none => if isPaddedNumber cs then none else natIn? 10 digits
  | _ => none

/-- An integer of any size, and whether it fits 64 bits, 128 bits or neither. -/
inductive IntText where
  | word (n : Int)
  | wide
  | none
  deriving DecidableEq, Repr

def intText (cs : List Char) : IntText :=
  match unsigned? cs, negated? cs with
  | some n, _ =>
    if n < Number.wordSize then .word n
    else if n < Number.wordSize * Number.wordSize then .wide
    else .none
  | .none, some n =>
    if 2 * n ≤ Number.wordSize then .word (-n)
    else if 2 * n ≤ Number.wordSize * Number.wordSize then .wide
    else .none
  | .none, .none => .none

/-- A decimal: digits with at most one point, at least one digit, and perhaps an exponent. -/
structure DecimalText where
  negative : Bool
  digits : List Char
  exponent : Int

def isDecimalDigit (c : Char) : Bool := decide ('0' ≤ c) && decide (c ≤ '9')

def exponentText? (cs : List Char) : Option Int :=
  match cs with
  | [] => some 0
  | mark :: rest =>
    if mark = 'e' ∨ mark = 'E' then
      match rest with
      | '-' :: digits => (natIn? 10 digits).map fun n => -(n : Int)
      | '+' :: digits => (natIn? 10 digits).map fun n => (n : Int)
      | digits => (natIn? 10 digits).map fun n => (n : Int)
    else none

def decimalText? (cs : List Char) : Option DecimalText :=
  let (negative, unsigned) := match cs with
    | '-' :: rest => (true, rest)
    | '+' :: rest => (false, rest)
    | _ => (false, cs)
  let whole := unsigned.takeWhile isDecimalDigit
  let rest := unsigned.dropWhile isDecimalDigit
  let (places, rest) := match rest with
    | '.' :: more => (more.takeWhile isDecimalDigit, more.dropWhile isDecimalDigit)
    | _ => ([], rest)
  if whole.isEmpty && places.isEmpty then none
  else
    (exponentText? rest).map fun e => ⟨negative, whole ++ places, e - places.length⟩

/-- A float: finite, or a sign and one of the words for what is not finite, which stands for
null. -/
inductive FloatText where
  | finite (x : Binary64)
  | notFinite
  | none
  deriving DecidableEq, Repr

def floatText (cs : List Char) : FloatText :=
  let unplussed := dropSign '+' cs
  let isOneOf (words : List String) (cs : List Char) : Bool := words.any fun s => s.toList == cs
  let signs := match cs, unplussed with
    | '+' :: _, '+' :: _ => true
    | '+' :: _, '-' :: _ => true
    | _, _ => false
  if signs then .none
  else if isOneOf [".inf", ".Inf", ".INF"] unplussed ||
      isOneOf ["-.inf", "-.Inf", "-.INF", ".nan", ".NaN", ".NAN"] cs then .notFinite
  else
    match decimalText? unplussed with
    | some d =>
      match Binary64.ofDecimal d.negative ((natIn? 10 d.digits).getD 0) d.exponent with
      | some x => .finite x
      | .none => .none
    | .none => .none

/-- A float as a node. -/
def FloatText.node? : FloatText → Option Node
  | .finite x => some (.number (.float x))
  | .notFinite => some .null
  | .none => Option.none

/-- The node that a plain scalar stands for. -/
def plainNode (text : String) : Except Fault Node :=
  let cs := text.toList
  if cs.isEmpty || isNullText cs then .ok .null
  else
    match boolText? cs, intText cs with
    | some b, _ => .ok (.bool b)
    | none, .word n => .ok (.number (.int n))
    | none, .wide => .error .outOfRange
    | none, .none =>
      let float := if isPaddedNumber cs then none else (floatText cs).node?
      .ok (float.getD (.string text))

/-- The node that a scalar stands for. Core tags ask for a certain kind, other tags of that space
for a string; a tag that stands for itself leaves the scalar as it is. -/
def scalarNode (tag : Option String) (style : Style) (text : String) : Except Fault Node :=
  let cs := text.toList
  let require (node : Option Node) : Except Fault Node :=
    match node with
    | some n => .ok n
    | none => .error .badScalar
  let untagged : Except Fault Node :=
    if style = .plain then plainNode text else .ok (.string text)
  match tag with
  | none => untagged
  | some tag =>
    if tag = Raw.coreTags ++ "bool" then require ((boolText? cs).map .bool)
    else if tag = Raw.coreTags ++ "int" then
      match intText cs with
      | .word n => .ok (.number (.int n))
      | .wide => .error .outOfRange
      | .none => .error .badScalar
    else if tag = Raw.coreTags ++ "float" then require (floatText cs).node?
    else if tag = Raw.coreTags ++ "null" then require (if isNullText cs then some .null else none)
    else if tag.startsWith "!" then untagged
    else .ok (.string text)

end SchemaWeave.Yaml
