import SchemaWeave.Complete.Filter.Echo

/-!
A stand-in for `tr`, which translates, deletes and squeezes bytes. A set of bytes is written by its
characters: a backslash begins an escape, a dash between two bytes stands for all from the one to
the other, and a class of bytes stands by its name between brackets and colons.
-/

namespace SchemaWeave.Filter

def isBetween (low high : Char) (n : Nat) : Bool := decide (low.toNat ≤ n ∧ n ≤ high.toNat)

def isAlphanumeric (n : Nat) : Bool :=
  isBetween '0' '9' n || isBetween 'A' 'Z' n || isBetween 'a' 'z' n

/-- The classes of bytes by their names. -/
def byteClasses : List (String × (Nat → Bool)) :=
  [("upper", isBetween 'A' 'Z'), ("lower", isBetween 'a' 'z'), ("digit", isBetween '0' '9'),
    ("alpha", fun n => isBetween 'A' 'Z' n || isBetween 'a' 'z' n), ("alnum", isAlphanumeric),
    ("blank", fun n => n == 9 || n == 32), ("space", fun n => isBetween '\t' '\r' n || n == 32),
    ("cntrl", fun n => n < 32 || n == 127), ("graph", isBetween '!' '~'),
    ("print", isBetween ' ' '~'), ("punct", fun n => isBetween '!' '~' n && !isAlphanumeric n),
    ("xdigit", fun n => isBetween '0' '9' n || isBetween 'A' 'F' n || isBetween 'a' 'f' n)]

/-- The bytes from one to another. -/
def byteRange (first last : UInt8) : List UInt8 :=
  (List.range (last.toNat + 1 - first.toNat)).map fun n => first + UInt8.ofNat n

/-- A class at the beginning of a set. -/
def classHere? (cs : List Char) : Option (List UInt8 × List Char) := do
  let rest ← Text.stripStart "[:".toList cs
  let name := rest.takeWhile (· != ':')
  let rest ← Text.stripStart ":]".toList (rest.drop name.length)
  let test ← byteClasses.lookup (String.ofList name)
  some ((byteRange 0 255).filter fun b => test b.toNat, rest)

/-- The bytes of one character, or of an escape, at the beginning of a set. -/
def setBytes (c : Char) (rest : List Char) : List UInt8 × List Char :=
  match c, rest with
  | '\\', e :: more =>
    match controlLetters.lookup e with
    | some b => ([b], more)
    | none =>
      if '0' ≤ e ∧ e ≤ '7' then
        let (n, more) := takeDigits 8 3 0 rest
        ([UInt8.ofNat n], more)
      else (Text.toBytes [e], more)
  | _, _ => (Text.toBytes [c], rest)

/-- The bytes that a set names, in order. Every step takes a character, so their number suffices. -/
def namedBytes : Nat → List Char → List UInt8
  | 0, _ => []
  | _ + 1, [] => []
  | fuel + 1, c :: rest =>
    match classHere? (c :: rest) with
    | some (bytes, rest) => bytes ++ namedBytes fuel rest
    | none =>
      let (bytes, rest) := setBytes c rest
      match bytes, rest with
      | [first], '-' :: d :: more =>
        match setBytes d more with
        | ([last], more) => byteRange first last ++ namedBytes fuel more
        | _ => first :: namedBytes fuel rest
      | _, _ => bytes ++ namedBytes fuel rest

/-- The bytes of a set, or all the others. -/
def byteSet (complement : Bool) (cs : List Char) : List UInt8 :=
  let bytes := namedBytes cs.length cs
  if complement then (byteRange 0 255).filter fun b => !bytes.contains b else bytes

/-- Replaces bytes of one set by those at the same place in the other, whose last byte stands for
all places beyond it. A byte that a set names twice counts where it is named last. -/
def translate (source target : List UInt8) (b : UInt8) : UInt8 :=
  match source.reverse.findIdx? (· == b) with
  | some i => (target[source.length - 1 - i]?).getD (target.getLast?.getD b)
  | none => b

/-- Leaves one of several equal bytes of a set that follow each other. -/
def squeeze (set : List UInt8) : List UInt8 → List UInt8
  | a :: b :: rest =>
    if a = b ∧ set.contains a then squeeze set (b :: rest) else a :: squeeze set (b :: rest)
  | short => short

def isTranslateOption (word : List Char) : Bool :=
  match word with
  | '-' :: letters => !letters.isEmpty && letters.all ['c', 'C', 'd', 's'].contains
  | _ => false

/-- What becomes of bytes by options and sets. -/
def translated? (words : List (List Char)) (input : List UInt8) : Option (List UInt8) :=
  let optionWords := words.takeWhile isTranslateOption
  let letters := optionWords.flatMap (List.drop 1)
  let complement := letters.contains 'c' || letters.contains 'C'
  let squeezed (set : List UInt8) (bytes : List UInt8) : List UInt8 :=
    if letters.contains 's' then squeeze set bytes else bytes
  match letters.contains 'd', words.drop optionWords.length with
  | true, [set] =>
    let set := byteSet complement set
    some (input.filter fun b => !set.contains b)
  | true, [set, repeated] =>
    let set := byteSet complement set
    some (squeezed (byteSet false repeated) (input.filter fun b => !set.contains b))
  | false, [set] => some (squeezed (byteSet complement set) input)
  | false, [source, target] =>
    let target := byteSet false target
    some (squeezed target (input.map (translate (byteSet complement source) target)))
  | _, _ => none

end SchemaWeave.Filter
