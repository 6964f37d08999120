import SchemaWeave.Json.Quoted
import SchemaWeave.Text.Utf8

/-!
A stand-in for `echo`, which prints words with a space between each two. Options in front say
whether a line end follows, and whether a backslash begins an escape: a letter for a control
character, or the octal or hexadecimal digits of a byte.
-/

namespace SchemaWeave.Filter

/-- At most so many digits of a base, put after a number; also what follows them. -/
def takeDigits (base : Nat) : Nat → Nat → List Char → Nat × List Char
  | 0, n, cs => (n, cs)
  | _ + 1, n, [] => (n, [])
  | most + 1, n, c :: rest =>
    match (Json.hexValue? c).filter (· < base) with
    | some d => takeDigits base most (n * base + d) rest
    | none => (n, c :: rest)

/-- The letters that stand for control characters. -/
def controlLetters : List (Char × UInt8) :=
  [('a', 7), ('b', 8), ('f', 12), ('n', 10), ('r', 13), ('t', 9), ('v', 11)]

/-- The bytes that a backslash and a character stand for, and what follows. -/
def escapedBytes (c : Char) (rest : List Char) : List UInt8 × List Char :=
  let byte (digits : Nat × List Char) : List UInt8 × List Char :=
    ([UInt8.ofNat digits.1], digits.2)
  match ((('e', 27) :: ('\\', 92) :: controlLetters).lookup c : Option UInt8) with
  | some b => ([b], rest)
  | none =>
    if c = 'x' ∧ (rest.head?.bind Json.hexValue?).isSome then byte (takeDigits 16 2 0 rest)
    else if c = '0' then byte (takeDigits 8 3 0 rest)
    else if '1' ≤ c ∧ c ≤ '7' then byte (takeDigits 8 3 0 (c :: rest))
    else (Text.toBytes ['\\', c], rest)

/-- The bytes of a text with escapes, and whether an escape ends the printing. Every step takes a
character, so their number suffices. -/
def unescape : Nat → List Char → List UInt8 × Bool
  | 0, _ => ([], false)
  | _ + 1, [] => ([], false)
  | fuel + 1, c :: rest =>
    match c, rest with
    | '\\', 'c' :: _ => ([], true)
    | '\\', e :: more =>
      let (bytes, more) := escapedBytes e more
      let (others, stopped) := unescape fuel more
      (bytes ++ others, stopped)
    | _, _ =>
      let (others, stopped) := unescape fuel rest
      (Text.toBytes [c] ++ others, stopped)

structure EchoOptions where
  lineEnd : Bool
  escapes : Bool

/-- The options after one more letter. -/
def EchoOptions.next (o : EchoOptions) (letter : Char) : EchoOptions :=
  if letter = 'n' then { o with lineEnd := false } else { o with escapes := letter == 'e' }

def isEchoOption (word : List Char) : Bool :=
  match word with
  | '-' :: letters => !letters.isEmpty && letters.all ['n', 'e', 'E'].contains
  | _ => false

/-- What is printed for words. -/
def echo (words : List (List Char)) : List UInt8 :=
  let optionWords := words.takeWhile isEchoOption
  let options := (optionWords.flatMap (List.drop 1)).foldl EchoOptions.next ⟨true, false⟩
  let text := Text.joinWith [' '] (words.drop optionWords.length)
  let (bytes, stopped) :=
    if options.escapes then unescape text.length text else (Text.toBytes text, false)
  if options.lineEnd && !stopped then bytes ++ [10] else bytes

end SchemaWeave.Filter
