import SchemaWeave.Expr.Parse

/-!
The grammar of expressions, apart from any parser: how tokens are spelled, how a text falls into
tokens, and which tokens derive which tree. The productions are relations over a relation `E` that
says what an expression is; `Derives` ties the knot.
-/

namespace SchemaWeave.Grammar

open SchemaWeave.Expr (isNameStart isNameChar isDigit isBlank Numeral WrittenExponent)

/-- Brackets, and the characters that separate. -/
def marks : List Char := ['[', ']', '{', '}', '(', ')', ',', ':', '+', '.']

inductive Token where
  | name (text : String)
  | numeral (n : Numeral)
  | string (text : String)
  | ellipsis
  | mark (c : Char)
  deriving DecidableEq, Repr

/-- What a backslash and a character stand for in a string. -/
def escapes : List (Char × Char) :=
  [('n', '\n'), ('r', '\r'), ('t', '\t'), ('\\', '\\'), ('"', '"'), ('\'', '\''), ('/', '/')]

/-- The characters between the quotes of a string. -/
inductive Quoted (quote : Char) : List Char → List Char → Prop where
  | nil : Quoted quote [] []
  | plain {c : Char} {text body : List Char} : c ≠ quote → c ≠ '\\' → Quoted quote text body →
      Quoted quote (c :: text) (c :: body)
  | escaped {e c : Char} {text body : List Char} : (e, c) ∈ escapes → Quoted quote text body →
      Quoted quote (c :: text) ('\\' :: e :: body)

/-- A row of digits that is not empty. -/
def Digits (ds : List Char) : Prop := ds ≠ [] ∧ ∀ d ∈ ds, isDigit d = true

/-- An exponent is a mark, perhaps a sign, and digits. -/
structure ExponentSpelled (e : WrittenExponent) : Prop where
  mark : e.mark = 'e' ∨ e.mark = 'E'
  sign : ∀ c ∈ e.sign, c = '+' ∨ c = '-'
  digits : Digits e.digits

/-- A numeral is digits, perhaps with a fraction and an exponent. -/
structure NumeralSpelled (n : Numeral) : Prop where
  whole : Digits n.whole
  fraction : ∀ ds ∈ n.fraction, Digits ds
  exponent : ∀ e ∈ n.exponent, ExponentSpelled e

/-- How a token is spelled. -/
inductive Spelled : Token → List Char → Prop where
  | name {c : Char} {cs : List Char} : isNameStart c = true → (∀ d ∈ cs, isNameChar d = true) →
      Spelled (.name (String.ofList (c :: cs))) (c :: cs)
  | numeral {n : Numeral} : NumeralSpelled n → Spelled (.numeral n) n.text
  | string {quote : Char} {text body : List Char} : quote = '"' ∨ quote = '\'' →
      Quoted quote text body → Spelled (.string (String.ofList text)) (quote :: body ++ [quote])
  | ellipsis : Spelled .ellipsis ['.', '.', '.']
  | mark {c : Char} : c ∈ marks → Spelled (.mark c) [c]

/-- The token at the beginning of a text, and what follows it: no longer beginning of the text
spells a token. -/
def Longest (t : Token) (cs rest : List Char) : Prop :=
  ∃ lexeme, Spelled t lexeme ∧ cs = lexeme ++ rest ∧
    ∀ t' lexeme', Spelled t' lexeme' → lexeme' <+: cs → lexeme'.length ≤ lexeme.length

/-- The tokens of a text, with blanks anywhere around them. -/
inductive Lexes : List Char → List Token → Prop where
  | nil {blanks : List Char} : (∀ c ∈ blanks, isBlank c = true) → Lexes blanks []
  | cons {blanks cs rest : List Char} {t : Token} {ts : List Token} :
      (∀ c ∈ blanks, isBlank c = true) → Longest t cs rest → Lexes rest ts →
      Lexes (blanks ++ cs) (t :: ts)

/-- The integer that the digits before the fraction stand for. -/
def wholeValue (n : Numeral) : Int :=
  if n.negative then -(Expr.digitsValue n.whole : Int) else Expr.digitsValue n.whole

/-- Whether a numeral is an integer of a 64-bit word. -/
def IsInteger (n : Numeral) : Prop :=
  n.fraction = none ∧ n.exponent = none ∧ Number.FitsInt64 (wholeValue n)

instance (n : Numeral) : Decidable (IsInteger n) := inferInstanceAs (Decidable (_ ∧ _ ∧ _))

section Lists

variable {α : Type} (P : List Token → α → Prop)

/-- Further items, each after a comma. -/
inductive MoreItems : List Token → List α → Prop where
  | nil : MoreItems [] []
  | cons {ts us : List Token} {x : α} {xs : List α} : P ts x → MoreItems us xs →
      MoreItems (.mark ',' :: ts ++ us) (x :: xs)

/-- Items with a comma between each two. -/
inductive Items : List Token → List α → Prop where
  | nil : Items [] []
  | cons {ts us : List Token} {x : α} {xs : List α} : P ts x → MoreItems P us xs →
      Items (ts ++ us) (x :: xs)

/-- Items, and perhaps one comma more. -/
inductive Entries : List Token → List α → Prop where
  | exact {ts : List Token} {xs : List α} : Items P ts xs → Entries ts xs
  | comma {ts : List Token} {xs : List α} : Items P ts xs → Entries (ts ++ [.mark ',']) xs

end Lists

/-- key = identifier | string | number -/
inductive Key : Token → String → Prop where
  | name {text : String} : Key (.name text) text
  | string {text : String} : Key (.string text) text
  | numeral {n : Numeral} : Key (.numeral n) (String.ofList n.text)

section Productions

variable (E : List Token → Expr → Prop)

/-- An entry of an array: "..."? expression -/
inductive ElementOf : List Token → Element Expr → Prop where
  | item {ts : List Token} {e : Expr} : E ts e → ElementOf ts (.item e)
  | spread {ts : List Token} {e : Expr} : E ts e → ElementOf (.ellipsis :: ts) (.spread e)

/-- An entry of an object: key ":" expression | "..." expression -/
inductive PropertyOf : List Token → Property Expr → Prop where
  | entry {t : Token} {key : String} {ts : List Token} {e : Expr} : Key t key → E ts e →
      PropertyOf (t :: .mark ':' :: ts) (.entry key e)
  | spread {ts : List Token} {e : Expr} : E ts e → PropertyOf (.ellipsis :: ts) (.spread e)

inductive Primary : List Token → Expr → Prop where
  | integer {n : Numeral} : IsInteger n →
      Primary [.numeral n] (.literal (.integer (wholeValue n)))
  | float {n : Numeral} : ¬ IsInteger n → Primary [.numeral n] (.literal n.toFloat)
  | string {text : String} : Primary [.string text] (.literal (.string text))
  | null {text : String} : text = "null" ∨ text = "undefined" →
      Primary [.name text] (.literal .null)
  | true : Primary [.name "true"] (.literal (.bool true))
  | false : Primary [.name "false"] (.literal (.bool false))
  | identifier {text : String} : text ∉ ["null", "undefined", "true", "false"] →
      Primary [.name text] (.identifier text)
  | array {ts : List Token} {xs : List (Element Expr)} : Entries (ElementOf E) ts xs →
      Primary (.mark '[' :: ts ++ [.mark ']']) (.array xs)
  | object {ts : List Token} {xs : List (Property Expr)} : Entries (PropertyOf E) ts xs →
      Primary (.mark '{' :: ts ++ [.mark '}']) (.object xs)
  | group {ts : List Token} {e : Expr} : E ts e → Primary (.mark '(' :: ts ++ [.mark ')']) e

/-- ("." identifier | "(" arguments ")")*, after a base -/
inductive Suffixes : Expr → List Token → Expr → Prop where
  | nil {base : Expr} : Suffixes base [] base
  | member {base e : Expr} {name : String} {ts : List Token} :
      Suffixes (.member base name) ts e →
      Suffixes base (.mark '.' :: .name name :: ts) e
  | call {base e : Expr} {ts us : List Token} {arguments : List Expr} : Entries E us arguments →
      Suffixes (.call base arguments) ts e →
      Suffixes base (.mark '(' :: us ++ .mark ')' :: ts) e

/-- postfix = primary ("." identifier | "(" arguments ")")* -/
inductive Postfix : List Token → Expr → Prop where
  | mk {ts us : List Token} {base e : Expr} : Primary E ts base → Suffixes E base us e →
      Postfix (ts ++ us) e

/-- ("+" postfix)*, each sum being the left operand of the next -/
inductive Operands : Expr → List Token → Expr → Prop where
  | nil {left : Expr} : Operands left [] left
  | cons {left right e : Expr} {ts us : List Token} : Postfix E ts right →
      Operands (.plus left right) us e → Operands left (.mark '+' :: ts ++ us) e

/-- expression = postfix ("+" postfix)* -/
inductive Sum : List Token → Expr → Prop where
  | mk {ts us : List Token} {first e : Expr} : Postfix E ts first → Operands E first us e →
      Sum (ts ++ us) e

end Productions

/-- The tokens derive the tree. -/
inductive Derives : List Token → Expr → Prop where
  | expression {ts : List Token} {e : Expr} : Sum Derives ts e → Derives ts e

/-- `Derives` is the least relation that the productions preserve. -/
theorem Derives.induction {Q : List Token → Expr → Prop} (hQ : ∀ {ts e}, Sum Q ts e → Q ts e)
    {ts : List Token} {e : Expr} (h : Derives ts e) : Q ts e :=
  @Derives.rec
    (fun ts e _ => Q ts e)
    (fun ts e _ => Sum Q ts e)
    (fun ts e _ => Postfix Q ts e)
    (fun left ts e _ => Operands Q left ts e)
    (fun ts e _ => Primary Q ts e)
    (fun base ts e _ => Suffixes Q base ts e)
    (fun ts xs _ => Entries (ElementOf Q) ts xs)
    (fun ts xs _ => Entries (PropertyOf Q) ts xs)
    (fun ts xs _ => Entries Q ts xs)
    (fun ts xs _ => Items (ElementOf Q) ts xs)
    (fun ts xs _ => Items (PropertyOf Q) ts xs)
    (fun ts xs _ => Items Q ts xs)
    (fun ts x _ => ElementOf Q ts x)
    (fun ts xs _ => MoreItems (ElementOf Q) ts xs)
    (fun ts x _ => PropertyOf Q ts x)
    (fun ts xs _ => MoreItems (PropertyOf Q) ts xs)
    (fun ts xs _ => MoreItems Q ts xs)
    (fun _ h => hQ h)
    (fun _ _ h hs => .mk h hs)
    (fun _ _ h hs => .mk h hs)
    .nil
    (fun _ _ h hs => .cons h hs)
    (fun h => .integer h)
    (fun h => .float h)
    .string
    (fun h => .null h)
    .true
    .false
    (fun h => .identifier h)
    (fun _ h => .array h)
    (fun _ h => .object h)
    (fun _ h => .group h)
    .nil
    (fun _ h => .member h)
    (fun _ _ h hs => .call h hs)
    (fun _ h => .exact h)
    (fun _ h => .comma h)
    (fun _ h => .exact h)
    (fun _ h => .comma h)
    (fun _ h => .exact h)
    (fun _ h => .comma h)
    .nil
    (fun _ _ h hs => .cons h hs)
    .nil
    (fun _ _ h hs => .cons h hs)
    .nil
    (fun _ _ h hs => .cons h hs)
    (fun _ h => .item h)
    (fun _ h => .spread h)
    .nil
    (fun _ _ h hs => .cons h hs)
    (fun hkey _ h => .entry hkey h)
    (fun _ h => .spread h)
    .nil
    (fun _ _ h hs => .cons h hs)
    .nil
    (fun _ _ h hs => .cons h hs)
    ts e h

/-- The text derives the tree. -/
def TextDerives (cs : List Char) (e : Expr) : Prop := ∃ ts, Lexes cs ts ∧ Derives ts e

end SchemaWeave.Grammar
