import SchemaWeave.Expr.Parse
import SchemaWeave.Expr.Value

/-!
Operands, elements and arguments are evaluated from left to right; the first failure ends the
evaluation. What a free name means, and what the global functions do, is up to the scope, which may
keep a state.
-/

namespace SchemaWeave

/-- Why an expression has no value. -/
inductive EvalError where
  | spreadMismatch (container expected found : String)
  | notCallable (callee : String)
  | notAccessible (member found : String)
  | rejected (function message : String)
  deriving DecidableEq, Repr

def EvalError.message : EvalError → String
  | .spreadMismatch container expected found =>
    s!"cannot spread {found} into an {container} literal, expected {expected}"
  | .notCallable callee => s!"'{callee}' is not a function"
  | .notAccessible member found => s!"can't read '{member}' of {found}"
  | .rejected function message => s!"{function}(): {message}"

/-- Why a text has no value. -/
inductive ExprError where
  | parse (e : Expr.ParseError)
  | eval (e : EvalError)
  deriving DecidableEq, Repr

def ExprError.message : ExprError → String
  | .parse e => e.message
  | .eval e => e.message

/-- What gives free names and global functions their meaning. -/
structure Scope (m : Type → Type) where
  graph : Graph
  resolve : String → m Value
  apply : Function → List Value → m (Except EvalError Value)

namespace Literal

/-- The value of a literal; an infinity is null. -/
def value : Literal → Value
  | .null => .null
  | .bool b => .bool b
  | .integer n => .number (.int n)
  | .float x => .number (.float x)
  | .infinity _ => .null
  | .string s => .string s

end Literal

namespace Expr

/-- An expression as a message shows it. -/
def describe : Expr → String
  | .identifier name => name
  | .member base name => s!"{base.describe}.{name}"
  | .call callee _ => s!"{callee.describe}(...)"
  | .literal (.string s) => s!"'{s}'"
  | .literal _ => "literal"
  | .array _ => "array"
  | .object _ => "object"
  | .plus _ _ => "expression"

/-- The arguments of a modifier, which have to be data. -/
def modifierArguments (name : String) : List Value → Except EvalError (List Node)
  | [] => .ok []
  | v :: rest =>
    match v.toNode? with
    | some node => do .ok (node :: (← modifierArguments name rest))
    | none => .error (.rejected name s!"arguments must be plain values, got {v.kindName}")

variable {m : Type → Type} [Monad m]

/-- The call of a function. -/
def applyFunction (scope : Scope m) (f : Function) (arguments : List Value) :
    ExceptT EvalError m Value :=
  match f with
  | .modify target name =>
    ExceptT.mk (pure ((modifierArguments name arguments).map fun nodes =>
      .schema (target.modify ⟨name, nodes⟩)))
  | .schema => ExceptT.mk (scope.apply .schema arguments)
  | .params => ExceptT.mk (scope.apply .params arguments)

mutual

/-- The value of an expression. -/
def eval (scope : Scope m) : Expr → ExceptT EvalError m Value
  | .literal l => pure l.value
  | .identifier name =>
    match Function.ofName? name with
    | some f => pure (.function f)
    | none => ExceptT.lift (scope.resolve name)
  | .array elements => do
    let items ← evalElements scope elements
    pure (.list items)
  | .object properties => do
    let bindings ← evalProperties scope [] properties
    pure (.map bindings)
  | .member base name => do
    let v ← eval scope base
    match v.member? scope.graph name with
    | some found => pure found
    | none => throw (.notAccessible name v.kindName)
  | .call callee arguments => do
    let v ← eval scope callee
    match v with
    | .function f => do
      let values ← evalArguments scope arguments
      applyFunction scope f values
    | _ => throw (.notCallable callee.describe)
  | .plus left right => do
    let a ← eval scope left
    let b ← eval scope right
    pure (a.add b)

/-- The items of an array literal. -/
def evalElements (scope : Scope m) : List (Element Expr) → ExceptT EvalError m (List Value)
  | [] => pure []
  | .item e :: rest => do
    let v ← eval scope e
    let items ← evalElements scope rest
    pure (v :: items)
  | .spread e :: rest => do
    let v ← eval scope e
    match v with
    | .list spread => do
      let items ← evalElements scope rest
      pure (spread ++ items)
    | other => throw (.spreadMismatch "array" "an array" other.kindName)

/-- The entries of an object literal, inserted after those before. -/
def evalProperties (scope : Scope m) (before : Bindings) :
    List (Property Expr) → ExceptT EvalError m Bindings
  | [] => pure before
  | .entry key e :: rest => do
    let v ← eval scope e
    evalProperties scope (Bindings.insert key v before) rest
  | .spread e :: rest => do
    let v ← eval scope e
    match v with
    | .map entries => evalProperties scope (Bindings.insertAll before entries) rest
    | other => throw (.spreadMismatch "object" "an object" other.kindName)

def evalArguments (scope : Scope m) : List Expr → ExceptT EvalError m (List Value)
  | [] => pure []
  | e :: rest => do
    let v ← eval scope e
    let values ← evalArguments scope rest
    pure (v :: values)

end

/-- Parses and evaluates a text. -/
def evalText (scope : Scope m) (text : String) : m (Except ExprError Value) :=
  match parse text with
  | .error e => pure (.error (.parse e))
  | .ok e => do
    let result ← (eval scope e).run
    pure (result.mapError .eval)

end Expr

end SchemaWeave
