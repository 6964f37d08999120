import SchemaWeave.Decimal.Binary64

/-!
The tree of a directive expression: data literals, names, member access, calls and `+`. Array and
object literals may spread another value into themselves.
-/

namespace SchemaWeave

/-- A literal. A decimal too large for a float stands for an infinity. -/
inductive Literal where
  | null
  | bool (value : Bool)
  | integer (value : Int)
  | float (value : Binary64)
  | infinity (negative : Bool)
  | string (value : String)
  deriving DecidableEq, Repr

/-- An entry of an array literal: one value, or all items of an array. -/
inductive Element (α : Type) where
  | item (value : α)
  | spread (value : α)
  deriving DecidableEq, Repr

/-- An entry of an object literal: one key and its value, or all entries of an object. -/
inductive Property (α : Type) where
  | entry (key : String) (value : α)
  | spread (value : α)
  deriving DecidableEq, Repr

inductive Expr where
  | literal (value : Literal)
  | identifier (name : String)
  | array (elements : List (Element Expr))
  | object (properties : List (Property Expr))
  | member (base : Expr) (name : String)
  | call (callee : Expr) (arguments : List Expr)
  | plus (left right : Expr)
  deriving Inhabited

end SchemaWeave
