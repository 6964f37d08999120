import SchemaWeave.Expr.Eval
import SchemaWeave.Schema.Resolve

/-!
The fields of a struct as parameters of an operation: name, place, description, whether it is
required, and schema. Embedded structs without a tag contribute their fields in place, each struct
once.
-/

namespace SchemaWeave

namespace Resolver

/-- The parameter that a field of a type in the given file makes, unless it is left out. Its place
is its own, or that of the struct. -/
def param (r : Resolver) (place : Option Node) (file : String) (f : Field) :
    Resolving (Option Value) :=
  match r.paramName f with
  | none => return none
  | some name => do
    let s ← r.typeSchema (f.ref file) false
    let entry (key : String) (node : Option Node) : Bindings :=
      node.toList.map fun n => (key, Value.ofNode n)
    return some (.map (("name", .string name) ::
      entry "in" ((Entries.get? "in" f.doc.metadata).or place) ++
      [("description", .string f.doc.full)] ++
      entry "required" (Entries.get? "required" f.doc.metadata) ++
      [("schema", .schema s)]))

/-- What is collected so far: the keys of the structs, and their parameters. -/
structure Collected where
  seen : List String
  params : List Value

/-- Adds the parameters of a struct, unless it was seen before. Every struct on the way adds a key,
so the number of types bounds the depth. -/
def collect (r : Resolver) (place : Option Node) : Nat → Collected → TypeRef → Resolving Collected
  | 0, c, _ => return c
  | fuel + 1, c, t =>
    if t.key.any c.seen.contains then return c
    else
      t.fields.foldlM
        (fun c f =>
          match if isSpliced f then r.structOf? (f.ref t.file) else none with
          | some inner => collect r place fuel c inner
          | none => do
            let entry ← r.param place t.file f
            return { c with params := c.params ++ entry.toList })
        { c with seen := t.key.toList ++ c.seen }

/-- How a type is named in messages. -/
def displayName (t : TypeRef) : String := (t.key.or t.name).getD "anonymous type"

/-- The parameters of the struct that a type denotes. Other values than types stay as they are. -/
def params (r : Resolver) : Value → Resolving (Except EvalError Value)
  | .type t =>
    match r.structOf? t with
    | none => return .error (.rejected "params" s!"'{displayName t}' is not a struct type")
    | some d => do
      let place := Entries.get? "in" d.doc.metadata
      let c ← collect r place (r.graph.types.length + 1) ⟨[], []⟩ d
      return .ok (.list c.params)
  | .missing m => return .error (.rejected "params" m.message)
  | other => return .ok other

/-- Applies a function to arguments, of which only the first counts; without one it is null. -/
def apply (r : Resolver) (f : Function) (arguments : List Value) :
    Resolving (Except EvalError Value) :=
  let argument := arguments.head?.getD .null
  match f with
  | .schema => do return .ok (.schema (← r.valueSchema false argument))
  | .params => r.params argument
  | .modify _ name => return .error (.rejected name "modifiers are applied by the evaluator")

end Resolver

end SchemaWeave
