import SchemaWeave.Json.Printer
import SchemaWeave.Json.Reader

/-!
The value of every host directive goes through a host, whose reply takes its place. A host may take
into account what it was asked before.
-/

namespace SchemaWeave

/-- What a host is asked: a directive's key and value, and where its map stands in the document. -/
structure HostCall where
  key : String
  value : Node
  breadcrumb : List String

/-- Why a host gives no reply. -/
inductive HostError where
  | notStarted (command reason : String)
  | timeout (milliseconds : Nat)
  | exited (status : Nat) (complaint : String)
  | unreadable (e : Json.Error)
  deriving DecidableEq, Repr

def HostError.message : HostError → String
  | .notStarted command reason => s!"failed to start script host '{command}': {reason}"
  | .timeout milliseconds => s!"script host timed out after {milliseconds} ms"
  | .exited status complaint => s!"script host exited with exit status: {status}: {complaint}"
  | .unreadable e => s!"script host message error: json: {e.message}"

/-- A host replies to a call, given the calls before it. -/
abbrev Host := List HostCall → HostCall → Except HostError Node

namespace Host

/-- A host without memory. -/
def ofReply (reply : HostCall → Except HostError Node) : Host := fun _ call => reply call

/-- The host that returns every value as it is. -/
def identity : Host := ofReply fun call => .ok call.value

end Host

/-- A call as a document. -/
def HostCall.toNode (call : HostCall) : Node :=
  .map [("key", .string call.key), ("value", call.value),
    ("path", .list (call.breadcrumb.map .string))]

end SchemaWeave
