import SchemaWeave.Complete.Host
import SchemaWeave.Text.Utf8

/-!
A host may be a command of the system, which runs once for every call: it gets the call as JSON and
prints the reply as JSON, within a certain time. What commands do is a parameter. Commands print
bytes, so that one may leave a character broken.
-/

namespace SchemaWeave

/-- How a command ended: after how long, with which status, what it printed and what it complained
about. -/
structure ProcessRun where
  milliseconds : Nat
  status : Nat
  printed : List UInt8
  complaint : List UInt8

/-- What the commands of a system do: the words of a command line and an input give a run, or the
reason why the command cannot be started. -/
abbrev Runner := List (List Char) → List UInt8 → Except String ProcessRun

namespace Host

/-- The document that a command's output stands for. Nothing, and null, stand for an empty map. -/
def readReply (printed : List Char) : Except HostError Node :=
  let text := Text.trim printed
  if text.isEmpty || text == ['n', 'u', 'l', 'l'] then .ok (.map [])
  else (Node.ofJson (String.ofList text)).mapError .unreadable

/-- The reply of a command to a call. No word of a command may hold a zero. -/
def processReply (runner : Runner) (words : List (List Char)) (timeout : Nat) (call : HostCall) :
    Except HostError Node :=
  let notStarted (reason : String) : Except HostError Node :=
    .error (.notStarted (String.ofList (Text.joinWith [' '] words)) reason)
  if words.any fun word => word.contains '\x00' then notStarted "nul byte found in provided data"
  else
    match runner words (Text.toBytes call.toNode.compact) with
    | .error reason => notStarted reason
    | .ok run =>
      if timeout ≤ run.milliseconds then .error (.timeout timeout)
      else if run.status ≠ 0 then
        .error (.exited run.status (String.ofList (Text.trim (Text.ofBytes run.complaint))))
      else readReply (Text.ofBytes run.printed)

/-- The host that runs a command line, whose words are parted by blanks. -/
def ofCommand (runner : Runner) (command : String) (timeout : Nat) : Except HostError Host :=
  match Text.words command.toList with
  | [] => .error (.notStarted command "empty command")
  | words => .ok (ofReply (processReply runner words timeout))

end Host

end SchemaWeave
