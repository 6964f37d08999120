import SchemaWeave.Command.Files
import SchemaWeave.Command.PathName
import SchemaWeave.Complete.Document
import SchemaWeave.Complete.Process
import SchemaWeave.Config
import SchemaWeave.Types.Load

/-!
Every command starts from a configuration and the type graph that it names. The configuration is a
given file, or else the one of the conventional name next to the input or in the working directory;
what the command line says goes before it.
-/

namespace SchemaWeave

/-- Why a command fails. -/
inductive CommandError where
  | configUnreadable (path : String) (e : FileError)
  | configInvalid (path : String) (fault : Yaml.Fault)
  | noManifest
  | manifestUnreadable (path : String) (e : FileError)
  | manifestInvalid (path : String) (e : ManifestError)
  | host (e : HostError)
  | inputUnreadable (path : String) (e : FileError)
  | document (path : String) (e : DocumentError)
  | outputUnwritable (path : String) (e : FileError)
  | expression (e : ExprError)
  | unknownType (path : String)
  deriving DecidableEq, Repr

namespace CommandError

def message : CommandError → String
  | .configUnreadable path _ | .configInvalid path _ => s!"loading configuration {path}"
  | .noManifest => s!"no type manifest: pass --types or set \x60types\x60 in {Config.fileName}"
  | .manifestUnreadable path _ | .manifestInvalid path _ => s!"loading type manifest {path}"
  | .host e => s!"script host error: {e.message}"
  | .inputUnreadable path _ => s!"reading {path}"
  | .document path _ => s!"completing {path}"
  | .outputUnwritable path _ => s!"writing {path}"
  | .expression e => e.message
  | .unknownType path => s!"can't find type '{path}'"

/-- Whether the reason is a text that cannot be parsed. -/
def isSyntax : CommandError → Bool
  | .configInvalid _ _ | .manifestInvalid _ (.unreadable _) | .document _ (.unreadable _) => true
  | _ => false

/-- The reason for a failure, unless the message tells it or it is a text that cannot be parsed. -/
def cause? (e : CommandError) : Option String :=
  if e.isSyntax then none
  else
    match e with
    | .configUnreadable _ e | .manifestUnreadable _ e => some s!"io error: {e.message}"
    | .manifestInvalid _ e => some s!"type manifest error: {e.message}"
    | .host e => some e.message
    | .inputUnreadable _ e | .outputUnwritable _ e => some e.message
    | .document _ e => some e.message
    | .configInvalid _ _ | .noManifest | .expression _ | .unknownType _ => none

end CommandError

/-- What the command line says about the context. -/
structure ContextOptions where
  config : Option String
  types : Option String
  recursionBound : Option Nat
  nameTag : Option String

namespace ContextOptions

variable {m : Type → Type} [Monad m]

/-- The value of an access to a file. -/
def attempt {α ε : Type} (wrap : ε → CommandError) (action : m (Except ε α)) :
    ExceptT CommandError m α :=
  ExceptT.mk (Except.mapError wrap <$> action)

/-- The first path at which there is a file. -/
def firstFile (files : Files m) : List String → m (Option String)
  | [] => return none
  | path :: rest => do if ← files.isFile path then return some path else firstFile files rest

/-- The path of the configuration file, if there is one. -/
def configPath (files : Files m) (c : ContextOptions) (near : Option String) : m (Option String) :=
  match c.config with
  | some path => return some path
  | none =>
    firstFile files ((near.toList ++ ["."]).map fun directory =>
      PathName.join directory Config.fileName)

/-- A configuration with the path of its manifest as seen from the directory of its own file. -/
def rebase (path : String) (config : Config) : Config :=
  match PathName.parent? path with
  | some directory => { config with types := config.types.map (PathName.join directory) }
  | none => config

/-- Reads a configuration file. -/
def readConfig (files : Files m) (path : String) : ExceptT CommandError m Config := do
  let text ← attempt (.configUnreadable path) (files.read path)
  let config ← attempt (.configInvalid path) (pure (Config.ofYaml text))
  return rebase path config

/-- A configuration with what the command line says. -/
def override (c : ContextOptions) (config : Config) : Config :=
  { config with
    types := c.types.or config.types
    options :=
      { config.options with
        recursionBound := c.recursionBound.getD config.options.recursionBound
        nameTag := c.nameTag.or config.options.nameTag } }

/-- The configuration of a command whose input lies in the given directory. -/
def loadConfig (files : Files m) (c : ContextOptions) (near : Option String) :
    ExceptT CommandError m Config := do
  let found ← ExceptT.lift (configPath files c near)
  let config ← match found with
    | some path => readConfig files path
    | none => pure .default
  return c.override config

/-- The host of a configuration. -/
def hostOf (runner : Runner) (config : Config) : Except HostError Host :=
  match config.script with
  | some script => Host.ofCommand runner script.command script.timeout
  | none => .ok .identity

/-- What documents are completed with. -/
def environment (runner : Runner) (files : Files m) (c : ContextOptions) (near : Option String) :
    ExceptT CommandError m Environment := do
  let config ← loadConfig files c near
  match config.types with
  | none => throw .noManifest
  | some path =>
    let text ← attempt (.manifestUnreadable path) (files.read path)
    let graph ← attempt (.manifestInvalid path) (pure (Graph.ofYaml text))
    let host ← attempt .host (pure (hostOf runner config))
    return ⟨graph, host, config.options, config.imports⟩

end ContextOptions

end SchemaWeave
