import SchemaWeave.Yaml.Token.Scan

/-!
Tags are expanded and anchors numbered in the order in which they appear; aliases still stand where
they are written. An anchor gets the number of names that are in use before it, so a name that is
used again may take over a number, and an alias means the last node with its number.
-/

namespace SchemaWeave.Yaml

/-- A node as it is written. -/
inductive Raw where
  | scalar (anchor : Option Nat) (tag : Option String) (style : Style) (text : String)
  | sequence (anchor : Option Nat) (items : List Raw)
  | mapping (anchor : Option Nat) (entries : List (Raw × Raw))
  | aliasOf (number : Nat)
  deriving Inhabited

namespace Raw

/-- The node where nothing is written. -/
def empty : Raw := .scalar none none .plain ""

/-- The tokens to come, the tag handles of the document, and the anchor names in use. -/
structure Reading where
  tokens : List Token
  handles : List (String × String)
  anchors : List (String × Nat)

abbrev Read := StateT Reading (Except Fault)

def peek : Read Token := do return (← get).tokens.head?.getD .streamEnd

def skip : Read Unit := modify fun s => { s with tokens := s.tokens.drop 1 }

def fail {α : Type} (fault : Fault) : Read α := throw fault

/-- Gives an anchor its number. -/
def number (name : Option String) : Read (Option Nat) :=
  match name with
  | none => return none
  | some name => do
    let s ← get
    let n := s.anchors.length
    set { s with anchors := (name, n) :: s.anchors.filter (·.1 != name) }
    return some n

/-- A tag in full. -/
def fullTag (handle suffix : String) : Read String := do
  if handle.isEmpty then return suffix
  else
    match (← get).handles.find? (·.1 == handle) with
    | some (_, expansion) => return expansion ++ suffix
    | none => fail .undefinedHandle

def anchorToken : Read (Option String) := do
  match ← peek with
  | .anchor name => do
    skip
    return some name
  | _ => return none

def tagToken : Read (Option String) := do
  match ← peek with
  | .tag handle suffix => do
    skip
    return some (← fullTag handle suffix)
  | _ => return none

/-- An anchor and a tag, in either order. -/
def properties : Read (Option String × Option String) := do
  match ← anchorToken with
  | some name => return (some name, ← tagToken)
  | none =>
    let tag ← tagToken
    if tag.isSome then return (← anchorToken, tag) else return (none, none)

/-- Tokens that follow an entry of a block mapping whose node is left out. -/
def endsMappingPart (t : Token) : Bool := t == .key || t == .value || t == .blockEnd

mutual

/-- A node. In a block context it may be a block collection, and as a part of a mapping entry also a
sequence that is not indented. -/
def node : Nat → Bool → Bool → Read Raw
  | 0, _, _ => fail .tooDeep
  | fuel + 1, inBlock, unindented => do
    match ← peek with
    | .aliasOf name => do
      skip
      match (← get).anchors.find? (·.1 == name) with
      | some (_, n) => return .aliasOf n
      | none => fail .unknownAnchor
    | _ => do
      let (anchor, tag) ← properties
      let t ← peek
      if unindented && t == .blockEntry then do
        let n ← number anchor
        return .sequence n (← unindentedItems fuel)
      else
        match t with
        | .scalar style text => do
          skip
          return .scalar (← number anchor) tag style text
        | .flowSequenceStart => do
          skip
          let n ← number anchor
          return .sequence n (← flowItems fuel true)
        | .flowMappingStart => do
          skip
          let n ← number anchor
          return .mapping n (← flowEntries fuel true)
        | .blockSequenceStart =>
          if inBlock then do
            skip
            let n ← number anchor
            return .sequence n (← blockItems fuel)
          else bare anchor tag
        | .blockMappingStart =>
          if inBlock then do
            skip
            let n ← number anchor
            return .mapping n (← blockEntries fuel)
          else bare anchor tag
        | _ => bare anchor tag

/-- A node without content needs an anchor or a tag. -/
def bare (anchor tag : Option String) : Read Raw :=
  if anchor.isNone && tag.isNone then fail .unexpectedToken
  else do return .scalar (← number anchor) tag .plain ""

/-- The items of an indented block sequence, to its end. -/
def blockItems : Nat → Read (List Raw)
  | 0 => fail .tooDeep
  | fuel + 1 => do
    match ← peek with
    | .blockEntry => do
      skip
      let t ← peek
      let item ← if t == .blockEntry || t == .blockEnd then pure empty else node fuel true false
      return item :: (← blockItems fuel)
    | .blockEnd => do
      skip
      return []
    | _ => fail .unexpectedToken

/-- The items of a block sequence that is not indented. -/
def unindentedItems : Nat → Read (List Raw)
  | 0 => fail .tooDeep
  | fuel + 1 => do
    match ← peek with
    | .blockEntry => do
      skip
      let t ← peek
      let item ← if t == .blockEntry || endsMappingPart t then pure empty else node fuel true false
      return item :: (← unindentedItems fuel)
    | _ => return []

/-- The entries of a block mapping, to its end. -/
def blockEntries : Nat → Read (List (Raw × Raw))
  | 0 => fail .tooDeep
  | fuel + 1 => do
    match ← peek with
    | .key => do
      skip
      let key ← blockPart fuel
      let value ← blockValue fuel
      return (key, value) :: (← blockEntries fuel)
    | .blockEnd => do
      skip
      return []
    | _ => fail .unexpectedToken

/-- A key or value of a block mapping after its mark. -/
def blockPart : Nat → Read Raw
  | 0 => fail .tooDeep
  | fuel + 1 => do
    if endsMappingPart (← peek) then return empty else node fuel true true

def blockValue : Nat → Read Raw
  | 0 => fail .tooDeep
  | fuel + 1 => do
    match ← peek with
    | .value => do
      skip
      blockPart fuel
    | _ => return empty

/-- The items of a flow sequence, to its end. -/
def flowItems : Nat → Bool → Read (List Raw)
  | 0, _ => fail .tooDeep
  | fuel + 1, first => do
    if (← peek) == .flowSequenceEnd then do
      skip
      return []
    else do
      if !first then
        if (← peek) == .flowEntry then skip else fail .unexpectedToken
      match ← peek with
      | .key => do
        skip
        let pair ← flowPair fuel
        return .mapping none [pair] :: (← flowItems fuel false)
      | .flowSequenceEnd => do
        skip
        return []
      | _ => do
        let item ← node fuel false false
        return item :: (← flowItems fuel false)

/-- A mapping of one entry inside a flow sequence. When its key is left out, the token that stands
in its place is passed over. -/
def flowPair : Nat → Read (Raw × Raw)
  | 0 => fail .tooDeep
  | fuel + 1 => do
    let t ← peek
    let key ←
      if t == .value || t == .flowEntry || t == .flowSequenceEnd then do
        skip
        pure empty
      else node fuel false false
    if (← peek) == .value then do
      skip
      let t ← peek
      if t == .flowEntry || t == .flowSequenceEnd then return (key, empty)
      else return (key, ← node fuel false false)
    else return (key, empty)

/-- The entries of a flow mapping, to its end. -/
def flowEntries : Nat → Bool → Read (List (Raw × Raw))
  | 0, _ => fail .tooDeep
  | fuel + 1, first => do
    if (← peek) == .flowMappingEnd then do
      skip
      return []
    else do
      if !first then
        if (← peek) == .flowEntry then skip else fail .unexpectedToken
      match ← peek with
      | .key => do
        skip
        let key ← flowPart fuel
        let value ← flowValue fuel
        return (key, value) :: (← flowEntries fuel false)
      | .flowMappingEnd => do
        skip
        return []
      | _ => do
        let key ← node fuel false false
        return (key, empty) :: (← flowEntries fuel false)

/-- A key of a flow mapping after its mark. -/
def flowPart : Nat → Read Raw
  | 0 => fail .tooDeep
  | fuel + 1 => do
    let t ← peek
    if t == .value || t == .flowEntry || t == .flowMappingEnd then return empty
    else node fuel false false

def flowValue : Nat → Read Raw
  | 0 => fail .tooDeep
  | fuel + 1 => do
    match ← peek with
    | .value => do
      skip
      let t ← peek
      if t == .flowEntry || t == .flowMappingEnd then return empty else node fuel false false
    | _ => return empty

end

/-- The directives before a document: at most one version, which has to be known, and handles that
differ. -/
def directives : Nat → Bool → List (String × String) → Read (List (String × String))
  | 0, _, handles => return handles
  | fuel + 1, versioned, handles => do
    match ← peek with
    | .versionDirective major minor => do
      if versioned || major != 1 || (minor != 1 && minor != 2) then fail .badDirective
      skip
      directives fuel true handles
    | .tagDirective handle expansion => do
      if handles.any (·.1 == handle) then fail .badDirective
      skip
      directives fuel versioned (handles ++ [(handle, expansion)])
    | _ => return handles

/-- The namespace of the tags of core types. -/
def coreTags : String := "tag:yaml.org,2002:"

/-- Handles that every document knows, unless it gives them another meaning. -/
def defaultHandles : List (String × String) := [("!", "!"), ("!!", coreTags)]

def isDirective : Token → Bool
  | .versionDirective _ _ | .tagDirective _ _ => true
  | _ => false

/-- A whole document, if there is one. -/
def document (fuel : Nat) : Read (Option Raw) := do
  let t ← peek
  if t == .streamEnd then return none
  else if isDirective t || t == .documentStart then do
    let handles ← directives fuel false []
    modify fun s => { s with handles := handles ++ defaultHandles }
    if (← peek) != .documentStart then fail .unexpectedToken
    skip
    let t ← peek
    if isDirective t || t == .documentStart || t == .documentEnd || t == .streamEnd then
      return some empty
    else return some (← node fuel true false)
  else do
    modify fun s => { s with handles := defaultHandles }
    return some (← node fuel true false)

/-- The one document that the tokens hold, if they hold any. -/
def ofTokens? (tokens : List Token) : Except Fault (Option Raw) := do
  let fuel := 4 * tokens.length + 4
  let (found, s) ← (document fuel).run ⟨tokens, [], []⟩
  match found with
  | none => .ok none
  | some raw =>
    match s.tokens.dropWhile (· == .documentEnd) with
    | .streamEnd :: _ => .ok (some raw)
    | _ => .error .severalDocuments

end Raw

end SchemaWeave.Yaml
