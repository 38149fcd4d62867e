import FunctionStudy.Yaml.Token

/-! Nodes of YAML. Tokens become one tree. What is missing between two marks is an empty plain
scalar. An alias stands for the node of its anchor, which must come before it and be named once. -/

namespace FunctionStudy.Yaml

inductive Node where
  /-- A plain scalar means more than its text; a tag says what any scalar means. -/
  | scalar (tag : Option String) (isPlain : Bool) (text : String)
  | sequence (tag : Option String) (items : List Node)
  | mapping (tag : Option String) (entries : List (Node × Node))

def Node.empty : Node := .scalar none true ""

/-- What is left to read, the tag prefix of each handle, and the nodes that have anchors. -/
structure Reading where
  tokens : List Token
  handles : List (String × String)
  anchors : List (String × Node)

abbrev Reader (α : Type) := StateT Reading Option α

namespace Reader

def peek : Reader (Option Token) := return (← get).tokens.head?

def skip : Reader Unit := modify fun r => { r with tokens := r.tokens.drop 1 }

def sees (ts : List Token) : Reader Bool := return (← peek).any ts.contains

def expect (t : Token) : Reader Unit := do
  if !(← sees [t]) then failure
  skip

def accept (t : Token) : Reader Bool := do
  let found ← sees [t]
  if found then skip
  return found

/-- The full name of a tag; the lone mark is none. -/
def tagName (handle : Option String) (suffix : String) : Reader String := do
  match handle with
  | none => return suffix
  | some name =>
    match (← get).handles.lookup name with
    | some start => return start ++ suffix
    | none => failure

/-- The anchor and the tag in front of a node, in either order. -/
def properties : Reader (Option String × Option String) := do
  match ← peek with
  | some (.anchor name) =>
    skip
    match ← peek with
    | some (.tag handle suffix) =>
      skip
      return (some name, some (← tagName handle suffix))
    | _ => return (some name, none)
  | some (.tag handle suffix) =>
    skip
    let tag ← tagName handle suffix
    match ← peek with
    | some (.anchor name) =>
      skip
      return (some name, some tag)
    | _ => return (none, some tag)
  | _ => return (none, none)

def name (anchor : Option String) (node : Node) : Reader Node := do
  match anchor with
  | none => return node
  | some a =>
    if ((← get).anchors.lookup a).isSome then failure
    modify fun r => { r with anchors := (a, node) :: r.anchors }
    return node

/-- Where a node stands: which forms it may have there. -/
inductive Place where
  /-- Inside brackets. -/
  | flow
  /-- In a block. -/
  | block
  /-- In a block mapping, where a sequence may stand as deep as its key. -/
  | entry
deriving DecidableEq

mutual

def node : Nat → Place → Reader Node
  | 0, _ => failure
  | fuel + 1, place => do
    match ← peek with
    | some (.alias a) =>
      skip
      match (← get).anchors.lookup a with
      | some n => return n
      | none => failure
    | _ =>
      let (anchor, tag) ← properties
      let form ←
        match ← peek with
        | some (.scalar text isPlain) => do
          skip
          pure (Node.scalar (if tag = some "!" then none else tag)
            (isPlain && tag.isNone || tag == some "!") text)
        | some .flowSequenceStart => do
          skip
          pure (.sequence tag (← flowItems fuel true))
        | some .flowMappingStart => do
          skip
          pure (.mapping tag (← flowEntries fuel true))
        | some .blockEntry => do
          if place = .entry then pure (.sequence tag (← entryItems fuel)) else emptyForm anchor tag
        | some .blockSequenceStart => do
          if place = .flow then emptyForm anchor tag
          else
            skip
            pure (.sequence tag (← blockItems fuel))
        | some .blockMappingStart => do
          if place = .flow then emptyForm anchor tag
          else
            skip
            pure (.mapping tag (← blockEntries fuel))
        | _ => emptyForm anchor tag
      name anchor form

/-- A node that consists of its properties alone. -/
def emptyForm (anchor tag : Option String) : Reader Node :=
  if anchor.isSome || tag.isSome then
    return .scalar (if tag = some "!" then none else tag) (tag.isNone || tag == some "!") ""
  else failure

/-- A node, or the empty one if some token follows instead. -/
def nodeUnless : Nat → Place → List Token → Reader Node
  | 0, _, _ => failure
  | fuel + 1, place, ends => do
    if ← sees ends then return .empty else node fuel place

/-- The items of a block sequence and its end. -/
def blockItems : Nat → Reader (List Node)
  | 0 => failure
  | fuel + 1 => do
    if ← accept .blockEntry then
      let item ← nodeUnless fuel .block [.blockEntry, .blockEnd]
      return item :: (← blockItems fuel)
    else
      expect .blockEnd
      return []

/-- The items of a sequence that is as deep as its key. -/
def entryItems : Nat → Reader (List Node)
  | 0 => failure
  | fuel + 1 => do
    if ← accept .blockEntry then
      let item ← nodeUnless fuel .block [.blockEntry, .key, .value, .blockEnd]
      return item :: (← entryItems fuel)
    else return []

def blockEntries : Nat → Reader (List (Node × Node))
  | 0 => failure
  | fuel + 1 => do
    if ← accept .key then
      let key ← nodeUnless fuel .entry [.key, .value, .blockEnd]
      let value ←
        if ← accept .value then nodeUnless fuel .entry [.key, .value, .blockEnd] else pure .empty
      return (key, value) :: (← blockEntries fuel)
    else
      expect .blockEnd
      return []

/-- The items between brackets and the closing one. A key and value make an item of one entry. -/
def flowItems : Nat → Bool → Reader (List Node)
  | 0, _ => failure
  | fuel + 1, isFirst => do
    if ← accept .flowSequenceEnd then return []
    if !isFirst then expect .flowEntry
    if ← accept .key then
      let key ← nodeUnless fuel .flow [.value, .flowEntry, .flowSequenceEnd]
      let value ←
        if ← accept .value then nodeUnless fuel .flow [.flowEntry, .flowSequenceEnd]
        else pure .empty
      return .mapping none [(key, value)] :: (← flowItems fuel false)
    else if ← accept .flowSequenceEnd then return []
    else
      let item ← node fuel .flow
      return item :: (← flowItems fuel false)

def flowEntries : Nat → Bool → Reader (List (Node × Node))
  | 0, _ => failure
  | fuel + 1, isFirst => do
    if ← accept .flowMappingEnd then return []
    if !isFirst then expect .flowEntry
    if ← accept .key then
      let key ← nodeUnless fuel .flow [.value, .flowEntry, .flowMappingEnd]
      let value ←
        if ← accept .value then nodeUnless fuel .flow [.flowEntry, .flowMappingEnd]
        else pure .empty
      return (key, value) :: (← flowEntries fuel false)
    else if ← accept .flowMappingEnd then return []
    else
      let key ← node fuel .flow
      return (key, .empty) :: (← flowEntries fuel false)

end

/-- The prefixes that are known without a directive. -/
def standardHandles : List (String × String) := [("!", "!"), ("!!", "tag:yaml.org,2002:")]

/-- The directives before a document: a version may be given once and each handle once. -/
def directives : Nat → Bool → List (String × String) → Reader (List (String × String))
  | 0, _, _ => failure
  | fuel + 1, hasVersion, handles => do
    match ← peek with
    | some (.directive d) =>
      skip
      match d with
      | .version major =>
        if hasVersion || major ≠ 1 then failure
        directives fuel true handles
      | .handle name tag =>
        if (handles.lookup name).isSome then failure
        directives fuel hasVersion ((name, tag) :: handles)
      | .other => directives fuel hasVersion handles
    | _ => return handles ++ standardHandles

def isDocumentEdge : Token → Bool
  | .directive _ | .documentStart | .documentEnd | .streamEnd => true
  | _ => false

def skipEnds : Nat → Reader Unit
  | 0 => return ()
  | fuel + 1 => do
    if ← accept .documentEnd then skipEnds fuel

/-- The only document of a text, or nothing if there is none. -/
def document (fuel : Nat) : Reader (Option Node) := do
  if ← sees [.streamEnd] then return none
  let isMarked := (← peek).any isDocumentEdge && (← peek) != some .documentEnd
  if isMarked then
    let handles ← directives fuel false []
    expect .documentStart
    modify fun r => { r with handles }
  let root ← if isMarked && (← peek).any isDocumentEdge then pure .empty else node fuel .block
  skipEnds fuel
  expect .streamEnd
  return some root

end Reader

/-- The tree of a text: nothing if it is malformed, and an empty scalar if it holds no document. -/
def node? (text : String) : Option Node := do
  let tokens ← tokens? text
  let start : Reading := ⟨tokens, Reader.standardHandles, []⟩
  let (root, _) ← (Reader.document (3 * tokens.length + 3)).run start
  return root.getD .empty

end FunctionStudy.Yaml
