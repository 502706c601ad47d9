import Sidecar.Yaml.Token

/-!
# YAML nodes

The tree of a YAML document: scalars, sequences and mappings. An alias stays a reference to the node that
its anchor names, which may even be a node around the alias.

`Document.ofTokens?` builds the tree from tokens. It accepts a text of at most one document.
-/

namespace Sidecar.Yaml

/-- A node of a document. An alias holds the number of its anchor. -/
inductive Node where
  | scalar (tag : Option String) (style : Style) (text : String)
  | sequence (tag : Option String) (items : List Node)
  | mapping (tag : Option String) (entries : List (Node × Node))
  | alias (anchor : Nat)
deriving Inhabited, Repr

/-- The node where a text leaves one out. -/
def Node.missing : Node :=
  .scalar none .plain ""

/-- The anchors of a document: the number that each name stands for now, and the nodes of the numbers. -/
structure Anchors where
  numbers : List (String × Nat) := []
  nodes : List (Nat × Node) := []
  count : Nat := 0
deriving Repr

namespace Anchors

/-- Gives the next number to a name. An older anchor of that name is out of reach from here on. -/
def declare (a : Anchors) : Option String → Option Nat × Anchors
  | none => (none, a)
  | some name =>
    (some a.count, { a with numbers := (name, a.count) :: a.numbers, count := a.count + 1 })

/-- Sets the node of a number. -/
def define (a : Anchors) (number : Option Nat) (node : Node) : Anchors :=
  match number with
  | some n => { a with nodes := (n, node) :: a.nodes }
  | none => a

end Anchors

/-- What stands in front of a node. -/
structure Properties where
  anchor : Option String := none
  tag : Option String := none

/-- The handles that tags are written with, and what they stand for. -/
abbrev Handles := List (String × String)

/-- The handles of every document. -/
def Handles.standard : Handles :=
  [("!", "!"), ("!!", "tag:yaml.org,2002:")]

/-- The full form of a tag. -/
def Handles.expand? (handles : Handles) (handle suffix : String) : Option String :=
  if handle = "" then some suffix else (handles.lookup handle).map (· ++ suffix)

/-- Reads an anchor and a tag, in any order. -/
def readProperties (handles : Handles) : List Token → Option (Properties × List Token)
  | .anchor name :: .tag handle suffix :: rest => do
    return (⟨some name, some (← handles.expand? handle suffix)⟩, rest)
  | .tag handle suffix :: .anchor name :: rest => do
    return (⟨some name, some (← handles.expand? handle suffix)⟩, rest)
  | .anchor name :: rest => some (⟨some name, none⟩, rest)
  | .tag handle suffix :: rest => do return (⟨none, some (← handles.expand? handle suffix)⟩, rest)
  | tokens => some ({}, tokens)

/-- Tokens before which an item of an indentless sequence is left out. -/
def endsItem : List Token → Bool
  | .blockEntry :: _ | .key :: _ | .value :: _ | .blockEnd :: _ => true
  | _ => false

/-! A reader of nodes answers with what it has read, the tokens that are left, and the anchors so far. -/

mutual

/-- Reads a node. In a block, sequences and mappings may be written by indentation; where `indentless`, the
items of a sequence may stand at the indentation of the mapping around it. -/
def readNode (handles : Handles) (block indentless : Bool) :
    (fuel : Nat) → List Token → Anchors → Option (Node × List Token × Anchors)
  | 0, _, _ => none
  | _ + 1, .alias name :: rest, a => do return (.alias (← a.numbers.lookup name), rest, a)
  | fuel + 1, tokens, a => do
    let (props, tokens) ← readProperties handles tokens
    let (number, a) := a.declare props.anchor
    let (node, tokens, a) ← readContent handles block indentless props fuel tokens a
    return (node, tokens, a.define number node)

/-- Reads a node after its anchor and tag. -/
def readContent (handles : Handles) (block indentless : Bool) (props : Properties) :
    (fuel : Nat) → List Token → Anchors → Option (Node × List Token × Anchors)
  | 0, _, _ => none
  | fuel + 1, tokens, a =>
    match tokens with
    | .scalar style text :: rest =>
      some (.scalar (props.tag.filter (· ≠ "!")) style text, rest, a)
    | .flowSequenceStart :: rest => do
      let (items, rest, a) ← readFlowItems handles true fuel rest a
      return (.sequence props.tag items, rest, a)
    | .flowMappingStart :: rest => do
      let (entries, rest, a) ← readFlowEntries handles true fuel rest a
      return (.mapping props.tag entries, rest, a)
    | tokens =>
      match block, indentless, tokens with
      | _, true, .blockEntry :: _ => do
        let (items, rest, a) ← readIndentlessItems handles fuel tokens a
        return (.sequence props.tag items, rest, a)
      | true, _, .blockSequenceStart :: rest => do
        let (items, rest, a) ← readBlockItems handles fuel rest a
        return (.sequence props.tag items, rest, a)
      | true, _, .blockMappingStart :: rest => do
        let (entries, rest, a) ← readBlockEntries handles fuel rest a
        return (.mapping props.tag entries, rest, a)
      | _, _, _ =>
        if props.anchor.isSome || props.tag.isSome then some (.scalar props.tag .plain "", tokens, a)
        else none

/-- Reads the items of a block sequence and its end. -/
def readBlockItems (handles : Handles) : (fuel : Nat) → List Token → Anchors → Option (List Node × List Token × Anchors)
  | 0, _, _ => none
  | fuel + 1, tokens, a =>
    match tokens with
    | .blockEnd :: rest => some ([], rest, a)
    | .blockEntry :: rest => do
      let (item, rest, a) ← match rest with
        | .blockEntry :: _ | .blockEnd :: _ => some (Node.missing, rest, a)
        | _ => readNode handles true false fuel rest a
      let (items, rest, a) ← readBlockItems handles fuel rest a
      return (item :: items, rest, a)
    | _ => none

/-- Reads the items of a sequence that has no end of its own. -/
def readIndentlessItems (handles : Handles) :
    (fuel : Nat) → List Token → Anchors → Option (List Node × List Token × Anchors)
  | 0, _, _ => none
  | fuel + 1, tokens, a =>
    match tokens with
    | .blockEntry :: rest => do
      let (item, rest, a) ←
        if endsItem rest then some (Node.missing, rest, a)
        else readNode handles true false fuel rest a
      let (items, rest, a) ← readIndentlessItems handles fuel rest a
      return (item :: items, rest, a)
    | tokens => some ([], tokens, a)

/-- Reads a key or a value of a block mapping after its indicator. -/
def readBlockPart (handles : Handles) : (fuel : Nat) → List Token → Anchors → Option (Node × List Token × Anchors)
  | 0, _, _ => none
  | fuel + 1, tokens, a =>
    match tokens with
    | .key :: _ | .value :: _ | .blockEnd :: _ => some (Node.missing, tokens, a)
    | tokens => readNode handles true true fuel tokens a

/-- Reads the entries of a block mapping and its end. -/
def readBlockEntries (handles : Handles) :
    (fuel : Nat) → List Token → Anchors → Option (List (Node × Node) × List Token × Anchors)
  | 0, _, _ => none
  | fuel + 1, tokens, a =>
    match tokens with
    | .blockEnd :: rest => some ([], rest, a)
    | .key :: rest => do
      let (key, rest, a) ← readBlockPart handles fuel rest a
      let (value, rest, a) ← match rest with
        | .value :: rest => readBlockPart handles fuel rest a
        | _ => some (Node.missing, rest, a)
      let (entries, rest, a) ← readBlockEntries handles fuel rest a
      return ((key, value) :: entries, rest, a)
    | _ => none

/-- Reads the items of a sequence in brackets and its end. An item with a key is a mapping of one entry. -/
def readFlowItems (handles : Handles) (first : Bool) :
    (fuel : Nat) → List Token → Anchors → Option (List Node × List Token × Anchors)
  | 0, _, _ => none
  | fuel + 1, tokens, a => do
    let tokens ← match first, tokens with
      | false, .flowEntry :: rest => some rest
      | false, .flowSequenceEnd :: _ => some tokens
      | false, _ => none
      | true, _ => some tokens
    match tokens with
    | .flowSequenceEnd :: rest => return ([], rest, a)
    | .key :: rest =>
      let (key, rest, a) ← match rest with
        | .value :: rest | .flowEntry :: rest | .flowSequenceEnd :: rest =>
          some (Node.missing, rest, a)
        | _ => readNode handles false false fuel rest a
      let (value, rest, a) ← match rest with
        | .value :: rest =>
          match rest with
          | .flowEntry :: _ | .flowSequenceEnd :: _ => some (Node.missing, rest, a)
          | _ => readNode handles false false fuel rest a
        | _ => some (Node.missing, rest, a)
      let (items, rest, a) ← readFlowItems handles false fuel rest a
      return (.mapping none [(key, value)] :: items, rest, a)
    | tokens =>
      let (item, rest, a) ← readNode handles false false fuel tokens a
      let (items, rest, a) ← readFlowItems handles false fuel rest a
      return (item :: items, rest, a)

/-- Reads the entries of a mapping in brackets and its end. -/
def readFlowEntries (handles : Handles) (first : Bool) :
    (fuel : Nat) → List Token → Anchors → Option (List (Node × Node) × List Token × Anchors)
  | 0, _, _ => none
  | fuel + 1, tokens, a => do
    let tokens ← match first, tokens with
      | false, .flowEntry :: rest => some rest
      | false, .flowMappingEnd :: _ => some tokens
      | false, _ => none
      | true, _ => some tokens
    match tokens with
    | .flowMappingEnd :: rest => return ([], rest, a)
    | .key :: rest =>
      let (key, rest, a) ← match rest with
        | .value :: _ | .flowEntry :: _ | .flowMappingEnd :: _ => some (Node.missing, rest, a)
        | _ => readNode handles false false fuel rest a
      let (value, rest, a) ← match rest with
        | .value :: rest =>
          match rest with
          | .flowEntry :: _ | .flowMappingEnd :: _ => some (Node.missing, rest, a)
          | _ => readNode handles false false fuel rest a
        | _ => some (Node.missing, rest, a)
      let (entries, rest, a) ← readFlowEntries handles false fuel rest a
      return ((key, value) :: entries, rest, a)
    | tokens =>
      let (key, rest, a) ← readNode handles false false fuel tokens a
      let (entries, rest, a) ← readFlowEntries handles false fuel rest a
      return ((key, Node.missing) :: entries, rest, a)

end

/-- A text of one document, or of none. -/
structure Text where
  root : Option Node := none
  anchors : List (Nat × Node) := []
deriving Repr

/-- Reads the directives in front of a document: at most one version, and handles that are declared once. -/
def readDirectives : List Token → (version : Bool) → Handles → Option (Handles × List Token)
  | .version major minor :: rest, version, handles =>
    if version || major ≠ 1 || (minor ≠ 1 && minor ≠ 2) then none
    else readDirectives rest true handles
  | .tagDirective handle expansion :: rest, version, handles =>
    if handles.any (·.1 = handle) then none
    else readDirectives rest version ((handle, expansion) :: handles)
  | tokens, _, handles => some (handles, tokens)

/-- Whether only marks for the end of a document are left. -/
def endsText (tokens : List Token) : Bool :=
  tokens.all (· = .documentEnd)

/-- Whether a document ends before it has content. -/
def isBare : List Token → Bool
  | [] | .version .. :: _ | .tagDirective .. :: _ | .documentStart :: _ | .documentEnd :: _ => true
  | _ => false

/-- Reads the node of a document, and the rest of the text. -/
def readRoot (handles : Handles) (tokens : List Token) : Option Text := do
  let (node, rest, a) ← readNode handles true false (2 * tokens.length + 8) tokens {}
  if endsText rest then return ⟨some node, a.nodes⟩ else none

/-- The document that tokens hold. -/
def Text.ofTokens? : List Token → Option Text
  | [] => some {}
  | tokens@(.version .. :: _) | tokens@(.tagDirective .. :: _) | tokens@(.documentStart :: _) => do
    let (declared, rest) ← readDirectives tokens false []
    match rest with
    | .documentStart :: rest =>
      if isBare rest then (if endsText rest then some ⟨some Node.missing, []⟩ else none)
      else readRoot (declared ++ Handles.standard) rest
    | _ => none
  | tokens => readRoot Handles.standard tokens

/-- Reads a text. -/
def Text.parse? (s : String) : Option Text := do
  Text.ofTokens? (← tokens? s)

end Sidecar.Yaml
