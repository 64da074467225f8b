import Rulebook.Yaml.Token.Scan
import Rulebook.Yaml.Tag

/-!
Nodes: what the tokens of a document say, before it is looked at what the scalars stand for. Names
that refer to an anchored node are replaced by that node. `Node.ofTokens?` reads the one document
of a text; the recursion goes down a bound on the number of tokens.
-/

namespace Rulebook.Yaml

/-- A node of a document. -/
inductive Node where
  | scalar (tag : Tag) (text : List Char)
  | sequence (tag : Tag) (items : List Node)
  | mapping (tag : Tag) (entries : List (Node × Node))

def Node.tag : Node → Tag
  | .scalar tag _ | .sequence tag _ | .mapping tag _ => tag

/-- The node of a place that is left empty. -/
def Node.empty : Node := .scalar .null []

/-- What tag handles stand for. -/
abbrev Handles := List (List Char × List Char)

/-- The handles that need no directive. -/
def Handles.default : Handles := [(['!'], ['!']), (['!', '!'], standardTags)]

/-- The tokens still to be read, and the anchored nodes; a node that is not complete yet is none. -/
structure Reading where
  tokens : List Token
  anchors : List (List Char × Option Node) := []

/-- A reader of a part of a document. -/
abbrev Reader (α : Type) := StateT Reading (Except Fault) α

namespace Reader

def fail {α : Type} : Reader α := throw .malformed

/-- The next token. -/
def peek : Reader Token := do
  match (← get).tokens with
  | [] => fail
  | .flaw fault :: _ => throw fault
  | t :: _ => pure t

/-- Leaves the next token behind. -/
def advance : Reader Unit := modify fun r => { r with tokens := r.tokens.drop 1 }

/-- Notes that an anchored node begins; an anchor is used only once. -/
def declare (name : List Char) : Reader Unit := do
  if ((← get).anchors.lookup name).isSome then fail
  modify fun r => { r with anchors := (name, none) :: r.anchors }

/-- Notes an anchored node. -/
def define (name : List Char) (node : Node) : Reader Unit :=
  modify fun r => { r with anchors := (name, some node) :: r.anchors }

def referenced (name : List Char) : Reader Node := do
  match (← get).anchors.lookup name with
  | some (some node) => pure node
  | _ => fail

end Reader

open Reader

/-- What may stand before a node: an anchor and a tag. -/
structure Properties where
  anchor : Option (List Char) := none
  tag : Option (List Char) := none

namespace Properties

/-- Whether neither an anchor nor a tag has been given. -/
def isEmpty (p : Properties) : Bool := p.anchor.isNone && p.tag.isNone

/-- Whether a tag has been given that says more than that there is one. -/
def isTagged (p : Properties) : Bool := p.tag.any (· ≠ ['!'])

/-- The tag of a node, or the usual one. -/
def tagOr (p : Properties) (usual : Tag) : Tag :=
  if p.isTagged then Tag.ofText (p.tag.getD []) else usual

/-- The tag of a scalar. A quoted one without a tag is a text. -/
def scalarTag (p : Properties) (text : List Char) (plain : Bool) : Tag :=
  p.tagOr (if plain || p.tag.isSome then resolve text else .str)

end Properties

def tagText (handles : Handles) (handle : Option (List Char)) (suffix : List Char) :
    Reader (List Char) :=
  match handle with
  | none => pure suffix
  | some handle =>
    match handles.lookup handle with
    | some replacement => pure (replacement ++ suffix)
    | none => fail

/-- The tag at the front, if there is one. -/
def tagHere : Reader (Option (Option (List Char) × List Char)) := do
  match ← peek with
  | .tag handle suffix => do advance; pure (some (handle, suffix))
  | _ => pure none

/-- The anchor and the tag before a node, in either order. -/
def properties (handles : Handles) : Reader Properties := do
  let text (tag : Option (Option (List Char) × List Char)) : Reader (Option (List Char)) :=
    match tag with
    | some (handle, suffix) => do pure (some (← tagText handles handle suffix))
    | none => pure none
  match ← peek with
  | .anchor name => do
    advance
    let tag ← text (← tagHere)
    pure ⟨some name, tag⟩
  | .tag handle suffix => do
    advance
    match ← peek with
    | .anchor name => do
      advance
      pure ⟨some name, ← text (some (handle, suffix))⟩
    | _ => pure ⟨none, ← text (some (handle, suffix))⟩
  | _ => pure {}

/-- Where a node stands. -/
inductive Position where
  /-- The one node of a document that starts without a mark. -/
  | bare
  /-- The one node of a document behind its mark. -/
  | document
  | blockItem
  /-- An item of a block sequence that is indented no more than its key. -/
  | levelItem
  /-- A key or a value of a block mapping. -/
  | blockEntry
  | listItem
  | pairKey
  | pairValue
  | mapKey
  /-- A key without a question mark and without a value. -/
  | mapWord
  | mapValue
deriving DecidableEq

/-- Whether the place is left empty that a token stands at. -/
def Position.isEmpty : Position → Token → Bool
  | document, .directive _ | document, .documentStart | document, .documentEnd
  | document, .streamEnd => true
  | blockItem, .dash | blockItem, .blockEnd => true
  | levelItem, .dash | levelItem, .key | levelItem, .value | levelItem, .blockEnd => true
  | blockEntry, .key | blockEntry, .value | blockEntry, .blockEnd => true
  | pairKey, .value | pairKey, .comma | pairKey, .listClose => true
  | pairValue, .comma | pairValue, .listClose => true
  | mapKey, .value | mapKey, .comma | mapKey, .mapClose => true
  | mapValue, .comma | mapValue, .mapClose => true
  | _, _ => false

/-- Reads the comma before an item of a list or an entry of a map, unless it is the first one. -/
def separator (first : Bool) : Reader Unit := do
  if first then pure ()
  else
    match ← peek with
    | .comma => advance
    | _ => fail

mutual

def readNode (handles : Handles) : Nat → Position → Reader Node
  | 0, _ => fail
  | n + 1, position => do
    let next ← peek
    if position.isEmpty next then pure .empty
    else
      match next with
      | .reference name => do advance; referenced name
      | _ => do
        let p ← properties handles
        let _ ← peek
        if let some name := p.anchor then declare name
        let node ← readContent handles n position p
        if let some name := p.anchor then define name node
        pure node

def readContent (handles : Handles) : Nat → Position → Properties → Reader Node
  | 0, _, _ => fail
  | n + 1, position, p => do
    match ← peek with
    | .scalar text plain => do advance; pure (.scalar (p.scalarTag text plain) text)
    | .listOpen => do
      advance
      let items ← readList handles n true
      pure (.sequence (p.tagOr .sequence) items)
    | .mapOpen => do
      advance
      let entries ← readMap handles n true
      pure (.mapping (p.tagOr .mapping) entries)
    | .sequenceStart => do
      advance
      let items ← readItems handles n
      pure (.sequence (p.tagOr .sequence) items)
    | .mappingStart => do
      advance
      let entries ← readEntries handles n
      pure (.mapping (p.tagOr .mapping) entries)
    | .dash =>
      if position = .blockEntry then do
        let items ← readLevelItems handles n
        pure (.sequence (p.tagOr .sequence) items)
      else if p.isEmpty then fail
      else pure (.scalar (p.tagOr .null) [])
    | _ => if p.isEmpty then fail else pure (.scalar (p.tagOr .null) [])

/-- Reads the items of a block sequence. -/
def readItems (handles : Handles) : Nat → Reader (List Node)
  | 0 => fail
  | n + 1 => do
    match ← peek with
    | .dash => do
      advance
      let item ← readNode handles n .blockItem
      let items ← readItems handles n
      pure (item :: items)
    | .blockEnd => do advance; pure []
    | _ => fail

/-- Reads the items of a block sequence that is indented no more than its key. -/
def readLevelItems (handles : Handles) : Nat → Reader (List Node)
  | 0 => fail
  | n + 1 => do
    match ← peek with
    | .dash => do
      advance
      let item ← readNode handles n .levelItem
      let items ← readLevelItems handles n
      pure (item :: items)
    | _ => pure []

/-- Reads the entries of a block mapping. -/
def readEntries (handles : Handles) : Nat → Reader (List (Node × Node))
  | 0 => fail
  | n + 1 => do
    match ← peek with
    | .key => do
      advance
      let key ← readNode handles n .blockEntry
      let value ← readValue handles n .blockEntry
      let entries ← readEntries handles n
      pure ((key, value) :: entries)
    | .blockEnd => do advance; pure []
    | _ => fail

/-- Reads the value behind a key, which is empty where no colon stands. -/
def readValue (handles : Handles) : Nat → Position → Reader Node
  | 0, _ => fail
  | n + 1, position => do
    match ← peek with
    | .value => do
      advance
      readNode handles n position
    | _ => pure .empty

/-- Reads the items of a list in brackets. An item may be a mapping of one entry. -/
def readList (handles : Handles) : Nat → Bool → Reader (List Node)
  | 0, _ => fail
  | n + 1, first => do
    match ← peek with
    | .listClose => do advance; pure []
    | _ => do
      separator first
      match ← peek with
      | .listClose => do advance; pure []
      | .key => do
        advance
        let key ← readNode handles n .pairKey
        let value ← readValue handles n .pairValue
        let items ← readList handles n false
        pure (.mapping .mapping [(key, value)] :: items)
      | _ => do
        let item ← readNode handles n .listItem
        let items ← readList handles n false
        pure (item :: items)

/-- Reads the entries of a map in braces. A node without a colon is a key without a value. -/
def readMap (handles : Handles) : Nat → Bool → Reader (List (Node × Node))
  | 0, _ => fail
  | n + 1, first => do
    match ← peek with
    | .mapClose => do advance; pure []
    | _ => do
      separator first
      match ← peek with
      | .mapClose => do advance; pure []
      | .key => do
        advance
        let key ← readNode handles n .mapKey
        let value ← readValue handles n .mapValue
        let entries ← readMap handles n false
        pure ((key, value) :: entries)
      | _ => do
        let key ← readNode handles n .mapWord
        let entries ← readMap handles n false
        pure ((key, .empty) :: entries)

end

/-- Reads the directives before a document: at most one version, which must be 1, and handles that
differ. -/
def readDirectives : Nat → Bool → Handles → Reader Handles
  | 0, _, _ => fail
  | n + 1, versioned, handles => do
    match ← peek with
    | .directive (.version major) => do
      if versioned ∨ major ≠ 1 then fail
      advance
      readDirectives n true handles
    | .directive (.tagHandle handle replacement) => do
      if (handles.lookup handle).isSome then fail
      advance
      readDirectives n versioned ((handle, replacement) :: handles)
    | .directive .other => do advance; readDirectives n versioned handles
    | _ => pure (handles ++ .default)

/-- Leaves the marks at the end of a document behind. -/
def skipDocumentEnds : Nat → Reader Unit
  | 0 => pure ()
  | n + 1 => do
    match ← peek with
    | .documentEnd => do advance; skipDocumentEnds n
    | _ => pure ()

/-- Reads a document up to its end; a text without a document has none. -/
def readDocument (n : Nat) : Reader (Option Node) := do
  match ← peek with
  | .streamEnd => pure none
  | .directive _ | .documentStart => do
    let handles ← readDirectives n false []
    match ← peek with
    | .documentStart => do
      advance
      let node ← readNode handles n .document
      pure (some node)
    | _ => fail
  | _ => do
    let node ← readNode .default n .bare
    pure (some node)

/-- Reads the end of the text behind its document. -/
def readEnd (n : Nat) : Reader Unit := do
  skipDocumentEnds n
  match ← peek with
  | .streamEnd => pure ()
  | _ => do
    let _ ← readDirectives n false []
    fail

/-- The one document that tokens hold, if they hold one. -/
def Node.ofTokens? (tokens : List Token) : Except Fault (Option Node) := do
  let bound := 4 * tokens.length + 4
  let reader : Reader (Option Node) := do
    match ← readDocument bound with
    | none => pure none
    | some node => do readEnd bound; pure (some node)
  let (node, _) ← reader.run { tokens := tokens }
  pure node

end Rulebook.Yaml
