import Lifeline.Yaml.Token

/-!
# The nodes of a YAML document

A document as texts, lists and maps (`Yaml.Node.ofTokens?`), where each alias has become the node
that it names. The types of texts are not decided yet.
-/

namespace Lifeline.Yaml

/-- A node of a document. -/
inductive Node where
  | scalar (tag : Option Tag) (plain : Bool) (text : String)
  | list (tag : Option Tag) (items : List Node)
  | map (tag : Option Tag) (entries : List (Node × Node))
deriving Repr, Inhabited

namespace Node

/-- What stands where nothing is written. -/
def empty : Node := .scalar none true ""

/-- The tokens that are left, and the nodes that have names. -/
structure Reading where
  tokens : List Token
  anchors : List (String × Node) := []

/-- A step of reading nodes. -/
abbrev Reader := StateT Reading Option

/-- Whether the next token is one of those that `p` picks, or there is none. -/
def next (p : Token → Bool) : Reader Bool := do return (← get).tokens.head?.all p

/-- Whether a token comes next. -/
def nextIs (t : Token) : Reader Bool := do return (← get).tokens.head? == some t

/-- The next token is passed over. -/
def pass : Reader Unit := modify fun r => { r with tokens := r.tokens.tail }

/-- The given token is passed over, where it comes next. -/
def passIf (t : Token) : Reader Bool := do
  if ← nextIs t then
    pass
    return true
  else return false

/-- The given token must come next. -/
def expect (t : Token) : Reader Unit := do
  if !(← passIf t) then failure

/-- The name and the tag that come next, in either order. -/
def properties : Reader (Option String × Option Tag) := do
  match (← get).tokens with
  | .anchor name :: .tag t :: _ => pass; pass; return (some name, some t)
  | .tag t :: .anchor name :: _ => pass; pass; return (some name, some t)
  | .anchor name :: _ => pass; return (some name, none)
  | .tag t :: _ => pass; return (none, some t)
  | _ => return (none, none)

/-- A node gets its name. A name is given once. -/
def name (anchor : Option String) (n : Node) : Reader Node := do
  match anchor with
  | none => return n
  | some a =>
    if ((← get).anchors.lookup a).isSome then failure
    else
      modify fun r => { r with anchors := (a, n) :: r.anchors }
      return n

/-- Tokens before which a key or a value in a block is empty. -/
def endsBlockEntry (t : Token) : Bool := t == .key || t == .value || t == .blockEnd

/-- Tokens before which an item of a block list is empty. -/
def endsItem (t : Token) : Bool := t == .item || t == .blockEnd

/-- Tokens before which a value between brackets is empty. -/
def endsFlowValue (close t : Token) : Bool := t == .comma || t == close

/-- Tokens before which a key between brackets is empty. -/
def endsFlowKey (close t : Token) : Bool := t == .value || endsFlowValue close t

mutual

/-- A node. In a block it may be a block; `asValue` says that it is an entry of a block map, where a
list may begin at the column of the map. `fuel` bounds the number of steps, here and below. -/
def read (inBlock asValue : Bool) : (fuel : Nat) → Reader Node
  | 0 => failure
  | fuel + 1 => do
    match (← get).tokens with
    | .alias a :: _ =>
      pass
      match (← get).anchors.lookup a with
      | some n => return n
      | none => failure
    | _ =>
      let (anchor, tag) ← properties
      match (← get).tokens with
      | .scalar plain text :: _ => pass; name anchor (.scalar tag plain text)
      | .flowListStart :: _ => pass; name anchor (.list tag (← flowItems true fuel))
      | .flowMapStart :: _ => pass; name anchor (.map tag (← flowEntries true fuel))
      | tokens =>
        if asValue && tokens.head? == some .item then
          name anchor (.list tag (← looseItems fuel))
        else if inBlock && tokens.head? == some .blockListStart then
          pass
          name anchor (.list tag (← blockItems fuel))
        else if inBlock && tokens.head? == some .blockMapStart then
          pass
          name anchor (.map tag (← blockEntries fuel))
        else if anchor.isSome || tag.isSome then name anchor (.scalar tag tag.isNone "")
        else failure

/-- The items of a block list, up to its end. -/
def blockItems : (fuel : Nat) → Reader (List Node)
  | 0 => failure
  | fuel + 1 => do
    if ← passIf .item then
      let item ← if ← next endsItem then pure empty else read true false fuel
      return item :: (← blockItems fuel)
    else
      expect .blockEnd
      return []

/-- The items of a list at the column of the map around it. -/
def looseItems : (fuel : Nat) → Reader (List Node)
  | 0 => failure
  | fuel + 1 => do
    if ← passIf .item then
      let isEmpty ← next fun t => t == .item || endsBlockEntry t
      let item ← if isEmpty then pure empty else read true false fuel
      return item :: (← looseItems fuel)
    else return []

/-- A key or a value of a block map after its mark, where the mark is there. -/
def blockPart (mark : Token) : (fuel : Nat) → Reader Node
  | 0 => failure
  | fuel + 1 => do
    if ← passIf mark then
      if ← next endsBlockEntry then return empty else read true true fuel
    else return empty

/-- The entries of a block map, up to its end. -/
def blockEntries : (fuel : Nat) → Reader (List (Node × Node))
  | 0 => failure
  | fuel + 1 => do
    if ← nextIs .key then
      let key ← blockPart .key fuel
      let value ← blockPart .value fuel
      return (key, value) :: (← blockEntries fuel)
    else
      expect .blockEnd
      return []

/-- A value between brackets after its mark, where the mark is there. -/
def flowValue (close : Token) : (fuel : Nat) → Reader Node
  | 0 => failure
  | fuel + 1 => do
    if ← passIf .value then
      if ← next (endsFlowValue close) then return empty else read false false fuel
    else return empty

/-- The items of a list between brackets, up to its end. An entry of a map among them is a map by
itself. -/
def flowItems (first : Bool) : (fuel : Nat) → Reader (List Node)
  | 0 => failure
  | fuel + 1 => do
    if ← passIf .flowListEnd then return []
    else
      if !first then expect .comma
      if ← passIf .flowListEnd then return []
      else if ← passIf .key then
        let bare ← next (endsFlowKey .flowListEnd)
        let key ← if bare then pure empty else read false false fuel
        let value ← flowValue .flowListEnd fuel
        return .map none [(key, value)] :: (← flowItems false fuel)
      else
        let item ← read false false fuel
        return item :: (← flowItems false fuel)

/-- The entries of a map between brackets, up to its end. -/
def flowEntries (first : Bool) : (fuel : Nat) → Reader (List (Node × Node))
  | 0 => failure
  | fuel + 1 => do
    if ← passIf .flowMapEnd then return []
    else
      if !first then expect .comma
      if ← passIf .flowMapEnd then return []
      else if ← passIf .key then
        let key ← if ← next (endsFlowKey .flowMapEnd) then pure empty else read false false fuel
        let value ← flowValue .flowMapEnd fuel
        return (key, value) :: (← flowEntries false fuel)
      else
        let key ← read false false fuel
        return (key, empty) :: (← flowEntries false fuel)

end

/-- The tokens after the directives and the mark that start a document. -/
def startDocument? : List Token → Option (List Token)
  | .directive :: rest => startDocument? rest
  | .documentStart :: rest => some rest
  | _ => none

/-- Whether only marks for the end of a document are left. -/
def isEnd (tokens : List Token) : Bool := tokens.all (· == .documentEnd)

/-- The only node of a document; nothing, where the document is empty. -/
def ofTokens? (tokens : List Token) : Option (Option Node) :=
  match tokens with
  | [] => some none
  | first :: _ => do
    let marked := first == .directive || first == .documentStart
    let tokens ← if marked then startDocument? tokens else some tokens
    let isEmpty := tokens.head?.all fun t =>
      t == .directive || t == .documentStart || t == .documentEnd
    if marked && isEmpty then if isEnd tokens then some (some empty) else none
    else
      let (n, rest) ← (read true false (4 * tokens.length + 4)).run { tokens }
      if isEnd rest.tokens then some (some n) else none

end Node

end Lifeline.Yaml
