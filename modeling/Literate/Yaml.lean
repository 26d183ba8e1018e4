import Literate.Yaml.Encoding
import Literate.Yaml.Token

/-! YAML documents as trees. Only the first document of a text is read. -/

namespace Literate.Yaml

inductive Node where
  | scalar (text : List Char) (tag : Option (List Char)) (plain : Bool)
  | sequence (items : List Node)
  | mapping (entries : List (Node × Node))
  /-- A node that was named before. -/
  | alias (name : List Char) (target : Node)
  /-- A node inside itself. -/
  | endless
deriving Repr

/-- What stands where nothing is written. -/
def Node.empty : Node := .scalar [] none true

/-- The tokens still to be read, the nodes that have a name, and the handles of tags. -/
structure Feed where
  tokens : List Token
  anchors : List (List Char × Node) := []
  handles : List (List Char × List Char) := []

namespace Feed

def drop (f : Feed) : Feed := { f with tokens := f.tokens.drop 1 }

/-- The next token is one of these. -/
def isAt (f : Feed) (ts : List Token) : Bool := f.tokens.head?.any fun t => t ∈ ts

def startsWith (f : Feed) (t : Token) : Bool := f.tokens.head? == some t

end Feed

/-- A tag as it is written before a node. -/
structure WrittenTag where
  handle : List Char
  suffix : List Char
deriving DecidableEq, Repr

/-- The name and the tag that stand before a node, in either order. -/
def properties (f : Feed) : Option (List Char) × Option WrittenTag × Feed :=
  match f.tokens with
  | .anchor a :: .tag h t :: rest => (some a, some ⟨h, t⟩, { f with tokens := rest })
  | .tag h t :: .anchor a :: rest => (some a, some ⟨h, t⟩, { f with tokens := rest })
  | .anchor a :: rest => (some a, none, { f with tokens := rest })
  | .tag h t :: rest => (none, some ⟨h, t⟩, { f with tokens := rest })
  | _ => (none, none, f)

/-- The start of the tags of this language. -/
def stem : List Char := "tag:yaml.org,2002:".toList

/-- A tag of this language is shown with two marks in place of its start. -/
def shortTag (tag : List Char) : List Char :=
  if stem.isPrefixOf tag then "!!".toList ++ tag.drop stem.length else tag

/-- The tag that is meant; its handle has to be known. -/
def WrittenTag.resolve? (handles : List (List Char × List Char)) (t : WrittenTag) :
    Option (List Char) :=
  if t.handle = [] then some (shortTag t.suffix)
  else
    let known := handles ++ [(['!'], ['!']), (['!', '!'], stem)]
    (known.lookup t.handle).map fun start => shortTag (start ++ t.suffix)

/-- A node, or an empty one when one of the tokens `ends` stands in its place. -/
def orEmpty (read : Feed → Option (Node × Feed)) (ends : List Token) (f : Feed) :
    Option (Node × Feed) :=
  if f.isAt ends then some (.empty, f) else read f

/-- The value after a key: a node after its mark, or an empty one. -/
def valueOf (read : Feed → Option (Node × Feed)) (ends : List Token) (f : Feed) :
    Option (Node × Feed) :=
  if f.startsWith .value then orEmpty read ends f.drop else some (.empty, f)

/-- The items of a sequence of lines, each after its mark. -/
def blockItems (read : Feed → Option (Node × Feed)) : Nat → List Node → Feed → Option (Node × Feed)
  | 0, _, _ => none
  | n + 1, items, f =>
    if f.startsWith .entry then
      match orEmpty read [.entry, .blockEnd] f.drop with
      | none => none
      | some (item, f) => blockItems read n (items ++ [item]) f
    else if f.startsWith .blockEnd then some (.sequence items, f.drop)
    else none

/-- The items of a sequence that is not indented more than the mapping it stands in. -/
def levelItems (read : Feed → Option (Node × Feed)) : Nat → List Node → Feed → Option (Node × Feed)
  | 0, _, _ => none
  | n + 1, items, f =>
    if f.startsWith .entry then
      match orEmpty read [.entry, .key, .value, .blockEnd] f.drop with
      | none => none
      | some (item, f) => levelItems read n (items ++ [item]) f
    else some (.sequence items, f)

def blockEntries (read : Feed → Option (Node × Feed)) :
    Nat → List (Node × Node) → Feed → Option (Node × Feed)
  | 0, _, _ => none
  | n + 1, entries, f =>
    let ends : List Token := [.key, .value, .blockEnd]
    if f.startsWith .key then
      match orEmpty read ends f.drop with
      | none => none
      | some (key, f) =>
        match valueOf read ends f with
        | none => none
        | some (value, f) => blockEntries read n (entries ++ [(key, value)]) f
    else if f.startsWith .blockEnd then some (.mapping entries, f.drop)
    else none

/-- An item between brackets; a key makes it a mapping of one entry. What follows an empty key is
passed over. -/
def flowItem (read : Feed → Option (Node × Feed)) (f : Feed) : Option (Node × Feed) :=
  if f.startsWith .key then
    let f := f.drop
    let key := if f.isAt [.value, .flowEntry, .flowSequenceEnd] then some (.empty, f.drop)
      else read f
    match key with
    | none => none
    | some (key, f) =>
      (valueOf read [.flowEntry, .flowSequenceEnd] f).map fun (value, f) =>
        (.mapping [(key, value)], f)
  else read f

def flowItems (read : Feed → Option (Node × Feed)) : Nat → List Node → Feed → Option (Node × Feed)
  | 0, _, _ => none
  | n + 1, items, f =>
    if f.startsWith .flowSequenceEnd then some (.sequence items, f.drop)
    else match flowItem read f with
      | none => none
      | some (item, f) =>
        if f.startsWith .flowEntry then flowItems read n (items ++ [item]) f.drop
        else if f.startsWith .flowSequenceEnd then some (.sequence (items ++ [item]), f.drop)
        else none

/-- An entry between braces; a node without a key mark is a key without a value. -/
def flowPair (read : Feed → Option (Node × Feed)) (f : Feed) : Option ((Node × Node) × Feed) :=
  if f.startsWith .key then
    match orEmpty read [.value, .flowEntry, .flowMappingEnd] f.drop with
    | none => none
    | some (key, f) =>
      (valueOf read [.flowEntry, .flowMappingEnd] f).map fun (value, f) => ((key, value), f)
  else (read f).map fun (key, f) => ((key, .empty), f)

def flowEntries (read : Feed → Option (Node × Feed)) :
    Nat → List (Node × Node) → Feed → Option (Node × Feed)
  | 0, _, _ => none
  | n + 1, entries, f =>
    if f.startsWith .flowMappingEnd then some (.mapping entries, f.drop)
    else match flowPair read f with
      | none => none
      | some (entry, f) =>
        if f.startsWith .flowEntry then flowEntries read n (entries ++ [entry]) f.drop
        else if f.startsWith .flowMappingEnd then some (.mapping (entries ++ [entry]), f.drop)
        else none

/-- Where a node stands: in lines or between brackets, and whether a sequence may begin at the
indentation of the mapping around it. -/
inductive Setting where
  | flow
  | block
  | blockValue
deriving DecidableEq, Repr

/-- Reads a node. The counter bounds the nesting. -/
def node : Nat → Setting → Feed → Option (Node × Feed)
  | 0, _, _ => none
  | depth + 1, setting, f =>
    match f.tokens with
    | .alias name :: _ => (f.anchors.lookup name).map fun n => (.alias name n, f.drop)
    | _ =>
      let (anchor, written, f) := properties f
      let named (n : Node) (f : Feed) : Feed := match anchor with
        | some name => { f with anchors := (name, n) :: f.anchors }
        | none => f
      let f := named .endless f
      let length := f.tokens.length + 1
      let content (tag : Option (List Char)) : Option (Node × Feed) :=
        let bare := if anchor.isSome || tag.isSome then some (.scalar [] tag true, f) else none
        match f.tokens with
        | .scalar text plain :: _ => some (.scalar text tag plain, f.drop)
        | .flowSequenceStart :: _ => flowItems (node depth .flow) length [] f.drop
        | .flowMappingStart :: _ => flowEntries (node depth .flow) length [] f.drop
        | .entry :: _ =>
          if setting = .blockValue then levelItems (node depth .block) length [] f else bare
        | .sequenceStart :: _ =>
          if setting = .flow then bare else blockItems (node depth .block) length [] f.drop
        | .mappingStart :: _ =>
          if setting = .flow then bare else blockEntries (node depth .blockValue) length [] f.drop
        | _ => bare
      let found := match written with
        | none => content none
        | some t =>
          match t.resolve? f.handles with
          | none => none
          | some tag => content (some tag)
      found.map fun (n, f) => (n, named n f)

/-- The directives before a document: at most one version, which must be the known one, and the
handles of tags, each given once. -/
def directives : Bool → Feed → Option Feed
  | versioned, f =>
    match f with
    | ⟨.version known :: rest, anchors, handles⟩ =>
      if versioned || !known then none else directives true ⟨rest, anchors, handles⟩
    | ⟨.tagHandle handle start :: rest, anchors, handles⟩ =>
      if (handles.lookup handle).isSome then none
      else directives versioned ⟨rest, anchors, (handle, start) :: handles⟩
    | f => some f
termination_by _ f => f.tokens.length

/-- What marks the edge of a document. -/
def isEdge : Token → Bool
  | .documentStart | .documentEnd | .version _ | .tagHandle _ _ | .streamEnd => true
  | _ => false

/-- The first document of tokens, with what follows it; there is none when there are only blanks.
One that begins with marks may be empty. -/
def document? (tokens : List Token) : Option (Option Node × Feed) :=
  let content (f : Feed) : Option (Option Node × Feed) :=
    (node f.tokens.length .block f).map fun (n, f) => (some n, f)
  match tokens with
  | .streamEnd :: _ => some (none, { tokens })
  | .version _ :: _ | .tagHandle _ _ :: _ | .documentStart :: _ =>
    match directives false { tokens } with
    | none => none
    | some f =>
      if !f.startsWith .documentStart then none
      else if f.drop.tokens.head?.any isEdge then some (some .empty, f.drop)
      else content f.drop
  | _ => content { tokens }

/-- Characters that a document may hold. -/
def isAllowed (c : Char) : Bool :=
  let n := c.toNat
  n == 9 || n == 10 || n == 13 || (0x20 ≤ n && n ≤ 0x7E) || n == 0x85 || (0xA0 ≤ n && n ≤ 0xFFFD) ||
    0x10000 ≤ n

/-- Reads the first document of a text; `none` if the text is malformed. What follows the document
is looked at only as far as the scanner is ahead of the reader. -/
def parse? (t : Text) : Option (Option Node) :=
  match decode? t with
  | none => none
  | some cs =>
    if !cs.all isAllowed then none
    else
      let tokens := scan cs
      match document? tokens with
      | none => none
      | some (n, f) =>
        let place := tokens.length - f.tokens.length
        if (scanner cs).reaches place (cs.length + tokens.length + 4) then some n else none

end Literate.Yaml
