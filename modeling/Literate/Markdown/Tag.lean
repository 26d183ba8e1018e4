import Literate.Markdown.Line
import Literate.Text.Rune

/-! HTML inside Markdown: tags, comments and the blocks of lines that are passed through. -/

namespace Literate.Markdown

/-- A scanner takes the start of a text and gives the rest. -/
abbrev Scanner := Text → Option Text

def isNameByte (b : UInt8) : Bool := Text.isLetterByte b || Text.isDigitByte b || b == 45

def tagName : Scanner
  | b :: rest => if Text.isLetterByte b then some (rest.dropWhile isNameByte) else none
  | [] => none

def literally (word : Text) : Scanner := Text.after? word

/-- The white space between attributes. -/
def isTagSpace (b : UInt8) : Bool := b == 32 || b == 9 || b == 10 || b == 13

def isAttributeStart (b : UInt8) : Bool := Text.isLetterByte b || b == 95 || b == 58

def isAttributeByte (b : UInt8) : Bool :=
  isAttributeStart b || Text.isDigitByte b || b == 46 || b == 45

/-- Bytes that a value without quotes may hold. -/
def isBareValueByte (b : UInt8) : Bool :=
  b > 32 && b != 34 && b != 39 && b != 61 && b != 60 && b != 62 && b != 96

def upTo (stop : UInt8) : Scanner := fun t =>
  match t.dropWhile (· != stop) with
  | _ :: rest => some rest
  | [] => none

def attributeValue : Scanner
  | 34 :: rest => upTo 34 rest
  | 39 :: rest => upTo 39 rest
  | b :: rest => if isBareValueByte b then some (rest.dropWhile isBareValueByte) else none
  | [] => none

/-- A name with its value, if an equals sign follows. -/
def oneAttribute : Scanner
  | b :: rest =>
    if isAttributeStart b then
      let after := rest.dropWhile isAttributeByte
      match after.dropWhile isTagSpace with
      | 61 :: value => attributeValue (value.dropWhile isTagSpace)
      | _ => some after
    else none
  | [] => none

/-- Attributes with white space before each. -/
def attributes : Nat → Text → Text
  | 0, t => t
  | fuel + 1, t =>
    match t with
    | b :: rest =>
      if isTagSpace b then
        match oneAttribute (rest.dropWhile isTagSpace) with
        | some after => attributes fuel after
        | none => t
      else t
    | [] => t

/-- The white space before the end of a tag. A carriage return counts before a newline only. -/
def skipTagEnd : Text → Text
  | [] => []
  | b :: rest =>
    if b = 32 ∨ b = 9 ∨ b = 10 then skipTagEnd rest
    else if b = 13 ∧ rest.head? = some 10 then skipTagEnd rest
    else b :: rest

/-- The end of a tag that may close itself. -/
def tagEnd : Scanner
  | 62 :: tail => some tail
  | 47 :: 62 :: tail => some tail
  | _ => none

/-- Scans only over well-formed characters. -/
def wellFormed (scan : Scanner) : Scanner := fun t =>
  (scan t).bind fun rest =>
    let scanned := t.take (t.length - rest.length)
    if (Text.chars scanned).all (· != Text.replacement) then some rest else none

def openTag : Scanner := fun t =>
  match t with
  | 60 :: rest => (tagName rest).bind fun after => tagEnd (skipTagEnd (attributes t.length after))
  | _ => none

def closingTag : Scanner
  | 60 :: 47 :: rest =>
    match tagName rest with
    | some after =>
      match skipTagEnd after with
      | 62 :: tail => some tail
      | _ => none
    | none => none
  | _ => none

/-- Passes over text up to and including a mark. -/
def through (mark : Text) : Scanner := fun t => (Text.cut? mark t).map Prod.snd

def comment : Scanner := fun t =>
  match literally "<!--" t with
  | none => none
  | some rest =>
    match literally ">" rest, literally "->" rest with
    | some tail, _ => some tail
    | _, some tail => some tail
    | _, _ => through "-->" rest

/-- An instruction may be as short as `<?>`. -/
def instruction : Scanner := fun t =>
  match literally "<?" t with
  | some _ => through "?>" (t.drop 1)
  | none => none

def isCapital (b : UInt8) : Bool := 65 ≤ b && b ≤ 90

def declaration : Scanner := fun t =>
  match literally "<!" t with
  | some (b :: rest) => if isCapital b then through ">" rest else none
  | _ => none

def characterData : Scanner := fun t => (literally "<![CDATA[" t).bind (through "]]>")

/-- Any piece of inline HTML. -/
def inlineHtml : Scanner := fun t =>
  [wellFormed openTag, wellFormed closingTag, comment, instruction, declaration,
    characterData].findSome? fun r => r t

/-- The ways in which a block of HTML begins and ends. -/
inductive HtmlKind where
  /-- Ends with a line that holds the mark. -/
  | verbatim
  | comment
  | instruction
  | declaration
  | characterData
  /-- A tag of a block element; ends before a blank line. -/
  | element
  /-- Any complete tag on a line of its own; ends before a blank line. -/
  | tag
deriving DecidableEq, Repr

def verbatimNames : List Text := ["script", "pre", "style", "textarea"]

/-- The names that make no block as lone tags. -/
def loneTagExceptions : List Text := ["script", "style", "pre"]

def elementNames : List Text := List.map Text.ofString [
  "address", "article", "aside", "base", "basefont", "blockquote", "body", "caption", "center",
  "col", "colgroup", "dd", "details", "dialog", "dir", "div", "dl", "dt", "fieldset",
  "figcaption", "figure", "footer", "form", "frame", "frameset", "h1", "h2", "h3", "h4", "h5",
  "h6", "head", "header", "hr", "html", "iframe", "legend", "li", "link", "main", "menu",
  "menuitem", "nav", "noframes", "ol", "optgroup", "option", "p", "param", "search", "section",
  "summary", "table", "tbody", "td", "tfoot", "th", "thead", "title", "tr", "track", "ul"]

/-- The lower-case name at the start of a text, if it begins with a letter, and what follows it. -/
def leadingName (t : Text) : Text × Text :=
  match tagName t with
  | some after => (Text.lowerAscii (t.take (t.length - after.length)), after)
  | none => ([], t)

/-- What may follow the name in the first line of a block: nothing, a space or the end of the
tag. -/
def endsName (spaced : UInt8 → Bool) (t : Text) : Bool :=
  match dropLineEnd t with
  | [] => true
  | 62 :: _ => true
  | 47 :: 62 :: _ => true
  | b :: _ => spaced b

def startsVerbatim (t : Text) : Bool :=
  match t with
  | 60 :: rest =>
    let (name, after) := leadingName rest
    verbatimNames.contains name && endsName (fun b => isTagSpace b || b == 12) after
  | _ => false

/-- A slash, and the spaces after it, before the name of a closing tag. -/
def afterSlash (t : Text) : Text :=
  match t with
  | 47 :: rest => rest.dropWhile (· == 32)
  | _ => t

def startsElement (t : Text) : Bool :=
  match t with
  | 60 :: rest =>
    let (name, after) := leadingName (afterSlash rest)
    elementNames.contains name && endsName (· == 32) after
  | _ => false

/-- A complete tag with nothing but spaces after it: its name, and whether it is a closing tag
that has attributes all the same. -/
def loneTag? (t : Text) : Option (Text × Bool) :=
  match t with
  | 60 :: rest =>
    let (name, after) := leadingName (afterSlash rest)
    let tail := attributes t.length after
    let closing := match rest with
      | 47 :: b :: _ => b != 32
      | _ => false
    match tagEnd (tail.dropWhile (· == 32)) with
    | some behind =>
      if name != [] && (dropLineEnd behind).all (· == 32) then
        some (name, closing && tail.length < after.length)
      else none
    | none => none
  | _ => none

/-- The kind of HTML block that a line begins. A lone tag that is not the name of a block element
cannot follow an open paragraph. -/
def htmlStart? (afterParagraph : Bool) (line : Text) : Option HtmlKind :=
  let t := line.dropWhile (· == 32)
  if startsVerbatim t then some .verbatim
  else if (literally "<!--" t).isSome then some .comment
  else if (literally "<?" t).isSome then some .instruction
  else if (literally "<![CDATA[" t).isSome then some .characterData
  else match literally "<!" t with
    | some (b :: _) => if isCapital b then some .declaration else none
    | _ =>
      if startsElement t then some .element
      else match loneTag? t with
        | some (name, odd) =>
          if elementNames.contains name then some .element
          else if loneTagExceptions.contains name || afterParagraph || odd then none
          else some .tag
        | none => none

/-- The line ends the block that it belongs to. -/
def htmlEnds (kind : HtmlKind) (t : Text) : Bool :=
  match kind with
  | .verbatim =>
    let low := Text.lowerAscii t
    verbatimNames.any fun name => Text.contains low ("</" ++ name ++ ">")
  | .comment => Text.contains t "-->"
  | .instruction => Text.contains t "?>"
  | .declaration => 62 ∈ t
  | .characterData => Text.contains t "]]>"
  | .element => false
  | .tag => false

/-- The block ends at a blank line. -/
def HtmlKind.endsAtBlank : HtmlKind → Bool
  | .element => true
  | .tag => true
  | _ => false

end Literate.Markdown
