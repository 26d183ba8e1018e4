import Literate.Html.Reference

/-! Tokens of HTML: tags, text, comments and document types. Some elements have raw content, in
which only their own end tag counts. -/

namespace Literate.Html

structure Tag where
  name : Text
  attributes : List (Text × Text) := []
  /-- A slash stands before the closing bracket. -/
  selfClosing : Bool := false
deriving DecidableEq, Repr

inductive Token where
  | start (tag : Tag)
  | stop (name : Text)
  | text (t : Text)
  | remark
  | doctype (t : Text)
  /-- The end of the document. -/
  | ending
deriving DecidableEq, Repr

def isHtmlSpace (b : UInt8) : Bool := b == 32 || b == 9 || b == 10 || b == 12 || b == 13

def endsTagName (b : UInt8) : Bool := isHtmlSpace b || b == 47 || b == 62

/-- All ways to end a line become one. -/
def unifyLineEnds : Text → Text
  | 13 :: 10 :: rest => 10 :: unifyLineEnds rest
  | 13 :: rest => 10 :: unifyLineEnds rest
  | b :: rest => b :: unifyLineEnds rest
  | [] => []

/-- The replacement character stands for bytes of zero. -/
def replaceZeros (t : Text) : Text := Text.replace [0] (Text.utf8 Text.replacement) t

def withoutZeros (t : Text) : Text := t.filter (· != 0)

/-- The name of an attribute, which may begin with an equals sign. -/
def attributeName (t : Text) : Text × Text :=
  let isPart (b : UInt8) : Bool := !endsTagName b && b != 61
  match t with
  | 61 :: rest => (61 :: rest.takeWhile isPart, rest.dropWhile isPart)
  | _ => (t.takeWhile isPart, t.dropWhile isPart)

/-- The value of an attribute, whether a slash stood in its place, and the rest. -/
def attributeValue (t : Text) : Text × Bool × Text :=
  let quoted (quote : UInt8) (rest : Text) : Text × Bool × Text :=
    (rest.takeWhile (· != quote), false, (rest.dropWhile (· != quote)).drop 1)
  match t.dropWhile isHtmlSpace with
  | 47 :: rest => ([], true, rest)
  | 61 :: rest =>
    match rest.dropWhile isHtmlSpace with
    | 34 :: rest => quoted 34 rest
    | 39 :: rest => quoted 39 rest
    | rest =>
      let isPart (b : UInt8) : Bool := !isHtmlSpace b && b != 62
      (rest.takeWhile isPart, false, rest.dropWhile isPart)
  | rest => ([], false, rest)

/-- The attributes of a tag up to its closing bracket, whether a slash stands before that, and the
rest. A document may end before. Each step takes at least one byte, so the bytes of the first
argument are steps enough if they are those of the text. -/
def attributes? : Text → Bool → Text → Option (List (Text × Text) × Bool × Text)
  | [], _, _ => none
  | _ :: fuel, slash, t =>
    match t with
    | [] => none
    | 62 :: rest => some ([], slash, rest)
    | b :: rest =>
      if isHtmlSpace b then attributes? fuel false rest
      else
        let (name, rest) := attributeName t
        let (value, slash, rest) := attributeValue rest
        (attributes? fuel slash rest).map fun (more, slash, rest) =>
          let value := unescape (unifyLineEnds value)
          (if name = [] then more else (Text.lowerAscii name, value) :: more, slash, rest)

/-- A tag from its name on, and the rest. -/
def tag? (t : Text) : Option (Tag × Text) :=
  let name := t.takeWhile fun b => !endsTagName b
  let rest := t.drop name.length
  (attributes? rest false rest).map fun (attributes, slash, rest) =>
    (⟨Text.lowerAscii name, attributes, slash⟩, rest)

/-- The rest after a comment, from its inside on: a comment ends at two dashes and a bracket, with
or without an exclamation mark between them, and at a bracket if only dashes precede it. -/
def afterComment : Nat → Bool → Text → Text
  | _, _, [] => []
  | dashes, opening, 45 :: rest => afterComment (dashes + 1) opening rest
  | dashes, opening, 62 :: rest =>
    if 2 ≤ dashes || opening then rest else afterComment 0 false rest
  | _, _, [33] => []
  | dashes, _, 33 :: b :: rest =>
    if 2 ≤ dashes then
      if b = 62 then rest
      else if b = 45 then afterComment 1 false rest
      else afterComment 0 false rest
    else afterComment 0 false (b :: rest)
  | _, _, _ :: rest => afterComment 0 false rest
termination_by _ _ t => t.length

def afterBracket (t : Text) : Text := (t.dropWhile (· != 62)).drop 1

/-- Splits text before an end tag of the given name. -/
def beforeEnd (name : Text) : Text → Text × Text
  | [] => ([], [])
  | b :: rest =>
    let here := b :: rest
    if b = 60 ∧ rest.head? = some 47 ∧ Text.lowerAscii ((here.drop 2).take name.length) = name ∧
        (here.drop (name.length + 2)).head?.any endsTagName then ([], here)
    else
      let (text, after) := beforeEnd name rest
      (b :: text, after)

/-- Where the text of a script is: in plain code, in a comment, or in a script within a comment. A
comment ends after two dashes or more. -/
inductive ScriptPlace where
  | code
  | comment (dashes : Nat)
  | nested (dashes : Nat)

/-- The text begins with the name of scripts, as a whole word. -/
def namesScript (t : Text) : Bool :=
  Text.lowerAscii (t.take 6) == Text.ofString "script" && (t.drop 6).head?.any endsTagName

/-- Splits the text of a script before its end tag. -/
def beforeScriptEnd : ScriptPlace → Text → Text × Text
  | _, [] => ([], [])
  | place, b :: rest =>
    let here := b :: rest
    let goOn (place : ScriptPlace) : Text × Text :=
      let (text, after) := beforeScriptEnd place rest
      (b :: text, after)
    let endTag := b == 60 && rest.head? == some 47 && namesScript (rest.drop 1)
    match place with
    | .code =>
      if endTag then ([], here)
      else if ("<!--" : Text).isPrefixOf here then goOn (.comment 0)
      else goOn .code
    | .comment dashes =>
      if endTag then ([], here)
      else if b = 45 then goOn (.comment (dashes + 1))
      else if b = 62 ∧ 2 ≤ dashes then goOn .code
      else if b = 60 ∧ namesScript rest then goOn (.nested 0)
      else if b = 60 ∧ !rest.head?.any (fun c => c == 47 || Text.isLetterByte c) then
        goOn .code
      else goOn (.comment 0)
    | .nested dashes =>
      if endTag then goOn (.comment 0)
      else if b = 45 then goOn (.nested (dashes + 1))
      else if b = 62 ∧ 2 ≤ dashes then goOn .code
      else goOn (.nested 0)

/-- Elements with raw content. -/
def rawNames : List Text :=
  ["iframe", "noembed", "noframes", "noscript", "plaintext", "script", "style", "textarea",
    "title", "xmp"]

/-- Raw content of an element up to its end tag, and the rest. References in it count for a few
elements only. -/
def rawContent (name t : Text) : Text × Text :=
  if name = ("plaintext" : Text) then (replaceZeros (unifyLineEnds t), [])
  else
    let (text, rest) := if name = ("script" : Text) then beforeScriptEnd .code t
      else beforeEnd name t
    let text := replaceZeros (unifyLineEnds text)
    (if name ∈ (["textarea", "title"] : List Text) then unescape text else text, rest)

/-- Markup begins here: a bracket with a letter or one of three marks after it. -/
def startsMarkup : Text → Bool
  | 60 :: b :: _ => Text.isLetterByte b || b == 47 || b == 33 || b == 63
  | _ => false

/-- Splits text before the next markup. -/
def beforeMarkup : Text → Text × Text
  | [] => ([], [])
  | b :: rest =>
    if startsMarkup (b :: rest) then ([], b :: rest)
    else
      let (text, after) := beforeMarkup rest
      (b :: text, after)

/-- The document type, after its mark, or nothing. -/
def doctype? (t : Text) : Option (Token × Text) :=
  if Text.lowerAscii (t.take 7) = ("doctype" : Text) then
    let t := (t.drop 7).dropWhile isHtmlSpace
    some (.doctype (unescape (unifyLineEnds (t.takeWhile (· != 62)))), afterBracket t)
  else none

/-- What is left of a document: its text, and the element whose raw content comes next. -/
structure Source where
  rest : Text
  raw : Option Text := none

namespace Source

/-- The token that markup spells, and the rest. A tag that the document ends in is not there.
Sections of characters are known in foreign content only. -/
def markup (foreign : Bool) (t : Text) : Token × Source :=
  match t with
  | 60 :: 33 :: 45 :: 45 :: rest => (.remark, ⟨afterComment 0 true rest, none⟩)
  | 60 :: 33 :: rest =>
    match doctype? rest, if foreign then Text.after? "[CDATA[" rest else none with
    | some (token, rest), _ => (token, ⟨rest, none⟩)
    | none, some rest =>
      let (text, rest) := (Text.cut? "]]>" rest).getD (rest, [])
      (.text (unescape (replaceZeros (unifyLineEnds text))), ⟨rest, none⟩)
    | none, none => (.remark, ⟨afterBracket rest, none⟩)
  | [60, 47] => (.text t, ⟨[], none⟩)
  | 60 :: 47 :: b :: rest =>
    if Text.isLetterByte b then
      match tag? (b :: rest) with
      | some (tag, rest) => (.stop tag.name, ⟨rest, none⟩)
      | none => (.ending, ⟨[], none⟩)
    else (.remark, ⟨afterBracket (b :: rest), none⟩)
  | 60 :: b :: rest =>
    if Text.isLetterByte b then
      match tag? (b :: rest) with
      | some (tag, rest) =>
        (.start tag, ⟨rest, if tag.name ∈ rawNames then some tag.name else none⟩)
      | none => (.ending, ⟨[], none⟩)
    else (.remark, ⟨afterBracket (b :: rest), none⟩)
  | _ => (.ending, ⟨[], none⟩)

/-- The next token. -/
def next (foreign : Bool) (s : Source) : Token × Source :=
  let (content, rest) := match s.raw with
    | some name => rawContent name s.rest
    | none => ([], s.rest)
  if content ≠ [] then (.text content, ⟨rest, none⟩)
  else
    let (text, after) := beforeMarkup rest
    if text ≠ [] then (.text (unescape (unifyLineEnds text)), ⟨after, none⟩)
    else markup foreign after

end Source

end Literate.Html
