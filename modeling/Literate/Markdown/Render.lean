import Literate.Markdown.Document
import Literate.Markdown.Inline
import Literate.Html.Entity

/-! Markdown as HTML. HTML in the source is passed through. -/

namespace Literate.Markdown

def escapeByte (b : UInt8) : Text :=
  match b.toNat with
  | 34 => "&quot;"
  | 38 => "&amp;"
  | 60 => "&lt;"
  | 62 => "&gt;"
  | _ => [b]

/-- Text as it stands. -/
def escape (t : Text) : Text := t.flatMap escapeByte

/-- HTML that is passed through: only NUL is replaced. -/
def withoutNul (t : Text) : Text :=
  t.flatMap fun b => if b = 0 then Text.utf8 Text.replacement else [b]

/-- The character with a number, or the replacement character where there is none. -/
def characterNumbered (n : Nat) : Char :=
  if n = 0 then Text.replacement
  else
    let c := Char.ofNat n
    if c.toNat = n then c else Text.replacement

def decimalNumber (t : Text) : Nat := (Text.toNat? t).getD 0

/-- The characters of a named reference. Markdown knows the names of HTML but for one. -/
def entity? (name : Text) : Option Text := if name = "Abreve" then none else Html.entity? name

/-- The character of a numeric reference and what follows it, after the ampersand. -/
def numericReference? (t : Text) : Option (Text × Text) :=
  let numbered (digits rest : Text) (limit n : Nat) : Option (Text × Text) :=
    match rest with
    | 59 :: after =>
      if digits != [] && digits.length ≤ limit then some (Text.utf8 (characterNumbered n), after)
      else none
    | _ => none
  match t with
  | 35 :: x :: rest =>
    if x = 120 ∨ x = 88 then
      let digits := rest.takeWhile Text.isHexByte
      numbered digits (rest.drop digits.length) 6 (Html.hexNumber digits)
    else
      let digits := (x :: rest).takeWhile Text.isDigitByte
      numbered digits ((x :: rest).drop digits.length) 7 (decimalNumber digits)
  | _ => none

/-- The characters of a named reference and what follows it, after the ampersand. -/
def namedReference? (t : Text) : Option (Text × Text) :=
  let name := t.takeWhile fun b => Text.isLetterByte b || Text.isDigitByte b
  match t.drop name.length with
  | 59 :: after => (entity? name).map fun chars => (chars, after)
  | _ => none

/-- Text with its escapes and references resolved. -/
def resolve : Nat → Text → Text
  | 0, t => t
  | _, [] => []
  | fuel + 1, b :: rest =>
    if b = 92 then
      match rest with
      | c :: tail => if isPunct c then c :: resolve fuel tail else b :: resolve fuel rest
      | [] => [b]
    else if b = 38 then
      match (numericReference? rest).or (namedReference? rest) with
      | some (chars, tail) => chars ++ resolve fuel tail
      | none => b :: resolve fuel rest
    else if b = 0 then Text.utf8 Text.replacement ++ resolve fuel rest
    else b :: resolve fuel rest

def resolved (t : Text) : Text := resolve t.length t

def written (t : Text) : Text := escape (resolved t)

/-- Text without the backslashes that escape punctuation. -/
def unescaped : Text → Text
  | b :: c :: rest =>
    if b = 92 ∧ isPunct c then c :: unescaped rest else b :: unescaped (c :: rest)
  | t => t

/-- Text with one kind of reference resolved. -/
def dereference (reference? : Text → Option (Text × Text)) : Nat → Text → Text
  | 0, t => t
  | _, [] => []
  | fuel + 1, b :: rest =>
    match if b = 38 then reference? rest else none with
    | some (chars, tail) => chars ++ dereference reference? fuel tail
    | none => b :: dereference reference? fuel rest

/-- A destination as it is meant: escapes, numeric and named references are resolved one after the
other. -/
def resolvedDestination (t : Text) : Text :=
  let t := unescaped t
  let t := dereference numericReference? t.length t
  dereference namedReference? t.length t

/-- Bytes that stay as they are in an address. -/
def isAddressByte (b : UInt8) : Bool :=
  Text.isLetterByte b || Text.isDigitByte b || ("!#$&'()*+,-./:;=?@_~" : Text).elem b

def percentByte (b : UInt8) : Text :=
  [37, Text.hexUpperDigit (b.toNat / 16), Text.hexUpperDigit (b.toNat % 16)]

/-- A byte of a character outside the address alphabet. -/
def queryByte (b : UInt8) : Text :=
  if Text.isLetterByte b || Text.isDigitByte b || ("-_.~" : Text).elem b then [b]
  else if b = 32 then [43]
  else percentByte b

/-- How many bytes the character takes that begins with a byte; none if no character does. -/
def sequenceLength (b : UInt8) : Option Nat :=
  if b < 0x80 then some 1
  else if b < 0xC0 then none
  else if b < 0xE0 then some 2
  else if b < 0xF0 then some 3
  else if b < 0xF8 then some 4
  else if b < 0xFC then some 5
  else if b < 0xFE then some 6
  else some 0

/-- An address with all other bytes written as percent escapes. A percent sign before a hexadecimal
digit and another byte keeps both as they are; a character that is cut off is dropped. -/
def addressFrom : Nat → Text → Text
  | 0, t => t
  | _, [] => []
  | fuel + 1, b :: rest =>
    let escape : Bool := match rest with
      | h :: _ :: _ => b == 37 && Text.isHexByte h
      | _ => false
    if escape then b :: rest.take 2 ++ addressFrom fuel (rest.drop 2)
    else if isAddressByte b then b :: addressFrom fuel rest
    else if b = 32 then "%20" ++ addressFrom fuel rest
    else match sequenceLength b with
      | none => b :: addressFrom fuel rest
      | some n =>
        if n = 0 || n > rest.length + 1 then addressFrom fuel rest
        else (b :: rest.take (n - 1)).flatMap queryByte ++ addressFrom fuel (rest.drop (n - 1))

def address (t : Text) : Text := escape (addressFrom t.length t)

def titleAttribute : Option Text → Text
  | none => []
  | some title => " title=\"" ++ written title ++ "\""

/-- Code in which line ends are spaces. -/
def inlineCode (raw : Text) : Text := escape (raw.map fun b => if b = 10 then 32 else b)

def breakText : Break → Text
  | .none => []
  | .soft => "\n"
  | .hard => "<br>\n"

mutual

/-- The texts of inlines without their tags. -/
def plainAll : List Inline → Text
  | [] => []
  | i :: rest => plain i ++ plainAll rest

def plain : Inline → Text
  | .text raw ending => written raw ++ breakText ending
  | .code raw => escape raw
  | .emphasis _ children => plainAll children
  | .link _ children => plainAll children
  | .image _ children => plainAll children
  | .autolink _ _ => []
  | .html _ => []

end

mutual

def inlineAll : List Inline → Text
  | [] => []
  | i :: rest => inline i ++ inlineAll rest

def inline : Inline → Text
  | .text raw ending => written raw ++ breakText ending
  | .code raw => "<code>" ++ inlineCode raw ++ "</code>"
  | .emphasis true children => "<strong>" ++ inlineAll children ++ "</strong>"
  | .emphasis false children => "<em>" ++ inlineAll children ++ "</em>"
  | .link target children =>
    "<a href=\"" ++ address (resolvedDestination target.destination) ++ "\"" ++
      titleAttribute target.title ++ ">" ++ inlineAll children ++ "</a>"
  | .image target children =>
    "<img src=\"" ++ address (resolvedDestination target.destination) ++ "\" alt=\"" ++
      plainAll children ++ "\"" ++ titleAttribute target.title ++ ">"
  | .autolink email target =>
    "<a href=\"" ++ (if email then "mailto:" else "") ++ address target ++ "\">" ++
      escape target ++ "</a>"
  | .html raw => raw

end

mutual

/-- The text of inlines as it stands in the source, line ends as spaces. -/
def sourceTextAll : List Inline → Text
  | [] => []
  | i :: rest => sourceText i ++ sourceTextAll rest

def sourceText : Inline → Text
  | .text raw .none => raw
  | .text raw _ => raw ++ " "
  | .code raw => Text.trim raw
  | .emphasis _ children => Text.trim (sourceTextAll children)
  | .link _ children => Text.trim (sourceTextAll children)
  | .image _ children => Text.trim (sourceTextAll children)
  | .autolink _ _ => []
  | .html _ => []

end

/-- The language of a code block: the first word of its info. -/
def languageAttribute (info : Text) : Text :=
  if info = [] then []
  else " class=\"language-" ++ written (info.takeWhile fun b => b != 32) ++ "\""

def listTag : Option Nat → Text × Text
  | none => ("<ul>\n", "</ul>\n")
  | some n =>
    (if n = 1 then "<ol>\n" else "<ol start=\"" ++ Text.ofNat n ++ "\">\n", "</ol>\n")

def Block.isTextBlock : Block → Bool
  | .textBlock _ => true
  | _ => false

def headingTag (level : Nat) : Text := "h" ++ Text.ofNat level

mutual

def blockAll (defs : Definitions) : List Block → Text
  | [] => []
  | b :: rest =>
    let parted : Text := match b with
      | .textBlock lines => if rest.isEmpty || (inlines defs lines).isEmpty then "" else "\n"
      | _ => ""
    block defs b ++ parted ++ blockAll defs rest

def block (defs : Definitions) : Block → Text
  | .heading level lines =>
    "<" ++ headingTag level ++ ">" ++ inlineAll (inlines defs lines) ++
      "</" ++ headingTag level ++ ">\n"
  | .paragraph lines => "<p>" ++ inlineAll (inlines defs lines) ++ "</p>\n"
  | .textBlock lines => inlineAll (inlines defs lines)
  | .quote children => "<blockquote>\n" ++ blockAll defs children ++ "</blockquote>\n"
  | .list start items => (listTag start).1 ++ blockAll defs items ++ (listTag start).2
  | .item children =>
    let opening : Text := match children with
      | [] => "<li>"
      | first :: _ => if first.isTextBlock then "<li>" else "<li>\n"
    opening ++ blockAll defs children ++ "</li>\n"
  | .code info raw =>
    "<pre><code" ++ languageAttribute info ++ ">" ++ escape raw ++ "</code></pre>\n"
  | .html raw => withoutNul raw
  | .rule => "<hr>\n"

end

end Literate.Markdown
