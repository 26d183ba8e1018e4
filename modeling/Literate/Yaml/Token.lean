import Literate.Yaml.Scalar

/-! The tokens of a YAML document. Indentation becomes tokens of its own: a collection of indented
lines has a token where it begins and one where it ends. A key is known only by the colon after
it, so its token is put in where the key began. -/

namespace Literate.Yaml

inductive Token where
  | documentStart
  | documentEnd
  /-- The version of the language, and whether it is the one that can be read. -/
  | version (known : Bool)
  /-- A handle for tags with what it stands for. -/
  | tagHandle (handle stem : List Char)
  | sequenceStart
  | mappingStart
  | blockEnd
  | flowSequenceStart
  | flowSequenceEnd
  | flowMappingStart
  | flowMappingEnd
  | entry
  | flowEntry
  | key
  | value
  | alias (name : List Char)
  | anchor (name : List Char)
  /-- A tag, after a handle or by itself. -/
  | tag (handle suffix : List Char)
  | scalar (text : List Char) (plain : Bool)
  | streamEnd
deriving DecidableEq, Repr

/-- A place where a key may have begun: the number of tokens before it, and its position. -/
structure Candidate where
  tokens : Nat
  /-- Nothing but a key can stand there. -/
  required : Bool
  line : Nat
  column : Nat
  index : Nat
deriving Repr

structure Scanner where
  cursor : Cursor
  tokens : List Token := []
  /-- The column of the innermost collection of lines, -1 at the top. -/
  indent : Int := -1
  outer : List Int := []
  /-- A key may begin here. -/
  keyAllowed : Bool := true
  /-- The candidate of each level of brackets, the innermost first. -/
  candidates : List (Option Candidate) := [none]
deriving Repr

namespace Scanner

def flow (s : Scanner) : Bool := s.candidates.length > 1

def emit (t : Token) (s : Scanner) : Scanner := { s with tokens := s.tokens ++ [t] }

def insertAt (n : Nat) (t : Token) (s : Scanner) : Scanner :=
  { s with tokens := s.tokens.take n ++ [t] ++ s.tokens.drop n }

def skip (n : Nat) (s : Scanner) : Scanner := { s with cursor := s.cursor.skip n }

def allowKey (b : Bool) (s : Scanner) : Scanner := { s with keyAllowed := b }

def candidate (s : Scanner) : Option Candidate := s.candidates.head?.join

def setCandidate (k : Option Candidate) (s : Scanner) : Scanner :=
  { s with candidates := k :: s.candidates.drop 1 }

/-- Gives up the candidate, which must not be a required one. -/
def dropCandidate (s : Scanner) : Option Scanner :=
  if s.candidate.any Candidate.required then none else some (s.setCandidate none)

/-- Notes that a key may begin here. -/
def noteKey (s : Scanner) : Option Scanner :=
  if !s.keyAllowed then some s
  else s.dropCandidate.map fun dropped =>
    dropped.setCandidate (some ⟨s.tokens.length, !s.flow && s.indent == (s.cursor.column : Int),
      s.cursor.line, s.cursor.column, s.cursor.index⟩)

/-- Begins a collection at a column unless one is open there; its token goes before the token
with the given number. -/
def openAt (column : Nat) (place : Nat) (t : Token) (s : Scanner) : Scanner :=
  if s.flow || s.indent ≥ column then s
  else { s.insertAt place t with indent := column, outer := s.indent :: s.outer }

/-- Ends the collections to the right of a column. -/
def closeTo (column : Int) : Nat → Scanner → Scanner
  | 0, s => s
  | n + 1, s =>
    if s.flow || s.indent ≤ column then s
    else closeTo column n
      { s.emit .blockEnd with indent := s.outer.headD (-1), outer := s.outer.drop 1 }

def close (column : Int) (s : Scanner) : Scanner := s.closeTo column (s.outer.length + 1)

/-- The candidate while it can still be a key: on the same line and not too far back. A required
one that cannot is an error. -/
def liveCandidate (s : Scanner) : Option (Option Candidate) :=
  match s.candidate with
  | none => some none
  | some k =>
    if k.line < s.cursor.line ∨ k.index + 1024 < s.cursor.index then
      if k.required then none else some none
    else some (some k)

/-- Passes over blanks, comments and line breaks up to a token. Tabs may not indent, unless it is a
comment after another that they stand before. -/
def toToken : Nat → Scanner → Scanner
  | 0, s => s
  | n + 1, s =>
    let tabs := s.flow || !s.keyAllowed
    let c := s.cursor
    let c := if c.column = 0 && c.rest.head?.any (fun x => x.toNat == 0xFEFF) then c.skip 1 else c
    let c := c.skipWhile fun x => x == ' ' || tabs && x == '\t'
    let c := if c.sees '#' then skipComments c.rest.length c else c
    if c.seesBreak then
      toToken n { s with cursor := c.readBreak.2, keyAllowed := s.keyAllowed || !s.flow }
    else { s with cursor := c }

def openFlow (t : Token) (s : Scanner) : Option Scanner :=
  s.noteKey.map fun s =>
    (({ s with candidates := none :: s.candidates }.allowKey true).skip 1).emit t

def closeFlow (t : Token) (s : Scanner) : Option Scanner :=
  s.dropCandidate.map fun s =>
    let s := if s.flow then { s with candidates := s.candidates.drop 1 } else s
    ((s.allowKey false).skip 1).emit t

def flowEntry (s : Scanner) : Option Scanner :=
  s.dropCandidate.map fun s => ((s.allowKey true).skip 1).emit .flowEntry

def blockEntry (s : Scanner) : Option Scanner :=
  if !s.flow && !s.keyAllowed then none
  else (s.openAt s.cursor.column s.tokens.length .sequenceStart).dropCandidate.map fun s =>
    ((s.allowKey true).skip 1).emit .entry

def explicitKey (s : Scanner) : Option Scanner :=
  if !s.flow && !s.keyAllowed then none
  else (s.openAt s.cursor.column s.tokens.length .mappingStart).dropCandidate.map fun s =>
    ((s.allowKey !s.flow).skip 1).emit .key

def valueMark (s : Scanner) : Option Scanner :=
  match s.liveCandidate with
  | none => none
  | some (some k) =>
    let s := (s.insertAt k.tokens .key).openAt k.column k.tokens .mappingStart
    some ((((s.setCandidate none).allowKey false).skip 1).emit .value)
  | some none =>
    if !s.flow && !s.keyAllowed then none
    else
      let s := (s.setCandidate none).openAt s.cursor.column s.tokens.length .mappingStart
      some (((s.allowKey !s.flow).skip 1).emit .value)

def isNameChar (x : Char) : Bool := x.isAlphanum || x == '_' || x == '-'

/-- A name after `&` or `*`. -/
def name (make : List Char → Token) (s : Scanner) : Option Scanner :=
  let letters := (s.cursor.rest.drop 1).takeWhile isNameChar
  let after := s.cursor.rest.drop (1 + letters.length)
  let ends := atGap after || after.head?.any fun x => x ∈ "?:,]\x7d%@`".toList
  if letters == [] || !ends then none
  else s.noteKey.map fun s => ((s.allowKey false).skip (1 + letters.length)).emit (make letters)

def isTagChar (x : Char) : Bool := isNameChar x || x ∈ ";/?:@&=+$,.!~*'()[]%".toList

/-- Each percent sign stands before two digits. -/
def hasWholeCodes : List Char → Bool
  | [] => true
  | x :: rest => (x != '%' || (rest.take 2).length == 2 && (rest.take 2).all isHexChar) &&
    hasWholeCodes rest

/-- The characters of a tag. -/
def tagText? (cs : List Char) : Option (List Char) :=
  let text := cs.takeWhile isTagChar
  if hasWholeCodes text then some text else none

/-- A handle: a mark, and a name with another mark after it. -/
def tagHandle (cs : List Char) : List Char :=
  let name := (cs.drop 1).takeWhile isNameChar
  let after := cs.drop (1 + name.length)
  cs.take 1 ++ if after.head? == some '!' then name ++ ['!'] else []

/-- A tag with the number of characters it takes: in angle brackets, after a handle, or after the
mark alone. -/
def tag? (cs : List Char) : Option (Token × Nat) :=
  match cs with
  | '!' :: '<' :: rest =>
    match tagText? rest with
    | none => none
    | some text =>
      if text ≠ [] ∧ (rest.drop text.length).head? = some '>' then
        some (.tag [] text, text.length + 3)
      else none
  | _ =>
    let handle := tagHandle cs
    match tagText? (cs.drop handle.length) with
    | none => none
    | some suffix =>
      if handle.length > 1 then
        if suffix = [] then none else some (.tag handle suffix, handle.length + suffix.length)
      else some (if suffix = [] then .tag [] handle else .tag handle suffix, 1 + suffix.length)

def tag (s : Scanner) : Option Scanner :=
  match tag? s.cursor.rest with
  | none => none
  | some (t, length) =>
    if atGap (s.cursor.rest.drop length) then
      s.noteKey.map fun s => ((s.allowKey false).skip length).emit t
    else none

def blockScalar (literal : Bool) (s : Scanner) : Option Scanner :=
  match s.dropCandidate, block? literal s.indent s.cursor with
  | some s, some (text, c) => some ({ s.allowKey true with cursor := c }.emit (.scalar text false))
  | _, _ => none

def quotedScalar (single : Bool) (s : Scanner) : Option Scanner :=
  match s.noteKey, quoted? single s.cursor with
  | some s, some (text, c) => some ({ s.allowKey false with cursor := c }.emit (.scalar text false))
  | _, _ => none

def plainScalar (s : Scanner) : Option Scanner :=
  match s.noteKey, plain? s.flow (s.indent + 1).toNat s.cursor with
  | some s, some (text, broken, c) =>
    some ({ s.allowKey broken with cursor := c }.emit (.scalar text true))
  | _, _ => none

def marker (t : Token) (s : Scanner) : Option Scanner :=
  (s.close (-1)).dropCandidate.map fun s => ((s.allowKey false).skip 3).emit t

/-- A version: two numbers with a point between them, and the rest of the line. -/
def version? (cs : List Char) : Option (Token × List Char) :=
  let major := cs.takeWhile Char.isDigit
  match cs.drop major.length with
  | '.' :: rest =>
    let minor := rest.takeWhile Char.isDigit
    let isShort (digits : List Char) : Bool := digits ≠ [] && digits.length ≤ 2
    let isOne (digits : List Char) : Bool := digits == ['1'] || digits == ['0', '1']
    if isShort major && isShort minor then
      some (.version (isOne major && isOne minor), rest.drop minor.length)
    else none
  | _ => none

/-- A handle for tags and what it stands for, and the rest of the line. -/
def handle? (cs : List Char) : Option (Token × List Char) :=
  let handle := tagHandle cs
  let rest := cs.drop handle.length
  let gap := rest.takeWhile isSpace
  match tagText? (rest.drop gap.length) with
  | none => none
  | some stem =>
    if handle.head? = some '!' ∧ gap ≠ [] ∧ stem ≠ [] then
      some (.tagHandle handle stem, rest.drop (gap.length + stem.length))
    else none

/-- A line that begins with a percent sign. Two kinds of them are known. -/
def directive? (line : List Char) : Option Token :=
  let name := (line.drop 1).takeWhile isNameChar
  let after := line.drop (1 + name.length)
  let found :=
    if !atGap after then none
    else if name == "YAML".toList then version? (after.dropWhile isSpace)
    else if name == "TAG".toList then handle? (after.dropWhile isSpace)
    else none
  match found with
  | none => none
  | some (t, rest) =>
    match rest.dropWhile isSpace with
    | [] => some t
    | x :: _ => if x == '#' then some t else none

def directive (s : Scanner) : Option Scanner :=
  let line := s.cursor.rest.takeWhile fun x => !isBreak x
  match directive? line with
  | none => none
  | some t =>
    (s.close (-1)).dropCandidate.map fun s => ((s.allowKey false).skip line.length).emit t

def isIndicator (x : Char) : Bool := x ∈ "-?:,[]\x7b\x7d#&*!|>'\"%@`".toList

/-- Passes over a comment on the line on which the last token ends. After the mark of an item, and
after a line break, a comment belongs to what follows. -/
def lineComment (s : Scanner) : Scanner :=
  let after := s.cursor.skipWhile isSpace
  let isOwn : Bool := match s.tokens.getLast? with
    | some .entry => true
    | some (.scalar _ _) => s.keyAllowed
    | _ => false
  if isOwn || !after.sees '#' then s
  else { s with cursor := after.skipWhile fun x => !isBreak x }

/-- Takes the token of the content that the next character begins. -/
def content (s : Scanner) (x : Char) : Option Scanner :=
  let gap := s.cursor.gapAfter
  if x == '[' then s.openFlow .flowSequenceStart
  else if x == '\x7b' then s.openFlow .flowMappingStart
  else if x == ']' then s.closeFlow .flowSequenceEnd
  else if x == '\x7d' then s.closeFlow .flowMappingEnd
  else if x == ',' then s.flowEntry
  else if x == '-' && gap then s.blockEntry
  else if x == '?' && (s.flow || gap) then s.explicitKey
  else if x == ':' && (s.flow || gap) then s.valueMark
  else if x == '*' then s.name .alias
  else if x == '&' then s.name .anchor
  else if x == '!' then s.tag
  else if x == '|' && !s.flow then s.blockScalar true
  else if x == '>' && !s.flow then s.blockScalar false
  else if x == '\'' then s.quotedScalar true
  else if x == '"' then s.quotedScalar false
  else if !(isGap x || isIndicator x) || x == '-' || !s.flow && (x == '?' || x == ':') then
    s.plainScalar
  else none

/-- Takes the token that the next character begins. -/
def take (s : Scanner) (x : Char) : Option Scanner :=
  if s.cursor.column = 0 && x == '%' then s.directive
  else if s.cursor.atMarker '-' then s.marker .documentStart
  else if s.cursor.atMarker '.' then s.marker .documentEnd
  else (s.content x).map lineComment

/-- Takes one more token, with those that end collections before it. After the end of the text
there is always one more end. -/
def fetch (s : Scanner) : Option Scanner :=
  let s := s.toToken (s.cursor.rest.length + 1)
  let s := s.close s.cursor.column
  match s.cursor.peek with
  | none => (s.close (-1)).dropCandidate.map fun s => s.emit .streamEnd
  | some x => s.take x

/-- Scans as far as the text is well formed. -/
def run : Nat → Scanner → Scanner
  | 0, s => s
  | n + 1, s =>
    if s.tokens.getLast? = some .streamEnd then s
    else match s.fetch with
      | none => s
      | some next => run n next

/-- The token with the given number can no longer become a key; `none` if it has to be one. -/
def isSettled (n : Nat) (s : Scanner) : Option Bool :=
  match s.candidates.findSome? fun c => c.filter fun k => k.tokens == n with
  | none => some true
  | some k =>
    if k.line < s.cursor.line ∨ k.index + 1024 < s.cursor.index then
      if k.required then none else some true
    else some false

/-- The text is well formed as far as a reader looks who is at the token with the given number:
two more tokens are taken, and more if the token may still become a key. -/
def reaches (n : Nat) : Nat → Scanner → Bool
  | 0, _ => false
  | fuel + 1, s =>
    match if n + 3 ≤ s.tokens.length then s.isSettled n else some false with
    | none => false
    | some true => true
    | some false =>
      match s.fetch with
      | none => false
      | some next => reaches n fuel next

end Scanner

def scanner (cs : List Char) : Scanner := { cursor := ⟨cs, 0, 0, 0⟩ }

/-- The tokens of a text, as far as it is well formed. -/
def scan (cs : List Char) : List Token := ((scanner cs).run (cs.length + 1)).tokens

end Literate.Yaml
