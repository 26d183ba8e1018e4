import Literate.Markdown.Tag
import Literate.Markdown.Reference
import Literate.Text.Class

/-! The inline structure of a paragraph: text, code, emphasis, links, images and HTML. Text is kept
as it stands in the source; escapes and references are resolved when it is written. -/

namespace Literate.Markdown

/-- How a run of text ends: in the line, with the line, or with a break. -/
inductive Break where
  | none
  | soft
  | hard
deriving DecidableEq, Repr

inductive Inline where
  | text (raw : Text) (ending : Break)
  | code (raw : Text)
  | emphasis (strong : Bool) (children : List Inline)
  | link (target : Target) (children : List Inline)
  | image (target : Target) (children : List Inline)
  | autolink (email : Bool) (address : Text)
  | html (raw : Text)
deriving Repr

/-- A run of emphasis marks. -/
structure Delimiter where
  mark : UInt8
  length : Nat
  /-- The length before any of it was used. -/
  full : Nat
  opens : Bool
  closes : Bool
deriving DecidableEq, Repr

/-- What a paragraph is read into before emphasis is settled. -/
inductive Item where
  | node (node : Inline)
  | delimiter (d : Delimiter)
  /-- An opening bracket with the text after it; it is inert inside the text of a link. -/
  | bracket (image inert : Bool) (after : Text)

def Delimiter.text (d : Delimiter) : Text := List.replicate d.length d.mark

def bracketText (image : Bool) : Text := if image then "![" else "["

/-- An item that turned out to have no meaning is the text that it was read from. -/
def Item.inline : Item → Inline
  | .node n => n
  | .delimiter d => .text d.text .none
  | .bracket image _ _ => .text (bracketText image) .none

/-- How many marks of an opener and a closer go together; none where a run that could do both
would make the sum of the lengths a multiple of three. -/
def consumption (opener closer : Delimiter) : Nat :=
  if (opener.closes || closer.opens) && (opener.full + closer.full) % 3 == 0 &&
      closer.full % 3 != 0 then 0
  else if opener.length ≥ 2 && closer.length ≥ 2 then 2 else 1

/-- Looks back for the opener of a closer: the items since it, the opener, the marks used, and the
items before it. -/
def findOpener (closer : Delimiter) : List Item → List Item →
    Option (List Item × Delimiter × Nat × List Item)
  | [], _ => none
  | item :: before, between =>
    match item with
    | .delimiter d =>
      if d.opens && d.mark == closer.mark && consumption d closer > 0 then
        some (between, d, consumption d closer, before)
      else findOpener closer before (item :: between)
    | _ => findOpener closer before (item :: between)

/-- Matches a closer with openers as long as it has marks left. The items before it are the last
first. -/
def settleCloser (closer : Delimiter) (before : List Item) : List Item :=
  if closer.length = 0 then before
  else match findOpener closer before [] with
    | none => .delimiter closer :: before
    | some (between, opener, used, earlier) =>
      let node := Inline.emphasis (used == 2) (between.map Item.inline)
      let left := { opener with length := opener.length - used }
      let earlier := if left.length = 0 then earlier else .delimiter left :: earlier
      settleCloser { closer with length := closer.length - max used 1 } (.node node :: earlier)
termination_by closer.length
decreasing_by simp_wf; omega

/-- Settles the emphasis of items in order. -/
def settle (items : List Item) : List Inline :=
  let step (before : List Item) (item : Item) : List Item :=
    match item with
    | .delimiter d => if d.closes then settleCloser d before else item :: before
    | _ => item :: before
  ((items.foldl step []).reverse).map Item.inline

/-- A stretch of text read so far. Lists of items and bytes hold the last first. -/
structure Scan where
  items : List Item := []
  /-- The text run at the end. -/
  run : Text := []
  /-- The line so far, with the byte before it in the source. -/
  passed : Text
  /-- The bytes before the lines that are to come. -/
  befores : List UInt8 := []
  /-- Nothing has been read. -/
  atStart : Bool := true
  /-- No text has been read since the last line end or piece of markup. -/
  fresh : Bool := true
  /-- The last byte was a backslash that is not escaped itself. -/
  escaped : Bool := false

namespace Scan

def push (s : Scan) (item : Item) : Scan := { s with items := item :: s.items }

/-- Ends the text run. -/
def flush (s : Scan) : Scan :=
  if s.run = [] then s else { s.push (.node (.text s.run.reverse .none)) with run := [] }

/-- Goes over bytes. Where they hold line ends, the bytes before the new lines take their place. -/
def pass (s : Scan) : Text → Scan
  | [] => s
  | b :: rest =>
    if b = 10 then
      let passed := [s.befores.headD 10]
      pass { s with passed, befores := s.befores.tail, atStart := false } rest
    else pass { s with passed := b :: s.passed, atStart := false } rest

/-- Takes bytes as text. -/
def literal (s : Scan) (bytes : Text) : Scan := { s with run := bytes.reverse ++ s.run }.pass bytes

/-- Puts an item in the place of bytes. -/
def put (s : Scan) (item : Item) (bytes : Text) : Scan := (s.flush.push item).pass bytes

def isContinuation (b : UInt8) : Bool := 0x80 ≤ b && b < 0xC0

/-- The character before the place. -/
def lastChar (s : Scan) : Char :=
  let tail := s.passed.takeWhile isContinuation
  match s.passed.drop tail.length with
  | b :: _ => if s.atStart then '\n' else (Text.headRune (b :: tail.reverse)).char
  | [] => '\n'

/-- The end of a line. White space before it is dropped unless a backslash makes a break. -/
def endLine (s : Scan) (ending : Break) (bytes : Text) : Scan :=
  let run := if bytes.head? = some 92 then s.run else s.run.dropWhile isSpace
  { s.push (.node (.text run.reverse ending)) with run := [], fresh := true }.pass bytes

/-- The end of the text. -/
def finish (s : Scan) : List Item :=
  let run := s.run.dropWhile isSpace
  ({ s with run }.flush).items.reverse

end Scan

/-- How the line ends, if `t` is all that is left of it: the bytes that end it, and whether they
make a break. `fresh` tells that no text stands before them. -/
def lineEnd? (fresh afterBackslash : Bool) (t : Text) : Option (Text × Break) :=
  match t with
  | 10 :: _ => some ([10], .soft)
  | 92 :: 10 :: _ => if fresh || !afterBackslash then some ([92, 10], .hard) else none
  | 92 :: 13 :: 10 :: _ => if fresh || !afterBackslash then some ([92, 13, 10], .hard) else none
  | 32 :: 32 :: 10 :: _ => some ([32, 32, 10], .hard)
  | 32 :: 32 :: 13 :: 10 :: _ => some ([32, 32, 13, 10], .hard)
  | _ => none

/-- The text up to a run of exactly `length` backquotes, and what follows the run. -/
def codeEnd? (length : Nat) : Nat → Text → Option (Text × Text)
  | 0, _ => none
  | fuel + 1, t =>
    let before := t.takeWhile (· != 96)
    match t.drop before.length with
    | [] => none
    | rest =>
      let ticks := rest.takeWhile (· == 96)
      let after := rest.drop ticks.length
      if ticks.length = length then some (before, after)
      else (codeEnd? length fuel after).map fun (inner, after) =>
        (before ++ ticks ++ inner, after)

/-- Code without the space on both sides that keeps it apart from its marks. -/
def trimCode (t : Text) : Text :=
  let spaced (b : Option UInt8) : Bool := b == some 32 || b == some 10
  if !isBlank t && spaced t.head? && spaced t.getLast? then (t.drop 1).dropLast else t

def isSchemeByte (b : UInt8) : Bool :=
  Text.isLetterByte b || Text.isDigitByte b || b == 43 || b == 46 || b == 45

/-- An address with a scheme between angle brackets, after the first of them. -/
def addressEnd? (t : Text) : Option (Text × Text) :=
  let scheme := t.takeWhile isSchemeByte
  match t.drop scheme.length with
  | 58 :: rest =>
    let body := rest.takeWhile fun b => b > 32 && b != 60 && b != 62
    match rest.drop body.length with
    | 62 :: after =>
      if 2 ≤ scheme.length && scheme.length ≤ 33 && scheme.head?.any Text.isLetterByte then
        some (scheme ++ [58] ++ body, after)
      else none
    | _ => none
  | _ => none

def isMailByte (b : UInt8) : Bool :=
  Text.isLetterByte b || Text.isDigitByte b || (".!#$%&'*+/=?^_`|~-" : Text).elem b || b == 123 ||
    b == 125

def isHostPart (t : Text) : Bool :=
  let plain (b : Option UInt8) : Bool := b.any fun b => Text.isLetterByte b || Text.isDigitByte b
  t.length ≤ 63 && plain t.head? && plain t.getLast? && t.all isNameByte

/-- A mail address between angle brackets, after the first of them. -/
def mailEnd? (t : Text) : Option (Text × Text) :=
  let user := t.takeWhile isMailByte
  match t.drop user.length with
  | 64 :: rest =>
    let host := rest.takeWhile fun b => isNameByte b || b == 46
    match rest.drop host.length with
    | 62 :: after =>
      if user != [] && (Text.split 46 host).all isHostPart then some (user ++ [64] ++ host, after)
      else none
    | _ => none
  | _ => none

/-- A run of emphasis marks between two characters. -/
def delimiterOf (mark : UInt8) (length : Nat) (before after : Char) : Delimiter :=
  let blankBefore := Text.isBlank before
  let blankAfter := Text.isBlank after
  let punctBefore := Text.isPunctuation before
  let punctAfter := Text.isPunctuation after
  let left := !blankAfter && (!punctAfter || blankBefore || punctBefore)
  let right := !blankBefore && (!punctBefore || blankAfter || punctAfter)
  if mark = 95 then
    ⟨mark, length, length, left && (!right || punctBefore), right && (!left || punctAfter)⟩
  else ⟨mark, length, length, left, right⟩

/-- The target of the brackets that close before `rest`: in parentheses, by a label of its own, or
by the text between the brackets. A label that is not defined leaves no other way. -/
def bracketTarget? (defs : Definitions) (inner rest : Text) : Option (Target × Text) :=
  let shortcut : Option (Target × Text) := (lookUp defs inner).map fun t => (t, rest)
  match rest with
  | 40 :: t => (inlineTarget? t).or shortcut
  | 91 :: t =>
    match label? t with
    | some (label, after) =>
      (lookUp defs (if isBlank label then inner else label)).map fun t => (t, after)
    | none => shortcut
  | _ => shortcut

/-- The items since the last opening bracket, the bracket, and the items before it. -/
def findBracket : List Item → List Item → Option (List Item × (Bool × Bool × Text) × List Item)
  | [], _ => none
  | item :: before, between =>
    match item with
    | .bracket image inert after => some (between, (image, inert, after), before)
    | _ => findBracket before (item :: between)

/-- Links hold no links, so brackets before a link open images only. -/
def makeInert : Item → Item
  | .bracket false _ after => .bracket false true after
  | item => item

/-- The bytes from the first to the last of the opening brackets. -/
def bracketSpan (items : List Item) : Nat :=
  let open_ := items.filterMap fun
    | .bracket image _ after => some (image, after.length)
    | _ => none
  match open_.head?, open_.getLast? with
  | some (_, last), some (image, first) => first + (bracketText image).length - last
  | _, _ => 0

/-- How far apart the brackets may be that are open around a link. -/
def widestSpan : Nat := 998

/-- A closing bracket, with the text after it. -/
def closeBracket (defs : Definitions) (s : Scan) (rest : Text) : Option (Scan × Text) :=
  let s := s.flush
  (findBracket s.items []).map fun (between, (image, inert, after), before) =>
    let inner := after.take (after.length - rest.length - 1)
    let hidden := inert || widestSpan < bracketSpan before
    match if hidden then none else bracketTarget? defs inner rest with
    | none =>
      let items := between.reverse ++ (.node (.text (bracketText image) .none) :: before)
      ({ s with items, escaped := false }.literal "]", rest)
    | some (target, tail) =>
      let children := settle between
      let node := if image then Inline.image target children else Inline.link target children
      let before := if image then before else before.map makeInert
      let used : Text := 93 :: rest.take (rest.length - tail.length)
      ({ s with items := .node node :: before }.pass used, tail)

/-- A less-than sign: an address or HTML. -/
def openAngle (s : Scan) (rest : Text) : Option (Scan × Text) :=
  let consumed (tail : Text) : Text := (60 :: rest).take (rest.length + 1 - tail.length)
  let put (node : Inline) (tail : Text) : Option (Scan × Text) :=
    some (s.put (.node node) (consumed tail), tail)
  match mailEnd? rest, addressEnd? rest, inlineHtml (60 :: rest) with
  | some (address, tail), _, _ => put (.autolink true address) tail
  | _, some (address, tail), _ => put (.autolink false address) tail
  | _, _, some tail => put (.html (consumed tail)) tail
  | _, _, _ => none

/-- Backquotes: code, or the backquotes themselves. -/
def openTicks (s : Scan) (t : Text) : Scan × Text :=
  let ticks := t.takeWhile (· == 96)
  let rest := t.drop ticks.length
  match codeEnd? ticks.length t.length rest with
  | some (raw, tail) =>
    (s.put (.node (.code (trimCode raw))) (t.take (t.length - tail.length)), tail)
  | none => (s.put (.node (.text ticks .none)) ticks, rest)

def openMarks (s : Scan) (mark : UInt8) (t : Text) : Scan × Text :=
  let marks := t.takeWhile (· == mark)
  let rest := t.drop marks.length
  let after := match rest with
    | [] => ' '
    | b :: _ => if Scan.isContinuation b then Char.ofNat mark.toNat else (Text.headRune rest).char
  (s.put (.delimiter (delimiterOf mark marks.length s.lastChar after)) marks, rest)

/-- What a byte begins besides text. -/
def markup? (defs : Definitions) (s : Scan) (b : UInt8) (rest : Text) : Option (Scan × Text) :=
  if b = 96 then some (openTicks s (b :: rest))
  else if b = 60 then openAngle s rest
  else if b = 42 ∨ b = 95 then some (openMarks s b (b :: rest))
  else if b = 33 then
    match rest with
    | 91 :: tail => some (s.put (.bracket true false tail) "![", tail)
    | _ => none
  else if b = 91 then some (s.put (.bracket false false rest) "[", rest)
  else if b = 93 then closeBracket defs s rest
  else none

/-- Reads the next piece of a non-empty text. -/
def scanPiece (defs : Definitions) (s : Scan) (b : UInt8) (rest : Text) : Scan × Text :=
  match lineEnd? s.fresh (s.passed.head? = some 92) (b :: rest) with
  | some (bytes, ending) => (s.endLine ending bytes, rest.drop (bytes.length - 1))
  | none =>
    match if isPunct b && (!s.escaped || s.fresh) then markup? defs s b rest else none with
    | some (s, tail) => ({ s with fresh := true }, tail)
    | none => ({ s with fresh := false, escaped := b == 92 && !s.escaped }.literal [b], rest)

def scanAll (defs : Definitions) : Nat → Scan → Text → Scan
  | 0, s, _ => s
  | _, s, [] => s
  | fuel + 1, s, b :: rest =>
    let (s, rest) := scanPiece defs s b rest
    scanAll defs fuel s rest

/-- The inline structure of lines that belong together. -/
def inlines (defs : Definitions) (lines : List TextLine) : List Inline :=
  let t := lines.flatMap TextLine.text
  let befores := lines.map TextLine.before
  let s : Scan := { passed := [befores.headD 10], befores := befores.tail }
  settle (scanAll defs t.length s t).finish

end Literate.Markdown
