/-! A position in the characters of a YAML document, with the steps that its scanner takes. -/

namespace Literate.Yaml

structure Cursor where
  rest : List Char
  line : Nat := 0
  column : Nat := 0
  index : Nat := 0
deriving Repr

def isSpace (c : Char) : Bool := c == ' ' || c == '\t'

def isBreak (c : Char) : Bool :=
  let n := c.toNat
  n == 10 || n == 13 || n == 0x85 || n == 0x2028 || n == 0x2029

def isGap (c : Char) : Bool := isSpace c || isBreak c

/-- The text ends here, or a blank or a line break follows. -/
def atGap : List Char → Bool
  | [] => true
  | c :: _ => isGap c

namespace Cursor

def peek (c : Cursor) : Option Char := c.rest.head?

def sees (c : Cursor) (x : Char) : Bool := c.rest.head? == some x

def seesBreak (c : Cursor) : Bool := c.rest.head?.any isBreak

def seesSpace (c : Cursor) : Bool := c.rest.head?.any isSpace

/-- The character after the next one ends a word. -/
def gapAfter (c : Cursor) : Bool := atGap (c.rest.drop 1)

/-- Passes over characters of the same line. -/
def skip (n : Nat) (c : Cursor) : Cursor :=
  { c with rest := c.rest.drop n, column := c.column + n, index := c.index + n }

/-- Passes over a line break, two characters if it is written with two. All breaks but the two
separators of Unicode are read as a newline. -/
def readBreak (c : Cursor) : List Char × Cursor :=
  let next (n : Nat) (rest : List Char) : Cursor := ⟨rest, c.line + 1, 0, c.index + n⟩
  match c.rest with
  | '\r' :: '\n' :: rest => (['\n'], next 2 rest)
  | x :: rest =>
    (if x.toNat == 0x2028 || x.toNat == 0x2029 then [x] else ['\n'], next 1 rest)
  | [] => ([], c)

/-- Passes over the characters of a line that satisfy a test. -/
def skipWhile (p : Char → Bool) (c : Cursor) : Cursor := c.skip (c.rest.takeWhile p).length

/-- A line of three equal marks, which begins or ends a document. -/
def atMarker (mark : Char) (c : Cursor) : Bool :=
  c.column == 0 && c.rest.take 3 == [mark, mark, mark] && atGap (c.rest.drop 3)

def atDocumentEdge (c : Cursor) : Bool := c.atMarker '-' || c.atMarker '.'

end Cursor

/-- Blanks and line breaks between two words. -/
structure Gap where
  blanks : List Char := []
  broken : Bool := false
  /-- The first line break. -/
  first : List Char := []
  /-- The line breaks after it. -/
  more : List Char := []
deriving Repr

/-- What a gap is read as: blanks stay, one newline is a blank, and of several the first is
dropped. -/
def Gap.text (g : Gap) : List Char :=
  if !g.broken then g.blanks
  else if g.first == ['\n'] then if g.more == [] then [' '] else g.more
  else g.first ++ g.more

/-- Takes a gap on top of one. A tab to the left of column `margin` on a new line is refused. -/
def takeGap (margin : Nat) : Nat → Gap → Cursor → Option (Gap × Cursor)
  | 0, g, c => some (g, c)
  | n + 1, g, c =>
    match c.peek with
    | none => some (g, c)
    | some x =>
      if isSpace x then
        if g.broken && c.column < margin && x == '\t' then none
        else
          takeGap margin n (if g.broken then g else { g with blanks := g.blanks ++ [x] }) (c.skip 1)
      else if isBreak x then
        let (text, after) := c.readBreak
        takeGap margin n
          (if g.broken then { g with more := g.more ++ text }
            else { g with broken := true, first := text }) after
      else some (g, c)

/-- Passes over a comment up to the end of its line, and over the comments on the lines after it,
whatever blanks stand before them. -/
def skipComments : Nat → Cursor → Cursor
  | 0, c => c
  | n + 1, c =>
    let c := c.skipWhile fun x => !isBreak x
    match takeGap 0 c.rest.length {} c with
    | some (_, next) => if next.sees '#' then skipComments n next else c
    | none => c

end Literate.Yaml
