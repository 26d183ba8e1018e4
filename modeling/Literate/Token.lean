import Literate.Text.Rune

/-! Tokens of a source: newlines, controls (the command character and a letter) and the literal
spans between them. -/

namespace Literate

/-- What a letter after the command character asks for. -/
inductive Control where
  /-- The command character itself. -/
  | literally
  | openCode
  | closeCode
  | openDocument
  | closeDocument
  | openReference
  | closeReference
  | includeFile
  | identifiers
  | macroIndex
  | fileIndex
  | identifierIndex
  | openSubstitution
  | closeSubstitution
  | outputChunk
  | namedChunk
deriving DecidableEq, Repr

namespace Control

def letter : Control → Char
  | .literally => '@'
  | .openCode => '\x7b'
  | .closeCode => '\x7d'
  | .openDocument => '['
  | .closeDocument => ']'
  | .openReference => '<'
  | .closeReference => '>'
  | .includeFile => 'i'
  | .identifiers => '|'
  | .macroIndex => 'm'
  | .fileIndex => 'f'
  | .identifierIndex => 'u'
  | .openSubstitution => '('
  | .closeSubstitution => ')'
  | .outputChunk => 'o'
  | .namedChunk => 'd'

def all : List Control :=
  [.literally, .openCode, .closeCode, .openDocument, .closeDocument, .openReference,
    .closeReference, .includeFile, .identifiers, .macroIndex, .fileIndex, .identifierIndex,
    .openSubstitution, .closeSubstitution, .outputChunk, .namedChunk]

def ofLetter? (c : Char) : Option Control := all.find? fun k => k.letter == c

end Control

inductive Token where
  | newline
  | control (kind : Control)
  | literal (span : List Char)
deriving DecidableEq, Repr

namespace Token

/-- The command character of a source that names none. -/
def defaultCommand : Char := '@'

/-- The command character that is meant: NUL asks for the default. -/
def commandOf (c : Char) : Char := if c.toNat = 0 then defaultCommand else c

/-- Puts a character before tokens, into the literal that they start with if they do. -/
def consLiteral (c : Char) : List Token → List Token
  | .literal span :: rest => .literal (c :: span) :: rest
  | rest => .literal [c] :: rest

/-- The tokens of a list of characters under a command character. A newline is a token of its
own even when it is the command character. -/
def scan (command : Char) : List Char → List Token
  | [] => []
  | [c] => if c = '\n' then [.newline] else [.literal [c]]
  | c :: d :: rest =>
    if c = '\n' then .newline :: scan command (d :: rest)
    else if c = command then
      match Control.ofLetter? d with
      | some kind => .control kind :: scan command rest
      | none => consLiteral c (scan command (d :: rest))
    else consLiteral c (scan command (d :: rest))

def ofText (command : Char) (t : Text) : List Token := scan command t.chars

/-- The characters that a token was read from. -/
def chars (command : Char) : Token → List Char
  | .newline => ['\n']
  | .control kind => [command, kind.letter]
  | .literal span => span

def text (command : Char) (t : Token) : Text := Text.ofChars (t.chars command)

def isControl : Token → Bool
  | .control _ => true
  | _ => false

/-- A text is a control when it is the command character and one of the letters. -/
def spellsControl (command : Char) (t : Text) : Bool :=
  match t.chars with
  | [c, d] => c == command && (Control.ofLetter? d).isSome
  | _ => false

/-- The newlines among tokens. -/
def newlines (ts : List Token) : Nat := ts.countP (· == .newline)

/-- Each token with the number of newlines up to and including it. -/
def counted : Nat → List Token → List (Token × Nat)
  | _, [] => []
  | n, t :: rest =>
    let n := if t = .newline then n + 1 else n
    (t, n) :: counted n rest

end Token

end Literate
