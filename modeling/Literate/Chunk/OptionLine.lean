import Literate.Chunk
import Literate.Text.Class

/-! The line that opens a named or output chunk: options, then the words of the name. -/

namespace Literate.OptionLine

/-- A line read so far: the finished words, the word at the end of it, and the open quote. -/
structure Scan where
  words : List (List Char) := []
  word : Option (List Char) := none
  quote : Option Char := none
deriving DecidableEq, Repr

def isSeparator (c : Char) : Bool := c == ' ' || c == '\t' || c == '\r'

def isQuote (c : Char) : Bool := c == '"' || c == '\''

def Scan.step (s : Scan) (c : Char) : Scan :=
  match s.quote with
  | some q =>
    if c = q then { s with quote := none }
    else { s with word := some (s.word.getD [] ++ [c]) }
  | none =>
    if isQuote c then { s with quote := some c, word := some (s.word.getD []) }
    else if isSeparator c then { s with words := s.words ++ s.word.toList, word := none }
    else { s with word := some (s.word.getD [] ++ [c]) }

/-- The words of a line, or the quote that is not closed. Quotes group characters into a word and
can be empty; there are no escapes. -/
def words (line : List Char) : Except Char (List (List Char)) :=
  let s := line.foldl Scan.step {}
  match s.quote with
  | some q => .error q
  | none => .ok (s.words ++ s.word.toList)

/-- The wording of an unclosed quote. -/
def unclosedMessage (quote : Char) : Text := "unterminated " ++ Text.utf8 quote ++ " quote"

/-- An option word that a kind of chunk knows. -/
inductive Setting where
  | style
  | commentStart
  | commentEnd
  | unwoven
  | indent
  | noIndent
deriving DecidableEq, Repr

/-- The setting that an option word names; some belong to output chunks, some to the others. -/
def setting? (kind : Chunk.Kind) (word : Text) : Option Setting :=
  if word = ("-style" : Text) then some .style
  else if kind = .output then
    if word = ("-start" : Text) then some .commentStart
    else if word = ("-end" : Text) then some .commentEnd
    else if word = ("-noweave" : Text) then some .unwoven
    else none
  else if word = ("-indent" : Text) then some .indent
  else if word = ("-noindent" : Text) then some .noIndent
  else none

/-- Settings that take the next word as their value. -/
def Setting.takesValue : Setting → Bool
  | .style | .commentStart | .commentEnd => true
  | _ => false

def Setting.apply (value : Text) : Setting → Chunk → Chunk
  | .style, c => { c with style := value }
  | .commentStart, c => { c with commentStart := value }
  | .commentEnd, c => { c with commentEnd := value }
  | .unwoven, c => { c with woven := false }
  | .indent, c => { c with indent := .on }
  | .noIndent, c => { c with indent := .off }

/-- Reads options up to the first word without a dash, which begins the name. -/
def applyWords (kind : Chunk.Kind) : List Text → Chunk × List Text → Chunk × List Text
  | [], acc => acc
  | [word], (c, warnings) =>
    if word.head? ≠ some 45 then ({ c with name := word }, warnings)
    else match setting? kind word with
      | some s =>
        (s.apply [] c,
          if s.takesValue then warnings ++ ["option " ++ word ++ " needs a value"] else warnings)
      | none => (c, warnings ++ ["unknown option " ++ word])
  | word :: value :: rest, (c, warnings) =>
    if word.head? ≠ some 45 then
      ({ c with name := Text.join " " (word :: value :: rest) }, warnings)
    else match setting? kind word with
      | some s =>
        if s.takesValue then applyWords kind rest (s.apply value c, warnings)
        else applyWords kind (value :: rest) (s.apply [] c, warnings)
      | none => applyWords kind (value :: rest) (c, warnings ++ ["unknown option " ++ word])

/-- The empty chunk that a line describes and the warnings about its options. -/
def chunk (kind : Chunk.Kind) (line : List Char) : Except Char (Chunk × List Text) :=
  match words line with
  | .error q => .error q
  | .ok ws =>
    let ws := ws.map Text.ofChars
    .ok (applyWords kind ws ({ Chunk.ofKind kind [] with options := ws }, []))

end Literate.OptionLine
