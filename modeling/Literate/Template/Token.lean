import Literate.Template.Literal
import Literate.Text.Class

/-! Tokens of a layout: the text between actions and the words of each action. -/

namespace Literate.Template

/-- Words with a meaning of their own. -/
inductive Keyword where
  | block
  | leave
  | next
  | define
  | otherwise
  | done
  | choose
  | each
  | embed
  | using
deriving DecidableEq, Repr

inductive Token where
  | text (t : Text)
  | left
  | right
  | space
  | dot
  | nothing
  | field (name : Text)
  | variable (name : Text)
  | identifier (name : Text)
  | keyword (k : Keyword)
  | string (t : Text)
  /-- A truth value or a number, which may be too large to be used. -/
  | literal (v : Option Value)
  | pipe
  | assign
  | declare
  | comma
  | opening
  | closing

def keywords : List (Text × Keyword) :=
  [("block", .block), ("break", .leave), ("continue", .next), ("define", .define),
    ("else", .otherwise), ("end", .done), ("if", .choose), ("range", .each),
    ("template", .embed), ("with", .using)]

def Token.ofWord (word : Text) : Token :=
  match keywords.lookup word with
  | some k => .keyword k
  | none =>
    if word = ("nil" : Text) then .nothing
    else if word = ("true" : Text) then .literal (some (.flag true))
    else if word = ("false" : Text) then .literal (some (.flag false))
    else .identifier word

def isSpace (b : UInt8) : Bool := b == 32 || b == 9 || b == 10 || b == 13

def isWordChar (c : Char) : Bool := c == '_' || Text.isLetter c || Text.isDigit c

/-- The letters, digits and underscores at the start of a text. -/
def wordOf (t : Text) : Text :=
  Text.ofRunes ((Text.runes t).takeWhile fun r => isWordChar r.char)

/-- What may stand right after a word. -/
def endsWord (right t : Text) : Bool :=
  match t with
  | [] => true
  | b :: _ => isSpace b || b ∈ Text.ofString ".,|:()" || right.isPrefixOf t

/-- The text after a closing delimiter with a space and a dash before it, without the white space
at its start. -/
def trimmingClose? (right : Text) : Text → Option Text
  | b :: 45 :: rest =>
    if isSpace b then (Text.after? right rest).map (List.dropWhile isSpace) else none
  | _ => none

/-- The text after a closing delimiter, if one is next. -/
def closing? (right t : Text) : Option Text := (trimmingClose? right t).or (Text.after? right t)

/-- A dash after an opening delimiter that drops the white space before it. -/
def isTrimming : Text → Bool
  | 45 :: b :: _ => isSpace b
  | _ => false

/-- The token at the start of a text within an action, and the rest. -/
def token? (right : Text) : Text → Option (Token × Text)
  | [] => none
  | b :: rest =>
    let t := b :: rest
    let number : Option (Token × Text) :=
      let (digits, after) := numberText t
      if after.head?.any (fun c => c == 43 || c == 45) || wordOf after ≠ [] then none
      else (number? digits).map fun v => (.literal v, after)
    let name (make : Text → Token) (word after : Text) : Option (Token × Text) :=
      if endsWord right after then some (make word, after) else none
    if b = 61 then some (.assign, rest)
    else if b = 58 then if rest.head? = some 61 then some (.declare, rest.drop 1) else none
    else if b = 124 then some (.pipe, rest)
    else if b = 44 then some (.comma, rest)
    else if b = 40 then some (.opening, rest)
    else if b = 41 then some (.closing, rest)
    else if b = 34 then (quotedText? t.length rest).map fun (s, after) => (.string s, after)
    else if b = 96 then (rawText? rest).map fun (s, after) => (.string s, after)
    else if b = 39 then
      (charCode? rest).map fun (n, after) => (.literal (some (.number n)), after)
    else if b = 36 then
      let word := if endsWord right rest then [] else wordOf rest
      name .variable (36 :: word) (rest.drop word.length)
    else if b = 46 ∧ !rest.head?.any Text.isDigitByte then
      if endsWord right rest then some (.dot, rest)
      else name .field (wordOf rest) (rest.drop (wordOf rest).length)
    else if b = 46 ∨ b = 43 ∨ b = 45 ∨ Text.isDigitByte b then number
    else
      let word := wordOf t
      if word = [] then none else name Token.ofWord word (t.drop word.length)

/-- The tokens of an action up to its closing delimiter, and the text after it. `depth` counts the
open parentheses. -/
def actionTokens? (right : Text) : Nat → Nat → Text → Option (List Token × Text)
  | 0, _, _ => none
  | fuel + 1, depth, t =>
    let also (token : Token) (depth : Nat) (rest : Text) : Option (List Token × Text) :=
      (actionTokens? right fuel depth rest).map fun (ts, rest) => (token :: ts, rest)
    match closing? right t with
    | some after => if depth = 0 then some ([.right], after) else none
    | none =>
      let gap := t.takeWhile isSpace
      if gap ≠ [] then
        let last := t.drop (gap.length - 1)
        also .space depth (if (trimmingClose? right last).isSome then last else last.drop 1)
      else
        match token? right t with
        | none => none
        | some (.opening, rest) => also .opening (depth + 1) rest
        | some (.closing, rest) => if depth = 0 then none else also .closing (depth - 1) rest
        | some (token, rest) => also token depth rest

/-- The text after a comment, from its inside on. -/
def afterComment? (right t : Text) : Option Text :=
  (Text.cut? "*/" t).bind fun (_, after) => closing? right after

def trimEnd (t : Text) : Text := (t.reverse.dropWhile isSpace).reverse

/-- The tokens of a layout. A dash next to a delimiter trims the text beside it, and a comment
leaves no token. -/
def tokensOf? (left right : Text) : Nat → Text → Option (List Token)
  | 0, _ => none
  | fuel + 1, t =>
    let plain (t : Text) : List Token := if t = [] then [] else [.text t]
    match Text.cut? left t with
    | none => some (plain t)
    | some (before, rest) =>
      let before := plain (if isTrimming rest then trimEnd before else before)
      let inner := if isTrimming rest then rest.drop 2 else rest
      match Text.after? "/*" inner with
      | some comment =>
        match afterComment? right comment with
        | none => none
        | some after => (tokensOf? left right fuel after).map (before ++ ·)
      | none =>
        match actionTokens? right (inner.length + 1) 0 inner with
        | none => none
        | some (action, after) =>
          (tokensOf? left right fuel after).map (before ++ .left :: action ++ ·)

end Literate.Template
