import Literate.Template.Value
import Literate.Text.Quoted

/-! The functions that layouts may call. -/

namespace Literate.Template

def indent (t : Text) : Text := Text.replace "\n" "\n    " t

/-- Text in which no character is a mark of HTML. -/
def escapeMarks (t : Text) : Text :=
  Text.replaceAny [("&", "&amp;"), ("<", "&lt;"), (">", "&gt;"), ("\"", "&#34;"), ("'", "&#39;"),
    ([0], Text.utf8 Text.replacement)] t

/-- A character as it stands in a quoted string of a script. -/
def scriptRune (r : Rune) : Text :=
  let n := r.char.toNat
  let code (n : Nat) : Text := "\\u" ++ (Text.hexOfNat 4 n).map Text.upperByte
  if r.char = '\\' ∨ r.char = '\'' ∨ r.char = '"' then 92 :: r.bytes
  else if r.char ∈ ['<', '>', '&', '='] ∨ n < 0x20 then code n
  else if n < 0x80 ∨ Text.isGraphic r.char then r.bytes
  else code n

def escapeScript (t : Text) : Text := (Text.runes t).flatMap scriptRune

/-- Text as it stands in a query. -/
def escapeQuery (t : Text) : Text :=
  t.flatMap fun b =>
    if Text.isLetterByte b || Text.isDigitByte b || b ∈ Text.ofString "-_.~" then [b]
    else if b = 32 then [43]
    else [37, Text.hexUpperDigit (b.toNat / 16), Text.hexUpperDigit (b.toNat % 16)]

namespace Value

def isText : Value → Bool
  | .text _ => true
  | _ => false

/-- A value among others that are printed together. -/
def shown : Value → Text
  | .missing => "<nil>"
  | v => v.display

/-- Values one after the other, with a space between two of which none is a text. -/
def printed : List Value → Text
  | [] => []
  | [v] => v.shown
  | v :: w :: rest =>
    v.shown ++ (if v.isText || w.isText then [] else [32]) ++ printed (w :: rest)

/-- Values one after the other as data of a page. -/
def plain (vs : List Value) : Text :=
  printed (vs.map fun | .missing => .text "<no value>" | v => v)

/-- Values with spaces between them, on a line. -/
def printedLine (vs : List Value) : Text := Text.join " " (vs.map shown) ++ [Text.newline]

def typeName : Value → Text
  | .missing => "<nil>"
  | .text _ => "string"
  | .number _ => "int"
  | .decimal _ => "float64"
  | .flag _ => "bool"
  | .location _ => "web.Location"
  | .list _ => "[]interface {}"
  | .record _ => "struct"

/-- A value under a verb of a format. -/
def formatted (verb : UInt8) (v : Value) : Text :=
  let bad : Text := "%!" ++ [verb] ++ "(" ++
    (match v with | .missing => [] | v => v.typeName ++ "=") ++ v.shown ++ ")"
  match v with
  | .text t => if verb = 118 ∨ verb = 115 then t else if verb = 113 then Text.quoted t else bad
  | .number n =>
    if verb = 118 ∨ verb = 100 then Text.ofInt n
    else if verb = 99 then Text.utf8 (Char.ofNat n.toNat)
    else bad
  | .flag _ => if verb = 118 ∨ verb = 116 then v.shown else bad
  | .location l =>
    if verb = 118 ∨ verb = 115 then l.text else if verb = 113 then Text.quoted l.text else bad
  | _ => if verb = 118 ∨ verb = 115 then v.shown else bad

/-- A format with verbs filled by values in order. -/
def format : Text → List Value → Text
  | [], [] => []
  | [], vs => "%!(EXTRA " ++ Text.join ", " (vs.map fun v => v.typeName ++ "=" ++ v.shown) ++ ")"
  | 37 :: rest, vs =>
    match rest, vs with
    | [], _ => "%!(NOVERB)" ++ format [] vs
    | 37 :: rest, vs => 37 :: format rest vs
    | verb :: rest, [] => "%!" ++ [verb] ++ "(MISSING)" ++ format rest []
    | verb :: rest, v :: vs => v.formatted verb ++ format rest vs
  | b :: rest, vs => b :: format rest vs

def isBasic : Value → Bool
  | .text _ | .number _ | .decimal _ | .flag _ => true
  | _ => false

def isNothing : Value → Bool
  | .missing => true
  | .list items => items.isEmpty
  | _ => false

/-- Values that have a list in them cannot be compared. -/
def isComparable : Value → Bool
  | .list _ => false
  | .record fields => fields.all fun | (_, .list _) => false | _ => true
  | _ => true

/-- Basic values of the same kind. -/
def sameKind : Value → Value → Bool
  | .text _, .text _ | .number _, .number _ | .decimal _, .decimal _ | .flag _, .flag _ => true
  | _, _ => false

/-- Lists are compared with lists only, and records with records. -/
def sameShape : Value → Value → Bool
  | .missing, _ | _, .missing | .list _, .list _ => true
  | .list _, _ | _, .list _ => false
  | _, _ => true

/-- Equality, where two values can be compared. -/
def equals? (a b : Value) : Option Bool :=
  if a.isBasic || b.isBasic then
    if a.sameKind b then some (a == b)
    else match a, b with
      | .missing, _ | _, .missing => some false
      | _, _ => none
  else if !a.sameShape b then none
  else if a.isNothing || b.isNothing then some (a.isNothing == b.isNothing)
  else if b.isComparable && a.isComparable then some (a == b)
  else none

/-- Equality with one of several values. -/
def equalsAny? (a : Value) : List Value → Option Bool
  | [] => some false
  | b :: rest =>
    match equals? a b with
    | some false => equalsAny? a rest
    | answer => answer

/-- The order of numbers and of texts. -/
def less? : Value → Value → Option Bool
  | .number a, .number b => some (a < b)
  | .text a, .text b => some (Text.lt a b)
  | _, _ => none

def lessOrEqual? (a b : Value) : Option Bool :=
  match less? a b with
  | some false => equals? a b
  | answer => answer

def length? : Value → Option Nat
  | .text t => some t.length
  | .list items => some items.length
  | _ => none

/-- A number as a position up to a limit. -/
def position? (limit : Nat) : Value → Option Nat
  | .number n => if 0 ≤ n ∧ n ≤ limit then some n.toNat else none
  | _ => none

/-- An item of a list or a byte of a text, or an item of an item. -/
def index? : Value → List Value → Option Value
  | .missing, _ => none
  | v, [] => some v
  | .list items, i :: rest => do
    let item ← items[← i.position? items.length]?
    index? item rest
  | .text t, i :: rest => do
    let b ← t[← i.position? t.length]?
    index? (.number b.toNat) rest
  | _, _ :: _ => none

/-- The part of a list or a text between two positions. -/
def slice? (v : Value) (bounds : List Value) : Option Value := do
  let n ← v.length?
  let positions ← bounds.mapM (position? n)
  match positions, v with
  | [a, b, c], .list items => if a ≤ b ∧ b ≤ c then part items a b else none
  | [a, b], v => if a ≤ b then cut v a b else none
  | [a], v => cut v a n
  | [], v => cut v 0 n
  | _, _ => none
where
  part (items : List Value) (a b : Nat) : Option Value := some (.list ((items.take b).drop a))
  cut (v : Value) (a b : Nat) : Option Value :=
    match v with
    | .text t => some (.text ((t.take b).drop a))
    | .list items => part items a b
    | _ => none

end Value

/-- Calls a function; `none` if it does not take such arguments. The two that look at their
arguments one by one, `and` and `or`, are not among these. -/
def invoke? (quote : Text → Text) (function : Text) (arguments : List Value) : Option Value :=
  let is (name : String) : Bool := function == Text.ofString name
  let answer (b : Option Bool) : Option Value := b.map .flag
  if is "print" then some (.text (Value.printed arguments))
  else if is "println" then some (.text (Value.printedLine arguments))
  else if is "html" then some (.text (escapeMarks (Value.plain arguments)))
  else if is "js" then some (.text (escapeScript (Value.plain arguments)))
  else if is "urlquery" then some (.text (escapeQuery (Value.plain arguments)))
  else match arguments with
    | [] => none
    | v :: rest =>
      if is "printf" then
        match v with
        | .text f => some (.text (Value.format f rest))
        | _ => none
      else if is "index" then v.index? rest
      else if is "slice" then if v.length?.isSome then v.slice? rest else none
      else if is "eq" then if rest = [] then none else answer (v.equalsAny? rest)
      else match rest with
        | [] =>
          if is "not" then some (.flag !v.truth)
          else if is "len" then v.length?.map fun n => .number n
          else match v with
            | .text t =>
              if is "quote" then some (.text (quote t))
              else if is "indent" then some (.text (indent t))
              else none
            | _ => none
        | [w] =>
          if is "ne" then answer ((v.equals? w).map not)
          else if is "lt" then answer (v.less? w)
          else if is "le" then answer (v.lessOrEqual? w)
          else if is "gt" then answer ((v.lessOrEqual? w).map not)
          else if is "ge" then answer ((v.less? w).map not)
          else if is "join" then
            match v, w with
            | .missing, .text _ => some (.text [])
            | _, _ => none
          else none
        | _ => none

end Literate.Template
