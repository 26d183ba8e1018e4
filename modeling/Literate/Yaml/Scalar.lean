import Literate.Yaml.Cursor
import Literate.Text

/-! Scalars of a YAML document: plain words, quoted text, and blocks of indented lines. Each is
read from a cursor, or refused. -/

namespace Literate.Yaml

/-- The characters that end a word inside brackets. -/
def isFlowMark (x : Char) : Bool := x == ',' || x == '[' || x == ']' || x == '\x7b' || x == '\x7d'

/-- The characters of a plain word. -/
def plainWord (flow : Bool) : List Char → List Char
  | [] => []
  | x :: rest =>
    if isGap x then []
    else if x == ':' && atGap rest then []
    else if flow && (isFlowMark x || x == '?' && atGap rest) then []
    else x :: plainWord flow rest

/-- Reads words and gaps. `joint` is the gap before the next word; the result tells whether the
scalar ends after a line break. -/
def plainFrom (flow : Bool) (margin : Nat) :
    Nat → List Char → Gap → Cursor → Option (List Char × Bool × Cursor)
  | 0, text, joint, c => some (text, joint.broken, c)
  | n + 1, text, joint, c =>
    if c.atDocumentEdge || c.sees '#' then some (text, joint.broken, c)
    else
      let word := plainWord flow c.rest
      let text := if word == [] then text else text ++ joint.text ++ word
      let joint := if word == [] then joint else {}
      let c := c.skip word.length
      if !(c.seesSpace || c.seesBreak) then some (text, joint.broken, c)
      else match takeGap margin c.rest.length joint c with
        | none => none
        | some (joint, c) =>
          if !flow && c.column < margin then some (text, joint.broken, c)
          else plainFrom flow margin n text joint c

/-- A plain scalar; on new lines it goes on only from column `margin`. -/
def plain? (flow : Bool) (margin : Nat) (c : Cursor) : Option (List Char × Bool × Cursor) :=
  plainFrom flow margin c.rest.length [] {} c

/-- What a letter after a backslash stands for. -/
def escaped? (x : Char) : Option Char :=
  let table : List (Char × Nat) :=
    [('0', 0), ('a', 7), ('b', 8), ('t', 9), ('\t', 9), ('n', 10), ('v', 11), ('f', 12), ('r', 13),
      ('e', 27), (' ', 32), ('"', 34), ('\'', 39), ('\\', 92), ('N', 0x85), ('_', 0xA0),
      ('L', 0x2028), ('P', 0x2029)]
  (table.lookup x).map Char.ofNat

/-- How many hexadecimal digits follow a letter after a backslash. -/
def codeLength (x : Char) : Nat :=
  if x == 'x' then 2 else if x == 'u' then 4 else if x == 'U' then 8 else 0

def isHexChar (x : Char) : Bool := x.toNat < 128 && Text.isHexByte x.toNat.toUInt8

def hexNumber (cs : List Char) : Nat :=
  cs.foldl (fun n x => 16 * n + Text.hexValue x.toNat.toUInt8) 0

/-- Reads an escape after its backslash: a character, and how many characters it took. -/
def escape? : List Char → Option (Char × Nat)
  | [] => none
  | x :: rest =>
    let size := codeLength x
    if size = 0 then (escaped? x).map fun e => (e, 1)
    else
      let digits := rest.take size
      let value := hexNumber digits
      if digits.length < size || !digits.all isHexChar then none
      else if (0xD800 ≤ value ∧ value ≤ 0xDFFF) ∨ value > 0x10FFFF then none
      else some (Char.ofNat value, size + 1)

/-- Reads quoted text after its opening quote. An escaped line break begins a gap that leaves no
blank. -/
def quotedFrom (single : Bool) : Nat → List Char → Cursor → Option (List Char × Cursor)
  | 0, _, _ => none
  | n + 1, text, c =>
    if c.atDocumentEdge then none
    else match c.rest with
      | [] => none
      | x :: rest =>
        if isGap x then
          match takeGap 0 c.rest.length {} c with
          | none => none
          | some (gap, c) => quotedFrom single n (text ++ gap.text) c
        else if single then
          if x == '\'' then
            if rest.head? == some '\'' then quotedFrom single n (text ++ ['\'']) (c.skip 2)
            else some (text, c.skip 1)
          else quotedFrom single n (text ++ [x]) (c.skip 1)
        else if x == '"' then some (text, c.skip 1)
        else if x != '\\' then quotedFrom single n (text ++ [x]) (c.skip 1)
        else if rest.head?.any isBreak then
          let (_, after) := (c.skip 1).readBreak
          match takeGap 0 after.rest.length { broken := true } after with
          | none => none
          | some (gap, c) => quotedFrom single n (text ++ gap.text) c
        else match escape? rest with
          | none => none
          | some (e, taken) => quotedFrom single n (text ++ [e]) (c.skip (taken + 1))

def quoted? (single : Bool) (c : Cursor) : Option (List Char × Cursor) :=
  quotedFrom single c.rest.length [] (c.skip 1)

/-- What becomes of the line breaks at the end of a block. -/
inductive Chomp where
  | strip
  | clip
  | keep
deriving DecidableEq, Repr

/-- Passes over empty lines and indentation, up to column `indent` if it is not zero. The result
has the line breaks and the largest indentation that was met. -/
def blockBreaks (indent : Nat) : Nat → List Char → Nat → Cursor → Option (List Char × Nat × Cursor)
  | 0, breaks, widest, c => some (breaks, widest, c)
  | n + 1, breaks, widest, c =>
    let spaces := (c.rest.takeWhile (· == ' ')).length
    let c := c.skip (if indent = 0 then spaces else min spaces (indent - c.column))
    let widest := max widest c.column
    if (indent = 0 ∨ c.column < indent) ∧ c.sees '\t' then none
    else if c.seesBreak then
      let (text, after) := c.readBreak
      blockBreaks indent n (breaks ++ text) widest after
    else some (breaks, widest, c)

/-- Reads the lines of a block at its indentation. `lead` is the break before the next line and
`breaks` those of the empty lines after it. -/
def blockLines (literal : Bool) (indent : Nat) :
    Nat → (text lead breaks : List Char) → Bool → Cursor →
      Option (List Char × List Char × List Char × Cursor)
  | 0, text, lead, breaks, _, c => some (text, lead, breaks, c)
  | n + 1, text, lead, breaks, spaced, c =>
    if c.column ≠ indent ∨ c.rest = [] then some (text, lead, breaks, c)
    else
      let blank := c.seesSpace
      let joint :=
        if !literal && !spaced && !blank && lead == ['\n'] then
          if breaks == [] then [' '] else []
        else lead
      let line := c.rest.takeWhile fun x => !isBreak x
      let (lead, c) := (c.skip line.length).readBreak
      match blockBreaks indent (c.rest.length + 1) [] 0 c with
      | none => none
      | some (more, _, c) =>
        blockLines literal indent n (text ++ joint ++ breaks ++ line) lead more blank c

/-- The marks after the sign of a block: how its end is treated and how far it is indented, and
how many characters they take. -/
def blockHeader? (cs : List Char) : Option (Chomp × Nat × Nat) :=
  let chomp? (x : Char) : Option Chomp :=
    if x == '+' then some .keep else if x == '-' then some .strip else none
  let digit? (x : Char) : Option Nat := if x.isDigit then some (x.toNat - 48) else none
  let refuseZero (chomp : Chomp) (step taken : Nat) : Option (Chomp × Nat × Nat) :=
    if step = 0 then none else some (chomp, step, taken)
  match cs with
  | x :: rest =>
    match chomp? x, digit? x with
    | some chomp, _ =>
      match rest.head?.bind digit? with
      | some step => refuseZero chomp step 2
      | none => some (chomp, 0, 1)
    | none, some step =>
      match rest.head?.bind chomp? with
      | some chomp => refuseZero chomp step 2
      | none => refuseZero .clip step 1
    | none, none => some (.clip, 0, 0)
  | [] => some (.clip, 0, 0)

/-- A block scalar in a collection indented by `outer` columns, or at the top if that is -1. -/
def block? (literal : Bool) (outer : Int) (c : Cursor) : Option (List Char × Cursor) :=
  match blockHeader? (c.rest.drop 1) with
  | none => none
  | some (chomp, step, taken) =>
    let c := (c.skip (1 + taken)).skipWhile isSpace
    let c := if c.sees '#' then c.skipWhile fun x => !isBreak x else c
    if !(c.rest == [] || c.seesBreak) then none
    else
      let c := c.readBreak.2
      let given : Nat := if step = 0 then 0 else (max outer 0).toNat + step
      match blockBreaks given (c.rest.length + 1) [] 0 c with
      | none => none
      | some (breaks, widest, c) =>
        let indent := if given = 0 then max (max widest (outer + 1).toNat) 1 else given
        match blockLines literal indent (c.rest.length + 1) [] [] breaks false c with
        | none => none
        | some (text, lead, breaks, c) =>
          let text := if chomp = .strip then text else text ++ lead
          some (if chomp = .keep then text ++ breaks else text, c)

end Literate.Yaml
