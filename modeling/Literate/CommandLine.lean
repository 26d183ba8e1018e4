import Literate.CommandLine.Flag

/-! Command lines: a command, the choices made by flags, and operands. Flags and operands may be
mixed, also with the name of the command, which is the first word that is neither a flag nor the
value of one. -/

namespace Literate.CommandLine

inductive Verb where
  /-- No command is named: webs are tangled and woven. -/
  | build
  | completion
  | help
  | serve
  | tangle
  | weave
deriving DecidableEq, Repr

def program : Text := "litweb"

namespace Verb

def name : Verb → Text
  | .build => program
  | .completion => "completion"
  | .help => "help"
  | .serve => "serve"
  | .tangle => "tangle"
  | .weave => "weave"

/-- The commands that can be named, by name. -/
def named : List Verb := [.completion, .help, .serve, .tangle, .weave]

def ofName? (word : Text) : Option Verb := named.find? fun v => v.name == word

/-- The flags that belong to one command, by name. -/
def ownFlags (v : Verb) : List Flag :=
  match v with
  | .build => [helpFlag v.name, versionFlag v.name]
  | .serve => [addressFlag, helpFlag v.name]
  | _ => [helpFlag v.name]

def flags (v : Verb) : List Flag := sharedFlags ++ v.ownFlags

end Verb

/-- What is wrong with a command line. -/
inductive Fault where
  | badSyntax (word : Text)
  | unknownFlag (name : Text)
  | unknownLetter (letter : UInt8) (letters : Text)
  | missingValue (name : Text)
  | missingLetterValue (letter : UInt8) (letters : Text)
  | badValue (flag value : Text) (misfit : Misfit)
  | tooFew (least given : Nat)
  | tooMany (most given : Nat)
deriving DecidableEq, Repr

/-- The character that stands for a byte in a message: that of the first byte of the UTF-8 form
of the character with its number. Below 128 it is the character itself. -/
def letterChar (b : UInt8) : Char :=
  Char.ofNat (((Text.utf8 (Char.ofNat b.toNat)).head?).getD b).toNat

def Fault.message : Fault → Text
  | .badSyntax word => "bad flag syntax: " ++ word
  | .unknownFlag name => "unknown flag: --" ++ name
  | .unknownLetter letter letters =>
    "unknown shorthand flag: " ++ Text.quotedChar (letterChar letter) ++ " in -" ++ letters
  | .missingValue name => "flag needs an argument: --" ++ name
  | .missingLetterValue letter letters =>
    "flag needs an argument: " ++ Text.quotedChar (letterChar letter) ++ " in -" ++ letters
  | .badValue flag value misfit =>
    "invalid argument " ++ Text.quoted value ++ " for " ++ Text.quoted flag ++ " flag: " ++
      misfit.message
  | .tooFew least given =>
    "requires at least " ++ Text.ofNat least ++ " arg(s), only received " ++ Text.ofNat given
  | .tooMany most given =>
    "accepts at most " ++ Text.ofNat most ++ " arg(s), received " ++ Text.ofNat given

def findFlag? (flags : List Flag) (name : Text) : Option Flag :=
  flags.find? fun f => f.name == name

def findLetter? (flags : List Flag) (letter : UInt8) : Option Flag :=
  flags.find? fun f => f.letter.map Text.utf8 == some [letter]

def dash : UInt8 := 45

def equals : UInt8 := 61

/-- The word that ends the flags. -/
def flagsEnd : Text := "--"

/-- The word is the whole of a flag that takes the next word as its value. A flag that is not
known is taken for such a one. -/
def takesNext (flags : List Flag) (word : Text) : Bool :=
  let needsValue (f : Option Flag) : Bool := !(f.any fun f => f.effect.isSwitch)
  if equals ∈ word then false
  else match word with
    | [a, b] => a = dash && needsValue (findLetter? flags b)
    | a :: b :: name => a = dash && b = dash && needsValue (findFlag? flags name)
    | _ => false

/-- The first word that is neither a flag nor the value of one, if it stands before the end of the
flags. A flag whose value would be the last word leaves nothing to be found. -/
def firstOperand? (flags : List Flag) : List Text → Option Text
  | [] => none
  | word :: rest =>
    if word = flagsEnd then none
    else if takesNext flags word then
      match rest with
      | _ :: next :: rest => firstOperand? flags (next :: rest)
      | _ => none
    else if word = [] ∨ word.head? = some dash then firstOperand? flags rest
    else some word

/-- Takes out the first occurrence of an operand. -/
def withoutOperand (flags : List Flag) (operand : Text) : List Text → List Text
  | [] => []
  | word :: rest =>
    if word = flagsEnd then word :: rest
    else if takesNext flags word then
      match rest with
      | value :: rest => word :: value :: withoutOperand flags operand rest
      | [] => [word]
    else if word = operand then rest
    else word :: withoutOperand flags operand rest

/-- The command that arguments name, and the arguments without its name. -/
def verbOf (args : List Text) : Verb × List Text :=
  match firstOperand? sharedFlags args with
  | none => (.build, args)
  | some word =>
    match Verb.ofName? word with
    | some v => (v, withoutOperand sharedFlags word args)
    | none => (.build, args)

def Flag.apply (f : Flag) (value : Text) (c : Choices) : Except Fault Choices :=
  match f.effect.apply value c with
  | .ok c => .ok c
  | .error m => .error (.badValue f.title value m)

/-- The value of a switch that is given none. -/
def switchedOn : Text := "true"

/-- Applies a flag that is named in full, with the word after it. Tells whether that word was
taken. -/
def applyLong (flags : List Flag) (name : Text) (next : Option Text) (c : Choices) :
    Except Fault (Choices × Bool) :=
  if name.head? = some dash ∨ name.head? = some equals then .error (.badSyntax (flagsEnd ++ name))
  else
    let (name, value) := match Text.cut? [equals] name with
      | some (name, value) => (name, some value)
      | none => (name, none)
    match findFlag? flags name with
    | none => .error (.unknownFlag name)
    | some f =>
      match value, next with
      | some value, _ => (f.apply value c).map fun c => (c, false)
      | none, next =>
        if f.effect.isSwitch then (f.apply switchedOn c).map fun c => (c, false)
        else match next with
          | some value => (f.apply value c).map fun c => (c, true)
          | none => .error (.missingValue name)

/-- What test runners add to command lines starts with this, and is passed over. -/
def runnerMark : Text := "test."

/-- Applies flags that are named by letters. All but the last are switches; what follows the last
is its value. -/
def applyLetters (flags : List Flag) (next : Option Text) :
    Text → Choices → Except Fault (Choices × Bool)
  | [], c => .ok (c, false)
  | letter :: rest, c =>
    if runnerMark.isPrefixOf (letter :: rest) then .ok (c, false)
    else match findLetter? flags letter with
      | none => .error (.unknownLetter letter (letter :: rest))
      | some f =>
        if rest.head? = some equals ∧ rest.length > 1 then
          (f.apply rest.tail c).map fun c => (c, false)
        else if f.effect.isSwitch then
          match f.apply switchedOn c with
          | .ok c => applyLetters flags next rest c
          | .error e => .error e
        else if rest ≠ [] then (f.apply rest c).map fun c => (c, false)
        else match next with
          | some value => (f.apply value c).map fun c => (c, true)
          | none => .error (.missingLetterValue letter (letter :: rest))

/-- Applies the flags in a word. -/
def applyWord (flags : List Flag) (word : Text) (next : Option Text) (c : Choices) :
    Except Fault (Choices × Bool) :=
  match Text.after? flagsEnd word with
  | some name => applyLong flags name next c
  | none => applyLetters flags next word.tail c

/-- A word that is no operand. A dash alone is one. -/
def isFlagWord (word : Text) : Bool := word.head? == some dash && word.length > 1

/-- Reads flags and operands. -/
def readWords (flags : List Flag) : List Text → Choices → List Text →
    Except Fault (Choices × List Text)
  | [], c, operands => .ok (c, operands)
  | word :: rest, c, operands =>
    if word = flagsEnd then .ok (c, operands ++ rest)
    else if isFlagWord word then
      match applyWord flags word rest.head? c, rest with
      | .error e, _ => .error e
      | .ok (c, true), _ :: rest => readWords flags rest c operands
      | .ok (c, _), rest => readWords flags rest c operands
    else readWords flags rest c (operands ++ [word])

/-- A command line that was understood. -/
structure Request where
  verb : Verb
  choices : Choices
  operands : List Text
deriving DecidableEq, Repr

/-- Reads a command line. How many operands it has is not looked at. -/
def parse (args : List Text) : Except Fault Request :=
  let (verb, args) := verbOf args
  (readWords verb.flags args {} []).map fun (choices, operands) => ⟨verb, choices, operands⟩

/-- Whether a command has too few or too many operands. -/
def Request.operandFault? (r : Request) : Option Fault :=
  match r.verb with
  | .tangle | .weave => if r.operands = [] then some (.tooFew 1 0) else none
  | .serve => if r.operands.length > 1 then some (.tooMany 1 r.operands.length) else none
  | _ => none

end Literate.CommandLine
