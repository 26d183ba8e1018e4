import Literate.Csv
import Literate.Number
import Literate.Text.Quoted
import Literate.Weave.Markups

/-! Flags: the words of a command line that change a choice. -/

namespace Literate.CommandLine

/-- What the flags of a command line chose; what no flag names is open. -/
structure Choices where
  /-- A file with settings; empty if there is none. -/
  config : Text := []
  command : Option Text := none
  markup : Option Text := none
  output : Option Text := none
  permit : Option (List Text) := none
  lineNumbers : Option Bool := none
  /-- The phases to be skipped. -/
  skip : List Text := []
  workers : Option Int := none
  verbose : Bool := false
  debug : Bool := false
  silent : Bool := false
  address : Option Text := none
  help : Bool := false
  version : Bool := false
deriving DecidableEq, Repr

/-- What a flag does with its value. A switch needs none; of a list each use adds its part. -/
inductive Effect where
  | switch (set : Bool → Choices → Choices)
  | text (set : Text → Choices → Choices)
  | list (add : List Text → Choices → Choices)
  | count (set : Int → Choices → Choices)

def Effect.isSwitch : Effect → Bool
  | .switch _ => true
  | _ => false

/-- The word for the kind of value, as help shows it. -/
def Effect.valueWord : Effect → Text
  | .switch _ => []
  | .text _ => "string"
  | .list _ => "strings"
  | .count _ => "int"

/-- Why a value does not fit a flag. -/
inductive Misfit where
  | notTruth (value : Text)
  | notCount (value : Text) (fault : Number.Fault)
  | notList (fault : Csv.Fault)
deriving DecidableEq, Repr

def Misfit.message : Misfit → Text
  | .notTruth value =>
    "strconv.ParseBool: parsing " ++ Text.quoted value ++ ": " ++ Number.Fault.malformed.message
  | .notCount value fault =>
    "strconv.ParseInt: parsing " ++ Text.quoted value ++ ": " ++ fault.message
  | .notList fault => fault.message

def Effect.apply (value : Text) (c : Choices) : Effect → Except Misfit Choices
  | .switch set =>
    match Number.boolean? value with
    | some b => .ok (set b c)
    | none => .error (.notTruth value)
  | .text set => .ok (set value c)
  | .list add =>
    match Csv.fields value with
    | .ok ts => .ok (add ts c)
    | .error f => .error (.notList f)
  | .count set =>
    match Number.literal value with
    | .ok n => .ok (set n c)
    | .error f => .error (.notCount value f)

structure Flag where
  name : Text
  letter : Option Char := none
  effect : Effect
  usage : Text
  /-- What holds without the flag, where help shows it. -/
  fallback : Text := []

/-- The spellings of a flag. -/
def Flag.title (f : Flag) : Text :=
  match f.letter with
  | some c => "-" ++ Text.utf8 c ++ ", --" ++ f.name
  | none => "--" ++ f.name

/-- The flags that every command has, by name. -/
def sharedFlags : List Flag :=
  [ { name := "command", letter := 'c', usage := "Command character"
      effect := .text fun t c => { c with command := some t }, fallback := Text.quoted "@" },
    { name := "config", usage := "YAML configuration file"
      effect := .text fun t c => { c with config := t } },
    { name := "debug", letter := 'd', usage := "Log debugging detail"
      effect := .switch fun b c => { c with debug := b } },
    { name := "line-numbers", letter := 'n', usage := "Mark tangled code with source line numbers"
      effect := .switch fun b c => { c with lineNumbers := some b } },
    { name := "output", letter := 'o', usage := "Output directory (default: next to each web)"
      effect := .text fun t c => { c with output := some t } },
    { name := "permit", letter := 'p', usage := "Commands whose failures only warn, e.g. @i"
      effect := .list fun ts c => { c with permit := some (c.permit.getD [] ++ ts) } },
    { name := "silent", letter := 's', usage := "Log warnings and errors only"
      effect := .switch fun b c => { c with silent := b } },
    { name := "skip", letter := 'x', usage := "Skip a phase: t (tangle) or w (weave)"
      effect := .list fun ts c => { c with skip := c.skip ++ ts } },
    { name := "verbose", letter := 'v', usage := "Log progress"
      effect := .switch fun b c => { c with verbose := b } },
    { name := "weaver", letter := 'w'
      usage := "Weave markup [" ++ Text.join " " Weave.markupNames ++ "]"
      effect := .text fun t c => { c with markup := some t }
      fallback := Text.quoted Weave.defaultMarkup.name },
    { name := "workers", usage := "Webs processed concurrently"
      effect := .count fun n c => { c with workers := some n }, fallback := "4" } ]

def addressFlag : Flag :=
  { name := "addr", usage := "Listen address"
    effect := .text fun t c => { c with address := some t }, fallback := Text.quoted ":8090" }

def helpFlag (command : Text) : Flag :=
  { name := "help", letter := 'h', usage := "help for " ++ command
    effect := .switch fun b c => { c with help := b } }

def versionFlag (command : Text) : Flag :=
  { name := "version", usage := "version for " ++ command
    effect := .switch fun b c => { c with version := b } }

end Literate.CommandLine
